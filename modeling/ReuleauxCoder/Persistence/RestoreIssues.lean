import ReuleauxCoder.Library.JsonRoundTrip
import ReuleauxCoder.Library.Weighted
import ReuleauxCoder.Persistence.Validation
import ReuleauxCoder.Tools.Failures

/-!
# Issues of a degraded restore

A restore that loses something reports facts without content.  `_RestoreIssueCollector`
merges facts with one key and keeps the first eight keys; the rest is one fact that says
how many were left out.  The facts are persisted with the session, and the next restore
begins with them.
-/

namespace ReuleauxCoder.Persistence

open Check PyText PyJson Context Tools Weighted List

/-! ## One issue -/

inductive RestoreIssueError where
  | typeError (message : Text)
  | valueError (message : Text)
  deriving DecidableEq

/-- What `_restore_fact` and `_safe_restore_fact` accept. -/
def isRestoreFact (value : Text) : Bool :=
  let letters := value.filter (· ≠ ofChar '_')
  value ≠ [] && decide (value.length ≤ 64) && isAscii value && letters ≠ [] &&
    letters.all isAsciiAlphanumeric

abbrev RestoreFact := { value : Text // isRestoreFact value = true }

/-- `_restore_fact`. -/
def restoreFact (value : Json) (fieldName : String) : Except RestoreIssueError RestoreFact :=
  match value with
  | .str text =>
      if hsafe : isRestoreFact text = true then .ok ⟨text, hsafe⟩
      else .error (.valueError (lit "invalid restore issue " ++ lit fieldName))
  | _ => .error (.valueError (lit "invalid restore issue " ++ lit fieldName))

/-- `_safe_restore_fact`; `none` is a value that is no text. -/
def safeRestoreFact (value : Option Text) (fallback : RestoreFact) : RestoreFact :=
  match value with
  | some text => if hsafe : isRestoreFact text = true then ⟨text, hsafe⟩ else fallback
  | none => fallback

structure SessionRestoreIssue where
  phase : RestoreFact
  errorType : RestoreFact
  ref : RestoreFact
  count : ℕ := 0
  deriving DecidableEq

def restoreCount : Json → Except RestoreIssueError ℕ
  | .int value =>
      if 0 ≤ value then .ok value.toNat
      else .error (.valueError (lit "restore issue count must be a non-negative integer"))
  | _ => .error (.valueError (lit "restore issue count must be a non-negative integer"))

namespace SessionRestoreIssue

/-- `SessionRestoreIssue.from_dict`. -/
def fromDict : Json → Except RestoreIssueError SessionRestoreIssue
  | .obj data => do
      let phase ← restoreFact (field data "phase") "phase"
      let errorType ← restoreFact (field data "error_type") "error_type"
      let ref ← restoreFact (field data "ref") "ref"
      let count ← restoreCount (fieldOr data "count" (.int 0))
      return { phase, errorType, ref, count }
  | _ => .error (.typeError (lit "restore issue must be an object"))

def toDict (issue : SessionRestoreIssue) : List (Text × Json) :=
  let payload : List (Text × Json) := [
    (lit "phase", .str issue.phase),
    (lit "error_type", .str issue.errorType),
    (lit "ref", .str issue.ref)]
  if issue.count = 0 then payload else payload ++ [(lit "count", .int issue.count)]

def key (issue : SessionRestoreIssue) : RestoreFact × RestoreFact × RestoreFact :=
  (issue.phase, issue.errorType, issue.ref)

/-- `max(1, issue.count)`. -/
def occurrences (issue : SessionRestoreIssue) : ℕ :=
  max 1 issue.count

end SessionRestoreIssue

def additionalIssuesOmitted : RestoreFact :=
  ⟨lit "AdditionalIssuesOmitted", by decide⟩

def invalidCarrier : SessionRestoreIssue where
  phase := ⟨lit "restore_issues_validate", by decide⟩
  errorType := ⟨lit "SessionRestoreIssuesValidationError", by decide⟩
  ref := ⟨lit "restore_issues", by decide⟩

def omittedIssue (count : ℕ) : SessionRestoreIssue where
  phase := ⟨lit "restore_observability", by decide⟩
  errorType := additionalIssuesOmitted
  ref := ⟨lit "session_artifacts", by decide⟩
  count := count

/-! ## The collector -/

def maxRestoreIssues : ℕ := 8

/-- The stored issue of the first occurrences of its key. -/
def SessionRestoreIssue.stored (issue : SessionRestoreIssue) : SessionRestoreIssue :=
  { issue with count := if 1 < issue.occurrences then issue.occurrences else 0 }

/-- The loop that adds the occurrences of an issue to the stored issue with its key. -/
def mergeIssue (issue : SessionRestoreIssue) : List SessionRestoreIssue → List SessionRestoreIssue
  | [] => []
  | current :: rest =>
      if current.key = issue.key then
        { current with count := current.occurrences + issue.occurrences } :: rest
      else current :: mergeIssue issue rest

@[simp]
theorem mergeIssue_keys (issue : SessionRestoreIssue) (issues : List SessionRestoreIssue) :
    (mergeIssue issue issues).map SessionRestoreIssue.key =
      issues.map SessionRestoreIssue.key := by
  induction issues with
  | nil => rfl
  | cons current rest ih =>
      rw [mergeIssue]
      split
      · rfl
      · rw [map_cons, map_cons, ih]

variable {issues : List SessionRestoreIssue}

theorem mergeIssue_count {issue : SessionRestoreIssue}
    (hcounted : ∀ current ∈ issues, current.count ≠ 1) :
    ∀ current ∈ mergeIssue issue issues, current.count ≠ 1 := by
  induction issues with
  | nil => exact hcounted
  | cons first rest ih =>
      have hrest := ih fun current hcurrent => hcounted current (mem_cons_of_mem _ hcurrent)
      rw [mergeIssue]
      split
      · intro current hcurrent
        rcases mem_cons.mp hcurrent with rfl | hcurrent
        · simp only [SessionRestoreIssue.occurrences]
          omega
        · exact hcounted current (mem_cons_of_mem _ hcurrent)
      · intro current hcurrent
        rcases mem_cons.mp hcurrent with rfl | hcurrent
        · exact hcounted current (mem_cons_self ..)
        · exact hrest current hcurrent

/-- What the collector keeps: at most eight issues of different keys, none of them the
fact about omissions, each with a count that `SessionRestoreIssue` would store. -/
structure Kept (issues : List SessionRestoreIssue) : Prop where
  bounded : issues.length ≤ maxRestoreIssues
  distinct : (issues.map SessionRestoreIssue.key).Nodup
  visible : ∀ key ∈ issues.map SessionRestoreIssue.key, key.2.1 ≠ additionalIssuesOmitted
  counted : ∀ issue ∈ issues, issue.count ≠ 1

theorem Kept.empty : Kept [] := by
  constructor <;> simp

theorem Kept.merge (hkept : Kept issues) (issue : SessionRestoreIssue) :
    Kept (mergeIssue issue issues) where
  bounded := by
    have hlength := congrArg List.length (mergeIssue_keys issue issues)
    rw [length_map, length_map] at hlength
    exact hlength.trans_le hkept.bounded
  distinct := by
    rw [mergeIssue_keys]
    exact hkept.distinct
  visible := by
    rw [mergeIssue_keys]
    exact hkept.visible
  counted := mergeIssue_count hkept.counted

theorem Kept.append (hkept : Kept issues) {issue : SessionRestoreIssue}
    (hvisible : issue.errorType ≠ additionalIssuesOmitted)
    (hnew : issue.key ∉ issues.map SessionRestoreIssue.key)
    (hroom : issues.length < maxRestoreIssues) : Kept (issues ++ [issue.stored]) where
  bounded := by
    rw [length_append]
    exact hroom
  distinct := by
    rw [map_append]
    exact hkept.distinct.append (nodup_singleton _)
      (disjoint_singleton.mpr hnew)
  visible := by
    rw [map_append]
    intro key hkey
    rcases mem_append.mp hkey with hkey | hkey
    · exact hkept.visible key hkey
    · rw [mem_singleton.mp hkey]
      exact hvisible
  counted := by
    intro current hcurrent
    rcases mem_append.mp hcurrent with hcurrent | hcurrent
    · exact hkept.counted current hcurrent
    · rw [mem_singleton.mp hcurrent]
      simp only [SessionRestoreIssue.stored]
      split <;> omega

@[ext]
structure RestoreIssueCollector where
  issues : List SessionRestoreIssue := []
  omitted : ℕ := 0
  kept : Kept issues

namespace RestoreIssueCollector

def empty : RestoreIssueCollector where
  kept := .empty

/-- `_add_valid`. -/
def addValid (collector : RestoreIssueCollector) (issue : SessionRestoreIssue) :
    RestoreIssueCollector :=
  if hvisible : issue.errorType = additionalIssuesOmitted then
    { collector with omitted := collector.omitted + issue.occurrences }
  else if hnew : issue.key ∈ collector.issues.map SessionRestoreIssue.key then
    { collector with
      issues := mergeIssue issue collector.issues
      kept := collector.kept.merge issue }
  else if hroom : collector.issues.length < maxRestoreIssues then
    { collector with
      issues := collector.issues ++ [issue.stored]
      kept := collector.kept.append hvisible hnew hroom }
  else { collector with omitted := collector.omitted + issue.occurrences }

/-- `add`; `none` is a value that is no `SessionRestoreIssue`. -/
def add (collector : RestoreIssueCollector) : Option SessionRestoreIssue → RestoreIssueCollector
  | some issue => collector.addValid issue
  | none => collector.addValid invalidCarrier

/-- `record`. -/
def record (collector : RestoreIssueCollector) (phase errorType ref : Option Text) :
    RestoreIssueCollector :=
  collector.add (some {
    phase := safeRestoreFact phase ⟨lit "restore", by decide⟩
    errorType := safeRestoreFact errorType ⟨lit "Exception", by decide⟩
    ref := safeRestoreFact ref ⟨lit "session_artifact", by decide⟩ })

def facts (collector : RestoreIssueCollector) : List SessionRestoreIssue :=
  if collector.omitted = 0 then collector.issues
  else
    let visible := collector.issues.take (maxRestoreIssues - 1)
    visible ++ [omittedIssue (collector.omitted +
      total SessionRestoreIssue.occurrences (collector.issues.drop visible.length))]

end RestoreIssueCollector

/-- What the constructor is given: nothing to iterate, or an iterator with its values,
which may raise after them. -/
inductive IssueSource where
  | notIterable
  | iterator (values : List (Option SessionRestoreIssue)) (raises : Bool)

/-- `_RestoreIssueCollector(issues)`. -/
def collectIssues : IssueSource → RestoreIssueCollector
  | .notIterable => RestoreIssueCollector.empty.addValid invalidCarrier
  | .iterator values raises =>
      let collector := values.foldl RestoreIssueCollector.add .empty
      if raises then collector.addValid invalidCarrier else collector

/-- A call on a collector. -/
inductive IssueReport where
  | add (value : Option SessionRestoreIssue)
  | record (phase errorType ref : Option Text)

def RestoreIssueCollector.report (collector : RestoreIssueCollector) :
    IssueReport → RestoreIssueCollector
  | .add value => collector.add value
  | .record phase errorType ref => collector.record phase errorType ref

/-- `[issue.to_dict() for issue in facts]`. -/
def persistedIssues (facts : List SessionRestoreIssue) : Json :=
  .arr (facts.map fun issue => .obj issue.toDict)

/-- `_collect_persisted_restore_issues`. -/
def collectPersistedRestoreIssues (rawIssues : Json) : RestoreIssueCollector :=
  let damaged (collector : RestoreIssueCollector) := collector.record
    (some (lit "restore_issues_validate")) (some (lit "SessionRestoreIssuesValidationError"))
    (some (lit "restore_issues"))
  match rawIssues with
  | .arr items =>
      items.foldl (fun collector item =>
        match SessionRestoreIssue.fromDict item with
        | .ok issue => collector.add (some issue)
        | .error _ => damaged collector) .empty
  | _ => damaged .empty

end ReuleauxCoder.Persistence
