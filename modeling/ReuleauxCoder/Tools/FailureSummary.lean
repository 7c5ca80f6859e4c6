import ReuleauxCoder.Library.SmallestKeys
import ReuleauxCoder.Tools.Failures

/-!
# What the failure collector shows

`_PostEffectFailureCollector` counts facts about failures behind a lock, so its calls come
one after the other in some order.  It is a tally of the smallest facts, and what it shows
is a function of the calls alone.
-/

namespace ReuleauxCoder.Tools

open PyText SmallestKeys

/-! ## Calls -/

/-- `_safe_failure_phase` on any object; `none` is not a text. -/
def failurePhase : Option Text → Text
  | some phase => safeFailurePhase phase
  | none => lit "post_effect"

/-- `_safe_failure_error_type` on any object. -/
def failureErrorType : Option Text → Text
  | some errorType => safeFailureErrorType errorType
  | none => lit "Exception"

/-- The count that is recorded; `none` is not an integer, or a Boolean. -/
def failureCount : Option ℤ → ℕ
  | some count => if 0 < count then count.toNat else 1
  | none => 1

/-- The number of facts that a collector keeps. -/
def failureRoom (limit : ℤ) : ℕ :=
  (max 2 limit - 1).toNat

namespace Failures

/-- `record` on a collector with a limit. -/
def recordWithin (limit : ℤ) (failures : Failures) (phase errorType : Option Text)
    (count : Option ℤ) : Failures :=
  let fact : FailureKey := toLex (failurePhase phase, failureErrorType errorType)
  let safeCount := min (failureCount count) postEffectFailureCountLimit
  if failures.counts.any fun entry => entry.1 = fact then
    { failures with
      counts := failures.counts.map fun entry =>
        if entry.1 = fact then (fact, min (entry.2 + safeCount) postEffectFailureCountLimit)
        else entry }
  else if failures.counts.length < failureRoom limit then
    { failures with counts := failures.counts ++ [(fact, safeCount)] }
  else
    match largest failures.counts with
    | none => failures.addOverflow safeCount
    | some last =>
        if fact < last.1 then
          let kept := failures.counts.filter fun entry => entry.1 ≠ last.1
          addOverflow { failures with counts := kept ++ [(fact, safeCount)] } last.2
        else failures.addOverflow safeCount

/-- `omit` on any object. -/
def omitObject (failures : Failures) : Option ℤ → Failures
  | some count => failures.omitted count.toNat
  | none => failures

/-- `drain`: the facts, and the emptied collector. -/
def drain (failures : Failures) : List (Text × Text × ℕ) × Failures :=
  (failures.snapshot, {})

/-- With the default limit, this is `record`. -/
theorem recordCount_eq (failures : Failures) (phase errorType : Text) {count : ℕ}
    (hcount : 0 < count) : failures.recordCount phase errorType count =
      failures.recordWithin postEffectFailureLimit (some phase) (some errorType)
        (some count) := by
  have hamount : failureCount (some (count : ℤ)) = count := by
    rw [failureCount, if_pos (by exact_mod_cast hcount), Int.toNat_natCast]
  rw [recordCount, recordWithin, hamount]
  rfl

end Failures

inductive FailureCall where
  | record (phase errorType : Option Text) (count : Option ℤ)
  | omission (count : Option ℤ)

def Failures.call (limit : ℤ) (failures : Failures) : FailureCall → Failures
  | .record phase errorType count => failures.recordWithin limit phase errorType count
  | .omission count => failures.omitObject count

/-- A collector after calls. -/
def collectFailures (limit : ℤ) (calls : List FailureCall) : Failures :=
  calls.foldl (Failures.call limit) {}

/-! ## The tally -/

/-- What a call counts, if anything. -/
def FailureCall.operation? : FailureCall → Option (Operation FailureKey)
  | .record phase errorType count =>
      some (some (toLex (failurePhase phase, failureErrorType errorType)), failureCount count)
  | .omission (some count) => if 1 ≤ count then some (none, count.toNat) else none
  | .omission none => none

def Failures.tally (failures : Failures) : Tally FailureKey :=
  ⟨failures.counts, failures.overflowCount⟩

theorem Failures.largest_eq (counts : List (FailureKey × ℕ)) :
    Failures.largest counts = SmallestKeys.largest counts := by
  rw [Failures.largest, SmallestKeys.largest]
  congr 1
  funext best entry
  cases best <;> rfl

theorem Failures.tally_recordWithin (limit : ℤ) (failures : Failures)
    (phase errorType : Option Text) (count : Option ℤ) :
    (failures.recordWithin limit phase errorType count).tally =
      failures.tally.add (failureRoom limit) postEffectFailureCountLimit
        (toLex (failurePhase phase, failureErrorType errorType))
        (min (failureCount count) postEffectFailureCountLimit) := by
  unfold recordWithin
  dsimp only
  have hkeys : toLex (failurePhase phase, failureErrorType errorType) ∈ failures.tally.keys ↔
      ∃ entry ∈ failures.counts,
        entry.1 = toLex (failurePhase phase, failureErrorType errorType) := List.mem_map
  by_cases hknown : ∃ entry ∈ failures.counts,
      entry.1 = toLex (failurePhase phase, failureErrorType errorType)
  · rw [if_pos (by simpa using hknown), Tally.add,
      if_pos (Tally.any_eq_true.mpr (hkeys.mpr hknown))]
    dsimp only [tally]
    congr!
  rw [if_neg (by simpa using hknown), Tally.add,
    if_neg (mt Tally.any_eq_true.mp (mt hkeys.mp hknown))]
  by_cases hroom : failures.counts.length < failureRoom limit
  · have hroom' : failures.tally.counts.length < failureRoom limit := hroom
    rw [if_pos hroom, if_pos hroom']
    rfl
  have hfull : ¬ failures.tally.counts.length < failureRoom limit := hroom
  have hlargest : SmallestKeys.largest failures.tally.counts = largest failures.counts :=
    (largest_eq failures.counts).symm
  rw [if_neg hroom, if_neg hfull, hlargest]
  cases largest failures.counts with
  | none => rfl
  | some last =>
      dsimp only
      split
      · dsimp only [addOverflow, tally, Tally.addOverflow]
        congr!
      · rfl

theorem Failures.tally_call (limit : ℤ) (failures : Failures) (call : FailureCall) :
    (failures.call limit call).tally =
      call.operation?.toList.foldl (Tally.apply (failureRoom limit) postEffectFailureCountLimit)
        failures.tally := by
  cases call with
  | record phase errorType count => exact failures.tally_recordWithin limit phase errorType count
  | omission count =>
      cases count with
      | none => rfl
      | some count =>
          by_cases hcount : 1 ≤ count
          · have hpos : count.toNat ≠ 0 := by omega
            rw [FailureCall.operation?, if_pos hcount]
            change (failures.omitted count.toNat).tally = _
            rw [omitted, if_neg hpos]
            rfl
          · have hzero : count.toNat = 0 := by omega
            rw [FailureCall.operation?, if_neg hcount]
            change (failures.omitted count.toNat).tally = _
            rw [omitted, if_pos hzero]
            rfl

theorem tally_collectFailures (limit : ℤ) (calls : List FailureCall) :
    (collectFailures limit calls).tally =
      Tally.run (failureRoom limit) postEffectFailureCountLimit
        (calls.filterMap FailureCall.operation?) := by
  have hrun : ∀ failures : Failures, (calls.foldl (Failures.call limit) failures).tally =
      (calls.filterMap FailureCall.operation?).foldl
        (Tally.apply (failureRoom limit) postEffectFailureCountLimit) failures.tally := by
    intro failures
    induction calls generalizing failures with
    | nil => rfl
    | cons call rest ih =>
        rw [List.foldl_cons, ih, Failures.tally_call, List.filterMap_cons]
        cases call.operation? <;> rfl
  exact hrun {}

/-! ## The summary -/

/-- The facts of calls, whatever their order: the smallest ones, each with its number of
occurrences, and the number of all others. -/
def failureSummary (limit : ℤ) (calls : Multiset FailureCall) : List (Text × Text × ℕ) :=
  let operations := calls.filterMap FailureCall.operation?
  let kept := smallest (failureRoom limit) operations
  let overflow := min (besides (failureRoom limit) operations) postEffectFailureCountLimit
  kept.map (fun key =>
    ((ofLex key).1, (ofLex key).2, min (amount operations key) postEffectFailureCountLimit)) ++
    if overflow = 0 then []
    else [(lit "post_effect", lit "AdditionalFailuresOmitted", overflow)]

theorem Failures.snapshot_eq (failures : Failures) : failures.snapshot =
    failures.tally.sorted.map (fun entry =>
      ((ofLex entry.1).1, (ofLex entry.1).2, entry.2)) ++
        if failures.tally.overflow = 0 then []
        else [(lit "post_effect", lit "AdditionalFailuresOmitted", failures.tally.overflow)] := by
  rw [Failures.snapshot]
  change (if failures.tally.overflow = 0 then _ else _) = _
  split
  · rw [List.append_nil]
    rfl
  · rfl

theorem snapshot_collectFailures (limit : ℤ) (calls : List FailureCall) :
    (collectFailures limit calls).snapshot =
      failureSummary limit (calls : Multiset FailureCall) := by
  have hholds := Tally.holds_run (failureRoom limit) postEffectFailureCountLimit
    (calls.filterMap FailureCall.operation?)
  rw [← tally_collectFailures, ← Multiset.filterMap_coe] at hholds
  rw [Failures.snapshot_eq, hholds.sorted_eq, hholds.overflow_eq, List.map_map]
  rfl

end ReuleauxCoder.Tools
