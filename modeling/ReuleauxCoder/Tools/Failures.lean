import ReuleauxCoder.Library.Text

/-!
# Facts about failed stages

Exceptions as the tool executor tells them apart, and the collector that keeps a
bounded number of facts about secondary failures: the smallest keys survive and
everything else is counted as omitted.
-/

namespace ReuleauxCoder.Tools

open PyText

/-- The distinctions that the executor's `isinstance` checks make. -/
inductive ErrorKind where
  | exception
  | endOfInput
  | resultProtocol
  | resultProjection
  | keyboardInterrupt
  | otherBase
  deriving DecidableEq

structure PyError where
  kind : ErrorKind
  typeName : Text
  deriving DecidableEq

/-- `isinstance(error, Exception)`. -/
def PyError.isException (error : PyError) : Bool :=
  match error.kind with
  | .keyboardInterrupt | .otherBase => false
  | _ => true

/-- A `RuntimeError` subclass of the executor. -/
def runtimeError (typeName : String) : PyError :=
  ⟨.exception, lit typeName⟩

def isAsciiAlphanumeric (c : CodePoint) : Bool :=
  (48 ≤ c.val && c.val ≤ 57) || (65 ≤ c.val && c.val ≤ 90) || (97 ≤ c.val && c.val ≤ 122)

def isAscii (text : Text) : Bool :=
  text.all fun c => c.val < 128

def safeFailurePhase (phase : Text) : Text :=
  if 0 < phase.length ∧ phase.length ≤ 64 ∧ isAscii phase ∧
      phase.all fun c => isAsciiAlphanumeric c || c ∈ lit "._-:" then phase
  else lit "post_effect"

def safeFailureErrorType (errorType : Text) : Text :=
  let letters := errorType.filter (· ≠ ofChar '_')
  if 0 < errorType.length ∧ errorType.length ≤ 64 ∧ isAscii errorType ∧ letters ≠ [] ∧
      letters.all isAsciiAlphanumeric then errorType
  else lit "Exception"

def safeExceptionType (error : PyError) : Text :=
  safeFailureErrorType error.typeName

/-! ## The collector -/

def postEffectFailureLimit : ℕ := 8

def postEffectFailureCountLimit : ℕ := 1000000

/-- The key of a fact: phase and error type, ordered as a Python tuple. -/
abbrev FailureKey := Text ×ₗ Text

structure Failures where
  counts : List (FailureKey × ℕ) := []
  overflowCount : ℕ := 0
  deriving DecidableEq

namespace Failures

def isEmpty (failures : Failures) : Bool :=
  failures.counts = [] && failures.overflowCount = 0

def largest (counts : List (FailureKey × ℕ)) : Option (FailureKey × ℕ) :=
  counts.foldl (fun best entry =>
    match best with
    | none => some entry
    | some best => if best.1 < entry.1 then some entry else some best) none

def addOverflow (failures : Failures) (count : ℕ) : Failures :=
  { failures with
    overflowCount := min (failures.overflowCount + count) postEffectFailureCountLimit }

/-- `record` on the collector with the default limit. -/
def recordCount (failures : Failures) (phase errorType : Text) (count : ℕ) : Failures :=
  let fact : FailureKey := toLex (safeFailurePhase phase, safeFailureErrorType errorType)
  let safeCount := min count postEffectFailureCountLimit
  if failures.counts.any fun entry => entry.1 = fact then
    { failures with
      counts := failures.counts.map fun entry =>
        if entry.1 = fact then (fact, min (entry.2 + safeCount) postEffectFailureCountLimit)
        else entry }
  else if failures.counts.length < postEffectFailureLimit - 1 then
    { failures with counts := failures.counts ++ [(fact, safeCount)] }
  else
    match largest failures.counts with
    | none => failures.addOverflow safeCount
    | some last =>
        if fact < last.1 then
          let kept := failures.counts.filter fun entry => entry.1 ≠ last.1
          addOverflow { failures with counts := kept ++ [(fact, safeCount)] } last.2
        else failures.addOverflow safeCount

def record (failures : Failures) (phase errorType : Text) : Failures :=
  failures.recordCount phase errorType 1

/-- `omit`. -/
def omitted (failures : Failures) (count : ℕ) : Failures :=
  if count = 0 then failures else failures.addOverflow (min count postEffectFailureCountLimit)

/-- `snapshot`: the facts in order, then the number of those left out. -/
def snapshot (failures : Failures) : List (Text × Text × ℕ) :=
  let facts := (failures.counts.insertionSort fun left right => left.1 ≤ right.1).map
    fun entry => ((ofLex entry.1).1, (ofLex entry.1).2, entry.2)
  if failures.overflowCount = 0 then facts
  else facts ++ [(lit "post_effect", lit "AdditionalFailuresOmitted", failures.overflowCount)]

end Failures

end ReuleauxCoder.Tools
