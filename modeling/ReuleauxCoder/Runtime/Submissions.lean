import ReuleauxCoder.Library.JsonText
import ReuleauxCoder.Persistence.Validation
import ReuleauxCoder.Runtime.Server

/-!
# Deliveries of a submission

A client that did not see the answer to `runtime.submit` delivers the submission again under
the same id.  The connection keeps an `Admission` for every id of the current generation, and
a delivery holds the lock of its admission while it submits the input or replays the answer.
The deliveries take their steps in any order, with steps of the server in between.
-/

namespace ReuleauxCoder.Runtime.Submissions

open PyText PyJson
open Persistence (isFiniteTree)

variable {C F : Type} [DecidableEq F]

/-! ## Admissions -/

/-- `Submission`, without the snapshot of the state. -/
structure Submission where
  status : SubmissionStatus
  submissionId : Text
  deriving DecidableEq

/-- `Admission`.  `owner` is the delivery that holds the lock, `submissionId` the key under
which `_entries` listed the admission, and `listed` says that it still does. -/
structure Admission (F : Type) where
  submissionId : Text
  fingerprint : F
  generation : ℤ
  listed : Bool := true
  owner : Option ℕ := none
  status : Option SubmissionStatus := none
  receipt : Option Submission := none
  error : Option Failure := none

/-- A submission id within one generation of the session. -/
structure Key where
  submissionId : Text
  generation : ℤ
  deriving DecidableEq

def Admission.key (admission : Admission F) : Key :=
  ⟨admission.submissionId, admission.generation⟩

/-- `json.dumps(value, sort_keys=True, ensure_ascii=False, allow_nan=False)`. -/
def canonicalText (value : Json) : Text :=
  dumps spaced value.sortKeys

/-- The fingerprint of a value, where its text can be written and encoded. -/
def fingerprint (digest : Text → F) (value : Json) : Option F :=
  if isFiniteTree value && utf8Encodable (canonicalText value) then
    some (digest (canonicalText value))
  else none

/-! ## Deliveries -/

/-- Where a delivery failed after the input was decided upon. -/
inductive Point where
  | publication
  | persistence
  | capture
  | encoding
  deriving DecidableEq

inductive Outcome where
  | answered (submission : Submission)
  | sessionChanged
  /-- `get` refused the id, or its text cannot be written. -/
  | refused (failure : Failure)
  /-- An earlier delivery has left its error with the admission. -/
  | recorded (failure : Failure)
  /-- The input was not let in. -/
  | raised (failure : Failure)
  | failed (point : Point)
  deriving DecidableEq

inductive Stage where
  | arrived
  | accepted
  | waiting (entry : ℕ)
  | submitting (entry : ℕ)
  | publishing (entry : ℕ) (status : SubmissionStatus)
  | flushing (entry : ℕ) (status : SubmissionStatus)
  | recovering (entry : ℕ) (status : SubmissionStatus)
  | capturing (entry : ℕ) (status : SubmissionStatus)
  | replying (entry : ℕ) (submission : Submission)
  | finished (outcome : Outcome)
  deriving DecidableEq

structure Delivery where
  submissionId : Json
  value : Json
  generation : ℤ
  stage : Stage := .arrived

/-- A decision of `_submit` on a submission that has an id. -/
structure Decision (F : Type) where
  key : Key
  fingerprint : F
  disposition : Disposition
  deriving DecidableEq

/-- `decisions` is the history of what was decided on submissions with an id. -/
structure System (C F : Type) where
  server : Server C
  tableGeneration : ℤ := -1
  entries : List (Admission F) := []
  deliveries : List Delivery := []
  decisions : List (Decision F) := []

/-- What a connection is set up with. -/
structure Connection (C F : Type) where
  host : Host C
  digest : Text → F
  capacity : ℕ := 4096

def retryable : Failure → Bool
  | .rpc code _ => code = -32602 || code = -32002
  | .other => false

namespace System

def setStage (system : System C F) (index : ℕ) (stage : Stage) : System C F :=
  { system with
    deliveries := system.deliveries.modify index fun delivery => { delivery with stage } }

def modifyEntry (system : System C F) (entry : ℕ) (change : Admission F → Admission F) :
    System C F :=
  { system with entries := system.entries.modify entry change }

/-- Release the admission's lock and end the delivery. -/
def finish (system : System C F) (index entry : ℕ) (outcome : Outcome) : System C F :=
  (system.modifyEntry entry fun admission => { admission with owner := none }).setStage index
    (.finished outcome)

/-! ## The steps of a delivery -/

/-- The first check of `submit`. -/
def arrive (system : System C F) (index : ℕ) (delivery : Delivery) : System C F :=
  if delivery.generation = system.server.agent.sessionGeneration then
    system.setStage index .accepted
  else system.setStage index (.finished .sessionChanged)

/-- `self._entries.get(submission_id)`. -/
def find (system : System C F) (submissionId : Text) : Option ℕ :=
  system.entries.findIdx? fun admission =>
    admission.listed && admission.submissionId = submissionId

/-- The new id part of `get`: admissions of other generations go, and none of this one. -/
def register (connection : Connection C F) (system : System C F) (index : ℕ) (key : Key)
    (fingerprint : F) : System C F :=
  let kept := system.entries.map fun admission =>
    { admission with listed := admission.listed && admission.generation = key.generation }
  if connection.capacity ≤ (kept.filter Admission.listed).length then
    { system with entries := kept }.setStage index (.finished (.refused
      (refusal "Submission receipt limit reached; start a new session")))
  else
    let admission : Admission F := {
      submissionId := key.submissionId
      fingerprint := fingerprint
      generation := key.generation }
    { system with entries := kept ++ [admission] }.setStage index (.waiting kept.length)

/-- The locked region of `SubmissionAdmissions.get`. -/
def lookUp (connection : Connection C F) (system : System C F) (index : ℕ) (key : Key)
    (fingerprint : F) : System C F :=
  if key.generation < system.tableGeneration then
    system.setStage index (.finished .sessionChanged)
  else
    let system := { system with tableGeneration := key.generation }
    match system.find key.submissionId with
    | none => system.register connection index key fingerprint
    | some entry =>
        match system.entries[entry]? with
        | none => system
        | some admission =>
            if admission.fingerprint = fingerprint ∧ admission.generation = key.generation then
              system.setStage index (.waiting entry)
            else
              system.setStage index (.finished (.refused
                (invalidParams "Submission ID reused for different input or session")))

/-- `get`, with the checks of the id and of the value. -/
def accept (connection : Connection C F) (system : System C F) (index : ℕ)
    (delivery : Delivery) : System C F :=
  match delivery.submissionId with
  | .str submissionId =>
      if 1 ≤ submissionId.length ∧ submissionId.length ≤ 128 then
        match fingerprint connection.digest delivery.value with
        | none => system.setStage index (.finished (.refused .other))
        | some fingerprint =>
            system.lookUp connection index ⟨submissionId, delivery.generation⟩ fingerprint
      else system.setStage index (.finished (.refused (invalidParams "Invalid submission ID")))
  | _ => system.setStage index (.finished (.refused (invalidParams "Invalid submission ID")))

/-- Take the lock of the admission and read it.  A delivery waits while another holds it. -/
def acquire (system : System C F) (index entry : ℕ) (delivery : Delivery)
    (admission : Admission F) : System C F :=
  if admission.owner ≠ none then system
  else if delivery.generation ≠ system.server.agent.sessionGeneration then
    system.finish index entry .sessionChanged
  else
    let held := { admission with owner := some index }
    match admission.receipt, admission.status with
    | some receipt, status =>
        if status ≠ some .rejected then
          (system.modifyEntry entry fun _ => held).setStage index (.replying entry receipt)
        else
          match admission.error with
          | some failure =>
              (system.modifyEntry entry fun _ =>
                { admission with receipt := none, status := none }).setStage index
                  (.finished (.recorded failure))
          | none =>
              (system.modifyEntry entry fun _ =>
                { held with receipt := none, status := none }).setStage index (.submitting entry)
    | none, status =>
        match admission.error, status with
        | some failure, _ => system.finish index entry (.recorded failure)
        | none, none => (system.modifyEntry entry fun _ => held).setStage index (.submitting entry)
        | none, some status =>
            (system.modifyEntry entry fun _ => held).setStage index (.recovering entry status)

/-- `_submit` up to the publication, on behalf of an admission. -/
def submit (connection : Connection C F) (system : System C F) (index entry : ℕ)
    (delivery : Delivery) (admission : Admission F) (choices : Choices) : System C F :=
  match system.server.submit connection.host delivery.value (some admission.submissionId)
      (some admission.generation) choices with
  | .error failure =>
      (system.modifyEntry entry fun admission =>
        { admission with
          error :=
            if admission.status = none ∧ retryable failure = false then some failure
            else admission.error }).finish index entry (.raised failure)
  | .ok (disposition, server) =>
      let decision : Decision F := {
        key := admission.key
        fingerprint := admission.fingerprint
        disposition := disposition }
      let decided := { system with server, decisions := system.decisions ++ [decision] }
      (decided.modifyEntry entry fun admission =>
        { admission with status := some disposition.status }).setStage index
          (.publishing entry disposition.status)

/-- Set the receipt and go on to the reply. -/
def record (system : System C F) (index entry : ℕ) (admission : Admission F)
    (status : SubmissionStatus) : System C F :=
  (system.modifyEntry entry fun other =>
    { other with receipt := some ⟨status, admission.submissionId⟩ }).setStage index
      (.replying entry ⟨status, admission.submissionId⟩)

/-- What the environment decides in one step of a delivery. -/
structure Turn where
  choices : Choices := {}
  fails : Bool := false

/-- One step of a delivery that has been looked up. -/
def proceed (connection : Connection C F) (system : System C F) (index : ℕ)
    (delivery : Delivery) (turn : Turn) (entry : ℕ) (admission : Admission F) : System C F :=
  match delivery.stage with
  | .waiting _ => system.acquire index entry delivery admission
  | .submitting _ => system.submit connection index entry delivery admission turn.choices
  | .publishing _ status =>
      if turn.fails then system.finish index entry (.failed .publication)
      else system.setStage index (.flushing entry status)
  | .flushing _ status =>
      if status = .steering ∧ turn.fails then system.finish index entry (.failed .persistence)
      else system.record index entry admission status
  | .recovering _ status =>
      if status = .steering ∧ turn.fails then system.finish index entry (.failed .persistence)
      else system.setStage index (.capturing entry status)
  | .capturing _ status =>
      if turn.fails then system.finish index entry (.failed .capture)
      else system.record index entry admission status
  | .replying _ submission =>
      if turn.fails then system.finish index entry (.failed .encoding)
      else system.finish index entry (.answered submission)
  | _ => system

end System

/-- The admission that a delivery works with. -/
def Stage.entry : Stage → Option ℕ
  | .waiting entry | .submitting entry | .publishing entry _ | .flushing entry _
  | .recovering entry _ | .capturing entry _ | .replying entry _ => some entry
  | .arrived | .accepted | .finished _ => none

inductive Action where
  | server (action : Runtime.Action)
  | deliver (submissionId value : Json) (generation : ℤ)
  | advance (delivery : ℕ) (turn : System.Turn)

namespace System

def advance (connection : Connection C F) (system : System C F) (index : ℕ) (turn : Turn) :
    System C F :=
  match system.deliveries[index]? with
  | none => system
  | some delivery =>
      match delivery.stage with
      | .arrived => system.arrive index delivery
      | .accepted => system.accept connection index delivery
      | stage =>
          match stage.entry with
          | none => system
          | some entry =>
              match system.entries[entry]? with
              | none => system
              | some admission => system.proceed connection index delivery turn entry admission

def step (connection : Connection C F) (system : System C F) : Action → System C F
  | .server action => { system with server := system.server.step connection.host action }
  | .deliver submissionId value generation =>
      { system with deliveries := system.deliveries ++ [{ submissionId, value, generation }] }
  | .advance index turn => system.advance connection index turn

def run (connection : Connection C F) (system : System C F) (actions : List Action) :
    System C F :=
  actions.foldl (step connection) system

end System

end ReuleauxCoder.Runtime.Submissions
