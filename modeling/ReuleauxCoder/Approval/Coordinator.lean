import ReuleauxCoder.Approval.Policy
import ReuleauxCoder.Library.Transition

/-!
# The approval coordinator

`ApprovalCoordinator` under threads: every requester runs `request_approval`, the
interface resolves what the handler was given from any thread, and runtime owners
cancel.  A step is one region under the condition's lock, or one access to a
request outside it: `resolve` writes the decision and sets the event without the
lock, and a requester first wakes and then reads the decision.
-/

namespace ReuleauxCoder.Approval

open PyText

/-- Where the requester of a pending approval is. -/
inductive Phase where
  | absent
  | queued
  | presented
  | waiting
  | woken
  | decided (decision : ApprovalDecision)
  | granted (grant : ApprovalGrant) (reason : Text)
  | leaving (result : Option ApprovalDecision)
  | done (result : Option ApprovalDecision)
  deriving DecidableEq

structure PendingApproval where
  request : ApprovalRequest
  event : Bool := false
  decision : Option ApprovalDecision := none
  phase : Phase := .absent
  shown : Bool := false
  deriving DecidableEq

/-- The queue and every pending approval, with a record of who was removed from
the queue, reported as cancelled, granted a session rule, and answered. -/
structure Coordinator where
  next : ℕ := 0
  pending : ℕ → PendingApproval
  queue : List ℕ := []
  removed : List ℕ := []
  cancelled : List ℕ := []
  granted : List ℕ := []
  returned : List ℕ := []

inductive CoordinatorAction where
  | register (request : ApprovalRequest)
  | focus (index : ℕ)
  | handlerReturns (index : ℕ)
  | handlerFails (index : ℕ) (error : Text)
  | handlerInterrupted (index : ℕ)
  | writeDecision (index : ℕ) (decision : ApprovalDecision)
  | setEvent (index : ℕ)
  | wake (index : ℕ)
  | timeOut (index : ℕ)
  | readDecision (index : ℕ)
  | applyGrant (index : ℕ) (error : Option Text)
  | release (index : ℕ)
  | leave (index : ℕ)
  | cancelMatching (predicate : ApprovalRequest → Bool) (reason : Text)

namespace Coordinator

def setPhase (state : Coordinator) (index : ℕ) (phase : Phase) : Coordinator :=
  { state with
    pending := Function.update state.pending index { state.pending index with phase } }

/-- `resolve` under the lock, for every request of a list. -/
def resolveAll (state : Coordinator) (indices : List ℕ) (decision : ApprovalDecision) :
    Coordinator :=
  { state with
    pending := fun index =>
      if index ∈ indices then
        { state.pending index with decision := some decision, event := true }
      else state.pending index }

def removeAll (state : Coordinator) (indices : List ℕ) : Coordinator :=
  { state with
    queue := state.queue.filter fun index => index ∉ indices
    removed := state.removed ++ indices }

def register (state : Coordinator) (request : ApprovalRequest) : Coordinator :=
  { state with
    next := state.next + 1
    pending := Function.update state.pending state.next { request, phase := .queued }
    queue := state.queue ++ [state.next] }

/-- The loop of `request_approval` ends; a request that was settled in the queue
is answered at once. -/
def focus (state : Coordinator) (index : ℕ) : Coordinator :=
  let pending := state.pending index
  if pending.phase ≠ .queued then state
  else if pending.event then
    { state.setPhase index (.done (some (pending.decision.getD
        (.denyOnce (lit "approval cancelled"))))) with returned := state.returned ++ [index] }
  else if state.queue = [] ∨ state.queue.head? = some index then
    { state with
      pending := Function.update state.pending index
        { pending with phase := .presented, shown := true } }
  else state

/-- A step of the requester from one phase to the next. -/
def move (state : Coordinator) (index : ℕ) (next : PendingApproval → Option Phase) :
    Coordinator :=
  match next (state.pending index) with
  | some phase => state.setPhase index phase
  | none => state

def handlerReturns (pending : PendingApproval) : Option Phase :=
  if pending.phase = .presented then some .waiting else none

def handlerFails (error : Text) (pending : PendingApproval) : Option Phase :=
  if pending.phase = .presented then
    some (.leaving (some (.denyOnce (lit "approval interaction failed closed: " ++ error))))
  else none

def handlerInterrupted (pending : PendingApproval) : Option Phase :=
  if pending.phase = .presented then some (.leaving none) else none

def wake (pending : PendingApproval) : Option Phase :=
  if pending.phase = .waiting ∧ pending.event then some .woken else none

def timeOut (timeout : Text) (pending : PendingApproval) : Option Phase :=
  if pending.phase = .waiting ∧ !pending.event then
    some (.decided (.denyOnce (lit "approval timed out after " ++ timeout ++ lit "s")))
  else none

def readDecision (pending : PendingApproval) : Option Phase :=
  if pending.phase = .woken then
    some (.decided (pending.decision.getD (.denyOnce (lit "no decision"))))
  else none

/-- `_apply_session_grant` up to its lock region; `error` is what the grant
handler raised. -/
def applyGrant (hasHandler : Bool) (state : Coordinator) (index : ℕ) (error : Option Text) :
    Coordinator :=
  match (state.pending index).phase with
  | .decided (.allowSession grant reason _) =>
      match grant with
      | none => state.setPhase index (.leaving (some (.denyOnce
          (lit "session approval did not include a validated grant"))))
      | some grant =>
          if !hasHandler then state.setPhase index (.leaving (some (.denyOnce
            (lit "session approval is unavailable in this runtime"))))
          else
            match error with
            | some error => state.setPhase index (.leaving (some (.denyOnce
                (lit "session approval failed closed: " ++ error))))
            | none =>
                { state.setPhase index (.granted grant reason) with
                  granted := state.granted ++ [index] }
  | .decided decision => state.setPhase index (.leaving (some decision))
  | _ => state

/-- The queued requests that a grant of the request at `index` releases. -/
def covered (state : Coordinator) (index : ℕ) (grant : ApprovalGrant) : List ℕ :=
  state.queue.filter fun other =>
    (state.pending other).request.requestId ≠ (state.pending index).request.requestId ∧
      !(state.pending other).event ∧
      approvalGrantCoversRequest grant (state.pending other).request

def release (state : Coordinator) (index : ℕ) : Coordinator :=
  match (state.pending index).phase with
  | .granted grant reason =>
      let covered := state.covered index grant
      let source := (state.pending index).request.requestId
      ((state.removeAll covered).resolveAll covered (.allowSession (some grant)
        (lit "approved by a matching session grant from request " ++ source) [])).setPhase index
          (.leaving (some (.allowSession (some grant) reason
            (covered.map fun other => (state.pending other).request.requestId))))
  | _ => state

/-- The `finally` block. -/
def leave (state : Coordinator) (index : ℕ) : Coordinator :=
  match (state.pending index).phase with
  | .leaving result =>
      let left := if index ∈ state.queue then state.removeAll [index] else state
      { left.setPhase index (.done result) with returned := state.returned ++ [index] }
  | _ => state

def cancelMatching (state : Coordinator) (predicate : ApprovalRequest → Bool) (reason : Text) :
    Coordinator :=
  let matching := state.queue.filter fun index => predicate (state.pending index).request
  { (state.removeAll matching).resolveAll matching (.denyOnce reason) with
    cancelled := state.cancelled ++ matching }

/-- The handler holds a request once it was presented. -/
def writeDecision (state : Coordinator) (index : ℕ) (decision : ApprovalDecision) : Coordinator :=
  if (state.pending index).shown then
    { state with
      pending := Function.update state.pending index
        { state.pending index with decision := some decision } }
  else state

def setEvent (state : Coordinator) (index : ℕ) : Coordinator :=
  if (state.pending index).shown then
    { state with
      pending := Function.update state.pending index { state.pending index with event := true } }
  else state

/-- One step; `timeout` is the text of the coordinator's timeout. -/
def step (hasHandler : Bool) (timeout : Text) (state : Coordinator) :
    CoordinatorAction → Coordinator
  | .register request => state.register request
  | .focus index => state.focus index
  | .handlerReturns index => state.move index handlerReturns
  | .handlerFails index error => state.move index (handlerFails error)
  | .handlerInterrupted index => state.move index handlerInterrupted
  | .writeDecision index decision => state.writeDecision index decision
  | .setEvent index => state.setEvent index
  | .wake index => state.move index wake
  | .timeOut index => state.move index (timeOut timeout)
  | .readDecision index => state.move index readDecision
  | .applyGrant index error => applyGrant hasHandler state index error
  | .release index => state.release index
  | .leave index => state.leave index
  | .cancelMatching predicate reason => state.cancelMatching predicate reason

/-- A coordinator nobody has asked yet. -/
def new : Coordinator where
  pending _ := { request := { requestId := [], toolName := [] } }

end Coordinator

end ReuleauxCoder.Approval
