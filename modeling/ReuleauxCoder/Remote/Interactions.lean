import ReuleauxCoder.Library.Json
import ReuleauxCoder.Library.Transition

/-!
# Interactions of a remote chat

A remote chat session keeps one record for each interaction that waits for an answer of
the peer.  The peer's requests, a cancellation and the end of the chat all write the
record, and the worker that waits reads it when it wakes up.  Each step is one region
under the session's condition.
-/

namespace ReuleauxCoder.Remote

open PyText PyJson

/-! ## Records -/

/-- A dictionary in `interaction_waiters`. -/
structure Waiter where
  done : Bool := false
  value : Json := .null
  cancelled : Option Bool := none
  reason : Json := .null

/-- What `wait_interaction` returns. -/
structure Answer where
  value : Json
  cancelled : Bool
  reason : Option Text
  deriving DecidableEq

def Waiter.answer (waiter : Waiter) : Answer where
  value := waiter.value
  cancelled := waiter.cancelled.getD (!waiter.done)
  reason :=
    match waiter.reason with
    | .str text => some text
    | _ => none

/-- `review` approves on these two actions, and every kind of request on `True`. -/
def Answer.approves (answer : Answer) : Bool :=
  !answer.cancelled &&
    match answer.value with
    | .bool confirmed => confirmed
    | .obj fields =>
        field fields "action" = .str (lit "allow_once") ||
          field fields "action" = .str (lit "allow_session")
    | _ => false

/-- A record that was cancelled. -/
def cancelledFor (reason : Text) : Waiter :=
  { done := true, value := .null, cancelled := some true, reason := .str reason }

/-! ## The session -/

/-- `waiters` maps request ids to records, `waiting` lists the calls of `wait_interaction`
that sleep, and `answers` what such calls returned; no step reads `answers`. -/
structure ChatSession where
  done : Bool := false
  cancelRequested : Bool := false
  waiters : List (Text × ℕ) := []
  nextRecord : ℕ := 0
  record : ℕ → Waiter := fun _ => {}
  waiting : List (Text × ℕ) := []
  answers : List (ℕ × Answer) := []

namespace ChatSession

/-- The session takes no more interactions. -/
def closed (session : ChatSession) : Bool :=
  session.cancelRequested || session.done

/-- A new dictionary under a request id. -/
def addRecord (session : ChatSession) (requestId : Text) (waiter : Waiter) : ChatSession :=
  { session with
    waiters := store requestId session.nextRecord session.waiters
    nextRecord := session.nextRecord + 1
    record := Function.update session.record session.nextRecord waiter }

def registerInteraction (session : ChatSession) (requestId : Text) : ChatSession :=
  session.addRecord requestId
    (if session.cancelRequested || session.done then cancelledFor (lit "chat cancelled") else {})

def resolveInteraction (session : ChatSession) (requestId : Text) (value : Json)
    (cancelled : Bool) (reason : Json) : ChatSession × Bool :=
  match lookup requestId session.waiters with
  | none => (session, false)
  | some index =>
      ({ session with
          record := Function.update session.record index
            { done := true, value, cancelled := some cancelled, reason } }, true)

def resolveApproval (session : ChatSession) (approvalId : Text) (decision : Json)
    (reason : Json) : ChatSession × Bool :=
  session.resolveInteraction approvalId (.bool (decision = .str (lit "allow_once"))) false reason

/-- The loop over `interaction_waiters` that settles what is not settled. -/
def settlePending (session : ChatSession) (reason : Text) : ChatSession :=
  { session with
    record := fun index =>
      if index ∈ session.waiters.map Prod.snd ∧ (session.record index).done = false then
        cancelledFor reason
      else session.record index }

def cancelPendingApprovals (session : ChatSession) (reason : Text) : ChatSession :=
  session.settlePending reason

def markDone (session : ChatSession) : ChatSession :=
  { session with done := true }.settlePending (lit "chat_closed")

/-- `request_cancel`, up to the call of the cancel callback. -/
def requestCancel (session : ChatSession) (reason : Text) : ChatSession × Bool :=
  if session.done then (session, false)
  else ({ session with cancelRequested := true }.settlePending reason, true)

/-- The end of `wait_interaction`. -/
def finishWait (session : ChatSession) (requestId : Text) (index : ℕ) : ChatSession :=
  { session with
    waiters := drop requestId session.waiters
    waiting := session.waiting.erase (requestId, index)
    answers := session.answers ++ [(index, (session.record index).answer)] }

/-- `wait_interaction` until it sleeps or returns. -/
def startWait (session : ChatSession) (requestId : Text) : ChatSession :=
  let (session, index) :=
    match lookup requestId session.waiters with
    | some index => (session, index)
    | none => (session.addRecord requestId {}, session.nextRecord)
  if (session.record index).done then session.finishWait requestId index
  else { session with waiting := (requestId, index) :: session.waiting }

/-- A sleeping `wait_interaction` wakes up, because of a notice or at its deadline. -/
def wake (session : ChatSession) (requestId : Text) (index : ℕ) (expired : Bool) : ChatSession :=
  if (requestId, index) ∈ session.waiting ∧ ((session.record index).done || expired) = true then
    session.finishWait requestId index
  else session

inductive Action where
  | registerInteraction (requestId : Text)
  | resolveInteraction (requestId : Text) (value : Json) (cancelled : Bool) (reason : Json)
  | resolveApproval (approvalId : Text) (decision : Json) (reason : Json)
  | cancelPendingApprovals (reason : Text)
  | requestCancel (reason : Text)
  | markDone
  | startWait (requestId : Text)
  | wake (requestId : Text) (index : ℕ) (expired : Bool)

def step (session : ChatSession) : Action → ChatSession
  | .registerInteraction requestId => session.registerInteraction requestId
  | .resolveInteraction requestId value cancelled reason =>
      (session.resolveInteraction requestId value cancelled reason).1
  | .resolveApproval approvalId decision reason =>
      (session.resolveApproval approvalId decision reason).1
  | .cancelPendingApprovals reason => session.cancelPendingApprovals reason
  | .requestCancel reason => (session.requestCancel reason).1
  | .markDone => session.markDone
  | .startWait requestId => session.startWait requestId
  | .wake requestId index expired => session.wake requestId index expired

def run (actions : List Action) : ChatSession :=
  actions.foldl step {}

end ChatSession

end ReuleauxCoder.Remote
