import ReuleauxCoder.Peer.Starts
import ReuleauxCoder.Process.Manager

/-!
# Processes on the remote peer

The host's port starts a process with a request that it sends again at every poll until the
peer has confirmed it.  Requests reach the peer in the order they were sent, and a request
or a reply may be lost, or come after the thread that waits for it has given up.
-/

namespace ReuleauxCoder.Remote

open PyText PyJson Peer
open Process (ProcessState)

/-- `_RemoteProcessEntry`; `published` is whether `_entries` has it. -/
structure PortEntry where
  startArgs : StartArgs := ⟨[], [], [], none⟩
  processId : Text := []
  startConfirmed : Bool := false
  state : ProcessState := .running
  published : Bool := false

inductive Operation where
  | start (args : StartArgs)
  | poll (processId : Text)
  | terminate (processId : Text)
  | cancel (processId : Text)
  | release (processId : Text)

/-- The place in the port that waits for a reply. -/
inductive Caller where
  | start
  /-- `_poll_once`, before the start is confirmed. -/
  | confirm
  | poll
  | terminate
  | release

structure Request where
  entry : ℕ := 0
  caller : Caller := .poll
  operation : Operation := .poll []

inductive Reply where
  | start (result : StartResult)
  | snapshot (done : Bool)
  | failed

/-- The host's port, the peer's manager and the requests between them: `queue` is on the way
to the peer, `received` are the control requests that the peer is working on, `found` the
processes that they looked up, and `origin` the requests of the peer's calls of `start`. -/
structure ProcessLink where
  manager : Peer.Manager := {}
  entries : ℕ := 0
  entry : ℕ → PortEntry := fun _ => {}
  sent : ℕ := 0
  request : ℕ → Request := fun _ => {}
  pending : ℕ → Bool := fun _ => false
  queue : List ℕ := []
  received : List ℕ := []
  found : ℕ → Option ℕ := fun _ => none
  origin : ℕ → ℕ := fun _ => 0
  reply : ℕ → Option Reply := fun _ => none

namespace ProcessLink

def setEntry (link : ProcessLink) (index : ℕ) (entry : PortEntry) : ProcessLink :=
  { link with entry := Function.update link.entry index entry }

/-! ## The host -/

/-- `_request` up to the reply. -/
def send (link : ProcessLink) (request : Request) : ProcessLink :=
  { link with
    sent := link.sent + 1
    request := Function.update link.request link.sent request
    pending := Function.update link.pending link.sent true
    queue := link.queue ++ [link.sent] }

/-- `start`, for the process id that it makes up. -/
def start (link : ProcessLink) (processId command : Text) (idempotencyKey : Option Text) :
    ProcessLink :=
  let args : StartArgs :=
    { processId
      idempotencyKey :=
        match idempotencyKey with
        | some (first :: rest) => first :: rest
        | some [] | none => processId
      command
      tty := some false }
  send { link with
      entries := link.entries + 1
      entry := Function.update link.entry link.entries { startArgs := args, processId } }
    { entry := link.entries, caller := .start, operation := .start args }

def sendPoll (link : ProcessLink) (index : ℕ) : ProcessLink :=
  link.send
    { entry := index, caller := .poll, operation := .poll (link.entry index).processId }

/-- `_poll_once` up to its first request. -/
def poll (link : ProcessLink) (index : ℕ) : ProcessLink :=
  let entry := link.entry index
  if entry.published then
    if entry.startConfirmed then link.sendPoll index
    else link.send { entry := index, caller := .confirm, operation := .start entry.startArgs }
  else link

/-- `_terminate_entry`; an older peer only supports `process.cancel`. -/
def terminate (link : ProcessLink) (index : ℕ) (supported : Bool) : ProcessLink :=
  let entry := link.entry index
  if entry.published && entry.state ≠ .exited then
    link.send
      { entry := index
        caller := .terminate
        operation :=
          if supported then .terminate entry.processId else .cancel entry.processId }
  else link

/-- `release`. -/
def release (link : ProcessLink) (index : ℕ) (supported : Bool) : ProcessLink :=
  let entry := link.entry index
  if entry.published && entry.state = .exited then
    if supported then
      link.send { entry := index, caller := .release, operation := .release entry.processId }
    else link.setEntry index { entry with published := false }
  else link

/-- The transport failed, or nobody answered in time. -/
def transportUnknown (entry : PortEntry) : PortEntry :=
  if entry.state = .exited then entry else { entry with state := .unknown }

def failed (link : ProcessLink) (index : ℕ) : Caller → ProcessLink
  | .start =>
      link.setEntry index { link.entry index with state := .unknown, published := true }
  | .confirm => link
  | .poll | .terminate => link.setEntry index (transportUnknown (link.entry index))
  | .release => link.setEntry index { link.entry index with published := false }

/-- The reply of the peer to a thread that still waits for it. -/
def answered (link : ProcessLink) (index : ℕ) : Caller → Reply → ProcessLink
  | .start, .start (.success processId _ _) =>
      link.setEntry index
        { link.entry index with processId, startConfirmed := true, published := true }
  -- `start` raises on an error of the peer, and no session is published.
  | .start, _ => link
  | .confirm, .start (.success processId _ _) =>
      let entry := link.entry index
      (link.setEntry index
        { entry with
          processId
          startConfirmed := true
          state := if entry.state = .exited then .exited else .running }).sendPoll index
  | .confirm, _ => link
  | .poll, .snapshot done =>
      let entry := link.entry index
      if entry.state = .exited then link
      else link.setEntry index { entry with state := if done then .exited else .running }
  | .terminate, .snapshot done =>
      if done then link.setEntry index { link.entry index with state := .exited } else link
  | .poll, _ | .terminate, _ => link.setEntry index (transportUnknown (link.entry index))
  | .release, _ => link.setEntry index { link.entry index with published := false }

/-! ## The peer -/

/-- The peer takes a request. -/
def take (link : ProcessLink) (index : ℕ) : ProcessLink :=
  match (link.request index).operation with
  | .start args =>
      { link with
        manager := link.manager.step (.call args)
        origin := Function.update link.origin link.manager.arrived index }
  | _ => { link with received := link.received ++ [index] }

def respond (link : ProcessLink) (index : ℕ) (reply : Reply) : ProcessLink :=
  { link with
    reply := Function.update link.reply index (some reply)
    received := link.received.filter fun other => other ≠ index }

/-- A control operation up to its reply, or to the wait for the end of the process; a
termination may not be delivered. -/
def control (link : ProcessLink) (index : ℕ) (delivered : Bool) : ProcessLink :=
  let look (processId : Text) := lookup processId link.manager.states
  let hold (process : ℕ) := { link with found := Function.update link.found index (some process) }
  match (link.request index).operation with
  | .start _ => link
  | .poll processId =>
      match look processId with
      | some process => link.respond index (.snapshot (link.manager.process process).done)
      | none => link.respond index .failed
  | .terminate processId =>
      match look processId with
      | some process =>
          if delivered then link.respond index (.snapshot (link.manager.process process).done)
          else link.respond index .failed
      | none => link.respond index .failed
  | .cancel processId =>
      match look processId with
      | some process => if delivered then hold process else link.respond index .failed
      | none => link.respond index .failed
  | .release processId =>
      match look processId with
      | some process =>
          if (link.manager.process process).done then hold process
          else link.respond index .failed
      | none => link.respond index .failed

/-! ## Steps -/

/-- The steps that the peer takes by itself. -/
def internal : Peer.Manager.Action → Bool
  | .enter _ | .spawn _ _ | .attach _ _ | .recheck _ | .reap _ | .complete _ | .wake _ | .exit _
  | .finish _ | .close _ | .tick _ => true
  | .call _ | .poll _ | .cancel _ _ | .release _ | .remove _ | .shutdown => false

inductive Action where
  | start (processId command : Text) (idempotencyKey : Option Text)
  | poll (entry : ℕ)
  | terminate (entry : ℕ) (supported : Bool)
  | release (entry : ℕ) (supported : Bool)
  /-- A request on its way is lost. -/
  | lose (position : ℕ)
  | deliver
  | control (request : ℕ) (delivered : Bool)
  /-- A `cancel` or `release` removes the process that it found. -/
  | remove (request : ℕ)
  /-- A call of the peer's `start` returns. -/
  | respond (call : ℕ)
  | peer (action : Peer.Manager.Action)
  | receive (request : ℕ)
  | giveUp (request : ℕ)

/-- A step that is not enabled leaves the link as it is. -/
def step (link : ProcessLink) : Action → ProcessLink
  | .start processId command idempotencyKey => link.start processId command idempotencyKey
  | .poll index => link.poll index
  | .terminate index supported => link.terminate index supported
  | .release index supported => link.release index supported
  | .lose position => { link with queue := link.queue.eraseIdx position }
  | .deliver =>
      match link.queue with
      | [] => link
      | index :: rest => { link with queue := rest }.take index
  | .control index delivered =>
      if index ∈ link.received ∧ link.found index = none then link.control index delivered
      else link
  | .remove index =>
      match link.found index with
      | some process =>
          if index ∈ link.received ∧ (link.manager.process process).done = true then
            { link with manager := link.manager.remove process }.respond index (.snapshot true)
          else link
      | none => link
  | .respond call =>
      match link.manager.phase call with
      | .returned result => link.respond (link.origin call) (.start result)
      | _ => link
  | .peer action =>
      if internal action then { link with manager := link.manager.step action } else link
  | .receive index =>
      match link.reply index with
      | some reply =>
          if link.pending index then
            { link with pending := Function.update link.pending index false }.answered
              (link.request index).entry (link.request index).caller reply
          else link
      | none => link
  | .giveUp index =>
      if link.pending index then
        { link with pending := Function.update link.pending index false }.failed
          (link.request index).entry (link.request index).caller
      else link

end ProcessLink

end ReuleauxCoder.Remote
