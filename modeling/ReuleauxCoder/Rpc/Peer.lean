import ReuleauxCoder.Rpc.Message

/-!
# The RPC peer

One connection carries requests in both directions.  Callers of `request` register
a future, send and wait; the reader thread completes futures, queues notifications
for the delivery thread and hands everything else to a worker pool; `close` may run
on any of these threads.  A step is one locked region, one frame read or written,
or one call of a handler, and the environment chooses what arrives, what handlers
do and when a caller stops waiting.
-/

namespace ReuleauxCoder.Rpc

open PyText PyJson

/-! ## Requests under way -/

/-- The `RpcError` made from an error response. -/
structure RemoteError where
  code : Json
  message : Json
  data : Json

inductive Future where
  | pending
  | result (value : Json)
  | error (error : RemoteError)
  | disconnected

/-- How a call of `request` ends; `notSent` is an exception raised by `_send`. -/
inductive RequestOutcome where
  | returned (value : Json)
  | failed (error : RemoteError)
  | disconnected
  | cancelled
  | timedOut
  | notSent

/-- How far a call of `request` has come; `leaving` is its `finally` block. -/
inductive Request where
  | absent
  | registered (method : Text) (params : PyValue)
  | waiting
  | leaving (outcome : RequestOutcome)
  | finished (outcome : RequestOutcome)

/-! ## Messages under way -/

inductive Phase where
  | queued
  | answering (answer : Option Answer)
  | answered
  | dropped

/-- A message handed to the worker pool. -/
structure Task where
  message : Json := .null
  phase : Phase := .dropped

/-- `refusal` is the reply to a line that is not JSON. -/
inductive Frame where
  | request (id method : Text) (params : PyValue)
  | notification (method : Text) (params : PyValue)
  | refusal
  | answer (task : ℕ) (answer : Answer)

/-- `params or {}`. -/
def orDict (params : PyValue) : PyValue :=
  if params.truthy then params else .dict []

def Frame.value : Frame → PyValue
  | .request id method params =>
      record [("jsonrpc", .str (lit "2.0")), ("id", .str id), ("method", .str method),
        ("params", orDict params)]
  | .notification method params =>
      record [("jsonrpc", .str (lit "2.0")), ("method", .str method), ("params", orDict params)]
  | .refusal => (Reply.mk .null (.error parseError)).value
  | .answer _ reply => reply.value

/-- What `receive` and `json.loads` make of the next line.  `receive` itself may raise; on
`nested` lines `json.loads` raises `RecursionError`, whether they are JSON or not. -/
inductive Line where
  | closed
  | raised
  | invalid
  | nested (message : Option Json)
  | message (message : Json)

/-- An entry of the delivery thread's queue: a notification, or the final `None`. -/
inductive Delivery where
  | notification (fields : List (Text × Json))
  | stop

/-- The reply to a line that is not JSON is shallow enough to be written. -/
structure Config extends Channel where
  handlers : Handlers
  writes_refusal : ∀ document, encode Frame.refusal.value = .ok document → writes document = true

/-- A connection in memory, where nothing is nested too deeply. -/
def plainConfig (methods : List Text) : Config where
  transport := .memory
  writes _ := true
  handlers := ⟨methods, [], fun _ _ => true, fun _ => false⟩
  writes_refusal _ _ := rfl

/-- `received` lists the messages that the reader has parsed, `consumed` the requests
that it completed from one of them, and `sent` the frames that were written; no step
of the program reads these three. -/
structure Peer where
  closed : Bool := false
  closing : Bool := false
  closeComplete : Bool := false
  nextId : ℕ := 1
  pending : List (Text × ℕ) := []
  future : ℕ → Future := fun _ => .pending
  request : ℕ → Request := fun _ => .absent
  reading : Bool := true
  delivering : Bool := true
  events : List Delivery := []
  nextTask : ℕ := 0
  task : ℕ → Task := fun _ => {}
  received : List Json := []
  consumed : List ℕ := []
  sent : List Frame := []

inductive Action where
  | startRequest (method : Text) (params : PyValue)
  | sendRequest (id : ℕ) (fails : Bool)
  | resolve (id : ℕ)
  | timeOut (id : ℕ)
  | cancel (id : ℕ)
  | leave (id : ℕ)
  | notify (method : Text) (params : PyValue) (fails : Bool)
  | receive (line : Line) (fails : Bool)
  | dispatch (id : ℕ) (outcomes : ℕ → Outcome)
  | sendAnswer (id : ℕ) (fails : Bool)
  | deliver (raises : Bool)
  | close
  | finishClose

namespace Peer

/-! ## The tables -/

def setRequest (peer : Peer) (id : ℕ) (request : Request) : Peer :=
  { peer with request := Function.update peer.request id request }

def setFuture (peer : Peer) (id : ℕ) (future : Future) : Peer :=
  { peer with future := Function.update peer.future id future }

def setPhase (peer : Peer) (id : ℕ) (phase : Phase) : Peer :=
  { peer with task := Function.update peer.task id { peer.task id with phase } }

/-- `_send`; `none` is an exception, and `fails` one raised by the transport's write. -/
def send (config : Config) (peer : Peer) (frame : Frame) (fails : Bool) : Option Peer :=
  if !peer.closed && !fails && sendable config.toChannel frame.value then
    some { peer with sent := peer.sent ++ [frame] }
  else none

/-! ## Closing -/

def disconnect : Future → Future
  | .pending => .disconnected
  | done => done

/-- The locked region of `close`. -/
def close (peer : Peer) : Peer :=
  if peer.closed then peer
  else
    { peer with
      closed := true
      closing := true
      future := fun id =>
        if id ∈ peer.pending.map Prod.snd then disconnect (peer.future id) else peer.future id }

def dropQueued (task : Task) : Task :=
  match task.phase with
  | .queued => { task with phase := .dropped }
  | _ => task

/-- The rest of `close`; queued work is cancelled. -/
def finishClose (peer : Peer) : Peer :=
  if peer.closing then
    { peer with
      closing := false
      closeComplete := true
      events := peer.events ++ [.stop]
      task := fun id => dropQueued (peer.task id) }
  else peer

/-! ## Requests -/

/-- The first locked region of `request`. -/
def startRequest (peer : Peer) (method : Text) (params : PyValue) : Peer :=
  if peer.closed then peer
  else
    { (peer.setRequest peer.nextId (.registered method params)).setFuture peer.nextId .pending with
      nextId := peer.nextId + 1
      pending := store (decimal peer.nextId) peer.nextId peer.pending }

def sendRequest (config : Config) (peer : Peer) (id : ℕ) (fails : Bool) : Peer :=
  match peer.request id with
  | .registered method params =>
      match peer.send config (.request (decimal id) method params) fails with
      | some peer => peer.setRequest id .waiting
      | none => peer.setRequest id (.leaving .notSent)
  | _ => peer

/-- `future.result`, when the future is done. -/
def resolve (peer : Peer) (id : ℕ) : Peer :=
  match peer.request id, peer.future id with
  | .waiting, .result value => peer.setRequest id (.leaving (.returned value))
  | .waiting, .error error => peer.setRequest id (.leaving (.failed error))
  | .waiting, .disconnected => peer.setRequest id (.leaving .disconnected)
  | _, _ => peer

/-- A wait ends without an answer.  With a cancellation event a slice of the wait can
end just before the future is completed, and is then reported as a timeout. -/
def timeOut (peer : Peer) (id : ℕ) : Peer :=
  match peer.request id with
  | .waiting => peer.setRequest id (.leaving .timedOut)
  | _ => peer

/-- The cancellation event is seen before the request is sent or while it waits. -/
def cancel (peer : Peer) (id : ℕ) : Peer :=
  match peer.request id with
  | .registered _ _ | .waiting => peer.setRequest id (.leaving .cancelled)
  | _ => peer

def leave (peer : Peer) (id : ℕ) : Peer :=
  match peer.request id with
  | .leaving outcome =>
      { peer.setRequest id (.finished outcome) with
        pending := drop (decimal id) peer.pending }
  | _ => peer

def notify (config : Config) (peer : Peer) (method : Text) (params : PyValue) (fails : Bool) :
    Peer :=
  (peer.send config (.notification method params) fails).getD peer

/-! ## The reader -/

/-- A value that can be looked up in a dictionary. -/
def hashable : Json → Bool
  | .arr _ | .obj _ => false
  | _ => true

def isResponse (fields : List (Text × Json)) : Bool :=
  (lookup (lit "method") fields).isNone && (lookup (lit "id") fields).isSome &&
    ((lookup (lit "result") fields).isSome || (lookup (lit "error") fields).isSome)

/-- `RpcError(error["code"], error["message"], error.get("data"))`. -/
def remoteError? : Json → Option RemoteError
  | .obj fields => do
      return {
        code := ← lookup (lit "code") fields
        message := ← lookup (lit "message") fields
        data := (lookup (lit "data") fields).getD .null }
  | _ => none

/-- The future that a response sets; `none` is an exception. -/
def response? (fields : List (Text × Json)) : Option Future :=
  match lookup (lit "error") fields with
  | some error => (remoteError? error).map .error
  | none => some (.result (field fields "result"))

/-- The request that a response names, if it is still waited for. -/
def awaited (peer : Peer) (id : Json) : Option ℕ :=
  match id with
  | .str key =>
      (lookup key peer.pending).filter fun id =>
        match peer.future id with
        | .pending => true
        | _ => false
  | _ => none

/-- The locked region in which the reader completes a request. -/
def complete (peer : Peer) (fields : List (Text × Json)) : Option Peer :=
  let id := field fields "id"
  if hashable id then
    match peer.awaited id with
    | some id =>
        (response? fields).map fun future =>
          { peer.setFuture id future with consumed := peer.consumed ++ [id] }
    | none => some peer
  else none

/-- `self._workers.submit`, which raises after a shutdown. -/
def submit (peer : Peer) (message : Json) : Option Peer :=
  if peer.closeComplete then none
  else
    some
      { peer with
        nextTask := peer.nextTask + 1
        task := Function.update peer.task peer.nextTask { message, phase := .queued } }

/-- A message without an id, whose method decides where it goes. -/
def isUnaddressed (fields : List (Text × Json)) : Bool :=
  lookup (lit "jsonrpc") fields = some (.str (lit "2.0")) && (lookup (lit "id") fields).isNone

def isNotification (handlers : Handlers) (fields : List (Text × Json)) : Bool :=
  match lookup (lit "method") fields with
  | some (.str method) => method ∈ handlers.notifications
  | _ => false

/-- One round of the reader after a message was parsed; `none` is an exception. -/
def handle (config : Config) (peer : Peer) (message : Json) : Option Peer :=
  match message with
  | .obj fields =>
      if isResponse fields then peer.complete fields
      else if isUnaddressed fields then
        if !hashable (field fields "method") then none
        else if isNotification config.handlers fields then
          some { peer with events := peer.events ++ [.notification fields] }
        else peer.submit message
      else peer.submit message
  | _ => peer.submit message

/-- The reader has parsed a message. -/
def hear (peer : Peer) (message : Json) : Peer :=
  { peer with received := peer.received ++ [message] }

/-- The `finally` block of the reader. -/
def stopReading (peer : Peer) : Peer :=
  { peer with reading := false }.close

def receive (config : Config) (peer : Peer) (line : Line) (fails : Bool) : Peer :=
  if !peer.reading then peer
  else
    match line with
    | .closed | .raised | .nested _ => peer.stopReading
    | .invalid => (peer.send config .refusal fails).getD peer.stopReading
    | .message message =>
        ((peer.hear message).handle config message).getD (peer.hear message).stopReading

/-! ## Workers and delivery -/

/-- The handlers of a message run. -/
def dispatch (config : Config) (peer : Peer) (id : ℕ) (outcomes : ℕ → Outcome) : Peer :=
  match (peer.task id).phase with
  | .queued =>
      peer.setPhase id (.answering (respond config.handlers (peer.task id).message outcomes))
  | _ => peer

/-- The end of `_respond`. -/
def sendAnswer (config : Config) (peer : Peer) (id : ℕ) (fails : Bool) : Peer :=
  match (peer.task id).phase with
  | .answering none => peer.setPhase id .answered
  | .answering (some answer) =>
      if peer.closed then peer.setPhase id .dropped
      else
        match peer.send config (.answer id answer) fails with
        | some peer => peer.setPhase id .answered
        | none => (peer.setPhase id .dropped).close
  | _ => peer

/-- `**message.get("params", {})` takes a dictionary only. -/
def hasKeywords (fields : List (Text × Json)) : Bool :=
  match lookup (lit "params") fields with
  | none | some (.obj _) => true
  | some _ => false

/-- One round of `_deliver`; `raises` is what the handler of a notification does. -/
def deliver (peer : Peer) (raises : Bool) : Peer :=
  if !peer.delivering then peer
  else
    match peer.events with
    | [] => peer
    | .stop :: rest => { peer with events := rest, delivering := false }
    | .notification fields :: rest =>
        if hasKeywords fields && !raises then { peer with events := rest }
        else { peer with events := rest, delivering := false }.close

/-! ## Steps -/

def step (config : Config) (peer : Peer) : Action → Peer
  | .startRequest method params => peer.startRequest method params
  | .sendRequest id fails => peer.sendRequest config id fails
  | .resolve id => peer.resolve id
  | .timeOut id => peer.timeOut id
  | .cancel id => peer.cancel id
  | .leave id => peer.leave id
  | .notify method params fails => peer.notify config method params fails
  | .receive line fails => peer.receive config line fails
  | .dispatch id outcomes => peer.dispatch config id outcomes
  | .sendAnswer id fails => peer.sendAnswer config id fails
  | .deliver raises => peer.deliver raises
  | .close => peer.close
  | .finishClose => peer.finishClose

end Peer

end ReuleauxCoder.Rpc
