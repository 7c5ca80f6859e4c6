import ReuleauxCoder.Library.Transition
import ReuleauxCoder.Rpc.Peer
import ReuleauxCoder.Rpc.Requests

/-!
# Replies to incoming messages

JSON-RPC says which reply an entry of a message is due, as a JSON document, and
`_dispatch` computes it as a Python value that only `_send` turns into a document.
The two agree whenever the value can be written, and a reply that can be written
and framed is sent exactly once; any other reply ends the connection.
-/

namespace ReuleauxCoder.Rpc

open PyText PyJson
open List hiding lookup

/-! ## What a message is due -/

/-- The entries of a batch, or the message itself. -/
def entries : Json → List Json
  | .arr (entry :: rest) => entry :: rest
  | message => [message]

def isBatch : Json → Bool
  | .arr (_ :: _) => true
  | _ => false

/-- The method of a well-formed request or notification. -/
def requestMethod (entry : Json) : Option Text :=
  match entry with
  | .obj fields =>
      if lookup (lit "jsonrpc") fields = some (.str (lit "2.0")) ∧ refusedId fields = false then
        match lookup (lit "method") fields with
        | some (.str method) => some method
        | _ => none
      else none
  | _ => none

/-- The id of the reply that an entry is due: its own, or `null` where it is not a
request at all; a notification is due none. -/
def dueId (entry : Json) : Option Json :=
  if (requestMethod entry).isSome then entry.get? (lit "id") else some .null

def errorMember (code : Json) (message : Text) (data : Json) : Text × Json :=
  (lit "error", .obj [(lit "code", code), (lit "message", .str message), (lit "data", data)])

def internalMember (errorType : Text) : Text × Json :=
  errorMember (.int (-32603)) (lit "Internal error") (.obj [(lit "error_type", .str errorType)])

/-- The result or error that the reply to an entry carries, unless it has no JSON form. -/
def dueMember (handlers : Handlers) (entry : Json) (outcome : Outcome) : Option (Text × Json) :=
  match requestMethod entry with
  | none => some (errorMember (.int (-32600)) (lit "Invalid Request") .null)
  | some method =>
      let params := (entry.get? (lit "params")).getD (.obj [])
      if method ∉ handlers.methods then
        some (errorMember (.int (-32601)) (lit "Method not found") .null)
      else if !(bindable params && handlers.binds method params) then
        some (errorMember (.int (-32602)) (lit "Invalid params") .null)
      else
        match outcome with
        | .returned value =>
            if handlers.tooDeep value then some (internalMember (lit "RecursionError"))
            else
              match encode value with
              | .ok document => some (lit "result", document)
              | .error errorType => some (internalMember errorType)
        | .rpcError error =>
            match encode error.code, encode error.data with
            | .ok code, .ok data => some (errorMember code error.message data)
            | _, _ => none
        | .raised errorType => some (internalMember errorType)

def dueReply (handlers : Handlers) (entry : Json) (outcome : Outcome) (id : Json) : Option Json :=
  (dueMember handlers entry outcome).map fun member =>
    .obj [(lit "jsonrpc", .str (lit "2.0")), (lit "id", id), member]

def dueReplies (handlers : Handlers) (message : Json) (outcomes : ℕ → Outcome) :
    List (Option Json) :=
  (entries message).zipIdx.filterMap fun item =>
    (dueId item.1).map (dueReply handlers item.1 (outcomes item.2))

def dueIds (message : Json) : List Json :=
  (entries message).filterMap dueId

/-- The document that answers a message, unless it has no JSON form. -/
def dueDocument (handlers : Handlers) (message : Json) (outcomes : ℕ → Outcome) : Option Json :=
  ((dueReplies handlers message outcomes).mapM id).map fun replies =>
    if isBatch message then .arr replies else replies.headD .null

/-- The answer that a message is due, if any, can be written and framed. -/
def writable (config : Config) (message : Json) (outcomes : ℕ → Outcome) : Bool :=
  (dueReplies config.handlers message outcomes).isEmpty ||
    (dueDocument config.handlers message outcomes).any fun document =>
      config.writes document && config.transport.accepts (dumps compact document)

/-! ## What `_dispatch` computes -/

variable {fields : List (Text × Json)}

theorem encode_ofJson_id {id : Json} (hid : lookup (lit "id") fields = some id)
    (haccepted : refusedId fields = false) : encode (ofJson id) = .ok id := by
  rw [refusedId, hid] at haccepted
  cases id with
  | null | int _ | str _ => rfl
  | bool _ | float _ | arr _ | obj _ => cases haccepted

/-- The JSON form of a value, if it has one. -/
def document? (value : PyValue) : Option Json :=
  (encode value).toOption

theorem document?_result {id : Json} (hid : encode (ofJson id) = .ok id) {value : PyValue}
    {document : Json} (hvalue : encode value = .ok document) :
    document? (Reply.mk id (.result value)).value =
      some (.obj [(lit "jsonrpc", .str (lit "2.0")), (lit "id", id), (lit "result", document)]) := by
  simp [document?, Reply.value, record, encode, encodeFields, encodeKey, hid, hvalue, bind,
    Except.bind, pure, Except.pure, Except.toOption]

theorem document?_error {id : Json} (hid : encode (ofJson id) = .ok id) (error : RpcError) :
    document? (Reply.mk id (.error error)).value =
      match encode error.code, encode error.data with
      | .ok code, .ok data =>
          some (.obj [(lit "jsonrpc", .str (lit "2.0")), (lit "id", id),
            errorMember code error.message data])
      | _, _ => none := by
  cases hcode : encode error.code with
  | error _ =>
      simp [document?, Reply.value, record, encode, encodeFields, encodeKey, hid, hcode, bind,
        Except.bind, Except.toOption]
  | ok code =>
      cases hdata : encode error.data with
      | error _ =>
          simp [document?, Reply.value, record, encode, encodeFields, encodeKey, hid, hcode, hdata,
            bind, Except.bind, Except.toOption]
      | ok data =>
          simp [document?, Reply.value, record, encode, encodeFields, encodeKey, hid, hcode, hdata,
            errorMember, bind, Except.bind, pure, Except.pure, Except.toOption]

variable {method : Text}

theorem document?_invokeBody (handlers : Handlers) {entry : Json}
    (hmethod : requestMethod entry = some method) {id : Json} (hid : encode (ofJson id) = .ok id)
    (outcome : Outcome) :
    document? (Reply.mk id (invokeBody handlers method
        ((entry.get? (lit "params")).getD (.obj [])) outcome)).value =
      dueReply handlers entry outcome id := by
  simp only [invokeBody, dueReply, dueMember, hmethod]
  by_cases hknown : method ∉ handlers.methods
  · simp only [if_pos hknown, document?_error hid]
    rfl
  simp only [if_neg hknown]
  generalize (entry.get? (lit "params")).getD (.obj []) = params
  by_cases hbinds : (!(bindable params && handlers.binds method params)) = true
  · simp only [if_pos hbinds, document?_error hid]
    rfl
  simp only [if_neg hbinds]
  cases outcome with
  | returned value =>
      cases hdeep : handlers.tooDeep value with
      | true =>
          simp only [hdeep, if_true, document?_error hid]
          rfl
      | false =>
          cases hvalue : encode value with
          | ok document =>
              simp only [hdeep, hvalue, document?_result hid hvalue, Bool.false_eq_true, if_false,
                Option.map_some]
          | error errorType =>
              simp only [hdeep, hvalue, Bool.false_eq_true, if_false, document?_error hid]
              rfl
  | rpcError error =>
      simp only [document?_error hid]
      cases hcode : encode error.code with
      | error _ => rfl
      | ok code =>
          cases hdata : encode error.data with
          | error _ => rfl
          | ok data => rfl
  | raised errorType =>
      simp only [document?_error hid]
      rfl

theorem requestMethod_eq_some :
    requestMethod (.obj fields) = some method ↔
      lookup (lit "jsonrpc") fields = some (.str (lit "2.0")) ∧ refusedId fields = false ∧
        lookup (lit "method") fields = some (.str method) := by
  simp only [requestMethod]
  split
  · rename_i hwell
    cases hmethod : lookup (lit "method") fields with
    | none => simp
    | some value => cases value <;> simp [hwell]
  · rename_i hill
    simp only [not_and] at hill
    simp only [reduceCtorEq, false_iff]
    exact fun h => hill h.1 h.2.1

theorem dispatch_of_request (handlers : Handlers)
    (hmethod : requestMethod (.obj fields) = some method) (outcome : Outcome) :
    dispatch handlers (.obj fields) outcome = invoke handlers fields method outcome := by
  obtain ⟨hversion, haccepted, hname⟩ := requestMethod_eq_some.mp hmethod
  simp [dispatch, hversion, haccepted, hname]

theorem dispatch_of_not_request (handlers : Handlers) {entry : Json}
    (hnone : requestMethod entry = none) (outcome : Outcome) :
    dispatch handlers entry outcome = some ⟨.null, .error invalidRequest⟩ := by
  cases entry with
  | obj fields =>
      simp only [dispatch]
      split
      · rfl
      · rename_i hversion
        rw [not_not] at hversion
        split
        · rename_i method hname
          split
          · rfl
          · rename_i haccepted
            rw [Bool.not_eq_true] at haccepted
            rw [requestMethod_eq_some.mpr ⟨hversion, haccepted, hname⟩] at hnone
            cases hnone
        · rfl
  | null | bool _ | int _ | float _ | str _ | arr _ => rfl

/-- `_dispatch` gives an entry the reply it is due. -/
theorem dispatch_due (handlers : Handlers) (entry : Json) (outcome : Outcome) :
    (dispatch handlers entry outcome).map (fun reply => (reply.id, document? reply.value)) =
      (dueId entry).map fun id => (id, dueReply handlers entry outcome id) := by
  cases hmethod : requestMethod entry with
  | none =>
      rw [dispatch_of_not_request handlers hmethod]
      have hnull : encode (ofJson .null) = .ok .null := rfl
      simp only [dueId, dueReply, dueMember, hmethod, Option.map_some, Option.isSome_none,
        Bool.false_eq_true, if_false]
      rw [document?_error hnull]
      rfl
  | some method =>
      cases entry with
      | obj fields =>
          rw [dispatch_of_request handlers hmethod, invoke]
          simp only [dueId, hmethod, Option.isSome_some, if_true, Json.get?_obj, Option.map_map]
          cases hid : lookup (lit "id") fields with
          | none => rfl
          | some id =>
              have haccepted := (requestMethod_eq_some.mp hmethod).2.1
              have hdocument := document?_invokeBody handlers hmethod
                (encode_ofJson_id hid haccepted) outcome
              simp only [Option.map_some, Function.comp_apply, ← hdocument, Json.get?_obj]
      | null | bool _ | int _ | float _ | str _ | arr _ => cases hmethod

/-! ## What `_respond` sends -/

/-- The replies to the entries of a message. -/
def replies (handlers : Handlers) (message : Json) (outcomes : ℕ → Outcome) : List Reply :=
  (entries message).zipIdx.filterMap fun item => dispatch handlers item.1 (outcomes item.2)

variable {message : Json} {outcomes : ℕ → Outcome}

/-- What `_respond` says of one reply at most. -/
theorem respond_eq_single {handlers : Handlers} (hbatch : isBatch message = false)
    (hentries : entries message = [message]) (hrespond : respond handlers message outcomes =
      (dispatch handlers message (outcomes 0)).map .single) :
    (respond handlers message outcomes).map Answer.replies =
        (if replies handlers message outcomes = [] then none
          else some (replies handlers message outcomes)) ∧
      ∀ answer, respond handlers message outcomes = some answer →
        answer.value = if isBatch message then
            .list ((replies handlers message outcomes).map Reply.value)
          else ((replies handlers message outcomes).map Reply.value).headD .null := by
  have hreplies : replies handlers message outcomes =
      (dispatch handlers message (outcomes 0)).toList := by
    simp only [replies, hentries, zipIdx_singleton, filterMap_cons, filterMap_nil]
    cases dispatch handlers message (outcomes 0) <;> rfl
  rw [hrespond, hreplies, hbatch]
  cases dispatch handlers message (outcomes 0) with
  | none => exact ⟨rfl, fun answer hanswer => by cases hanswer⟩
  | some reply => exact ⟨rfl, fun answer hanswer => by cases hanswer; rfl⟩

theorem respond_eq (handlers : Handlers) (message : Json) (outcomes : ℕ → Outcome) :
    (respond handlers message outcomes).map Answer.replies =
        (if replies handlers message outcomes = [] then none
          else some (replies handlers message outcomes)) ∧
      ∀ answer, respond handlers message outcomes = some answer →
        answer.value = if isBatch message then
            .list ((replies handlers message outcomes).map Reply.value)
          else ((replies handlers message outcomes).map Reply.value).headD .null := by
  match message with
  | .arr (entry :: rest) =>
      have hrespond : respond handlers (.arr (entry :: rest)) outcomes =
          if replies handlers (.arr (entry :: rest)) outcomes = [] then none
          else some (.batch (replies handlers (.arr (entry :: rest)) outcomes)) := rfl
      rw [hrespond]
      split
      · exact ⟨rfl, fun answer hanswer => by cases hanswer⟩
      · exact ⟨rfl, fun answer hanswer => by cases hanswer; rfl⟩
  | .arr [] | .null | .bool _ | .int _ | .float _ | .str _ | .obj _ =>
      exact respond_eq_single rfl rfl rfl

theorem replies_due (handlers : Handlers) (message : Json) (outcomes : ℕ → Outcome) :
    (replies handlers message outcomes).map (fun reply => (reply.id, document? reply.value)) =
      (entries message).zipIdx.filterMap fun item =>
        (dueId item.1).map fun id => (id, dueReply handlers item.1 (outcomes item.2) id) := by
  rw [replies, map_filterMap]
  exact filterMap_congr fun item _ => dispatch_due handlers item.1 (outcomes item.2)

/-- The replies bear the ids that are due, in the order of the entries. -/
theorem ids_replies (handlers : Handlers) (message : Json) (outcomes : ℕ → Outcome) :
    (replies handlers message outcomes).map Reply.id = dueIds message := by
  have hdue := congrArg (List.map Prod.fst) (replies_due handlers message outcomes)
  rw [map_map, map_filterMap] at hdue
  calc (replies handlers message outcomes).map Reply.id
      = (entries message).zipIdx.filterMap fun item => dueId item.1 := by
        simpa [Function.comp_def, Option.map_map] using hdue
    _ = ((entries message).zipIdx.map Prod.fst).filterMap dueId := by
        rw [filterMap_map]
        rfl
    _ = dueIds message := by rw [zipIdx_map_fst, dueIds]

theorem documents_replies (handlers : Handlers) (message : Json) (outcomes : ℕ → Outcome) :
    (replies handlers message outcomes).map (fun reply => document? reply.value) =
      dueReplies handlers message outcomes := by
  have hdue := congrArg (List.map Prod.snd) (replies_due handlers message outcomes)
  rw [map_map, map_filterMap] at hdue
  simpa [Function.comp_def, Option.map_map, dueReplies] using hdue

theorem document?_list (values : List PyValue) :
    document? (.list values) = ((values.map document?).mapM id).map .arr := by
  have hitems : (encodeItems values).toOption = (values.map document?).mapM id := by
    induction values with
    | nil => rfl
    | cons value rest ih =>
        rw [map_cons, mapM_cons, ← ih]
        simp only [encodeItems, document?]
        cases encode value with
        | error _ => rfl
        | ok document => cases encodeItems rest <;> rfl
  rw [← hitems]
  simp only [document?, encode]
  cases encodeItems values <;> rfl

/-- The answer of `_respond` is the document due, where there is one. -/
theorem document?_respond {handlers : Handlers} {answer : Answer}
    (hrespond : respond handlers message outcomes = some answer) :
    document? answer.value = dueDocument handlers message outcomes ∧
      dueReplies handlers message outcomes ≠ [] := by
  obtain ⟨hreplies, hvalue⟩ := respond_eq handlers message outcomes
  rw [hrespond] at hreplies
  have hdocuments := documents_replies handlers message outcomes
  split at hreplies
  · cases hreplies
  · rename_i hne
    refine ⟨?_, ?_⟩
    · rw [hvalue answer hrespond, dueDocument, ← hdocuments]
      cases hbatch : isBatch message with
      | true => simp [document?_list, Function.comp_def]
      | false =>
          have hone : (replies handlers message outcomes).length ≤ 1 := by
            have hentries : entries message = [message] := by
              match message with
              | .arr (_ :: _) => cases hbatch
              | .arr [] | .null | .bool _ | .int _ | .float _ | .str _ | .obj _ => rfl
            rw [replies, hentries]
            exact (length_filterMap_le _ _).trans (by simp)
          match hlist : replies handlers message outcomes with
          | [] => exact absurd hlist hne
          | [reply] =>
              simp only [map_cons, map_nil, headD_cons, Bool.false_eq_true, if_false]
              cases document? reply.value <;> rfl
          | _ :: _ :: _ => simp [hlist] at hone
    · rw [← hdocuments]
      simpa using hne

theorem sendable_eq (channel : Channel) (value : PyValue) :
    sendable channel value = (document? value).any fun document =>
      channel.writes document && channel.transport.accepts (dumps compact document) := by
  rw [sendable, frameText, document?]
  cases encode value with
  | error _ => rfl
  | ok document => cases hwrites : channel.writes document <;> simp [hwrites, Except.toOption]

/-- A due answer that can be written gets past `_send`. -/
theorem sendable_respond {config : Config} {answer : Answer}
    (hrespond : respond config.handlers message outcomes = some answer)
    (hwritable : writable config message outcomes = true) :
    sendable config.toChannel answer.value = true := by
  obtain ⟨hdocument, hdue⟩ := document?_respond hrespond
  rw [writable, isEmpty_eq_false_iff.mpr hdue, Bool.false_or] at hwritable
  rw [sendable_eq, hdocument]
  exact hwritable

/-- The ids of the replies that `_respond` sends. -/
theorem ids_respond (handlers : Handlers) (message : Json) (outcomes : ℕ → Outcome) :
    ((respond handlers message outcomes).toList.map fun answer => answer.replies.map Reply.id) =
      if dueIds message = [] then [] else [dueIds message] := by
  have hids := ids_replies handlers message outcomes
  have hreplies := (respond_eq handlers message outcomes).1
  have hempty : replies handlers message outcomes = [] ↔ dueIds message = [] := by
    rw [← hids, map_eq_nil_iff]
  cases hrespond : respond handlers message outcomes with
  | none =>
      rw [hrespond] at hreplies
      rw [if_pos]
      · rfl
      · by_contra hne
        rw [if_neg (mt hempty.mp hne)] at hreplies
        cases hreplies
  | some answer =>
      rw [hrespond] at hreplies
      by_cases hnil : replies handlers message outcomes = []
      · rw [if_pos hnil] at hreplies
        cases hreplies
      · rw [if_neg hnil] at hreplies
        have hanswer : answer.replies = replies handlers message outcomes := by
          simpa using hreplies
        rw [if_neg (mt hempty.mpr hnil), ← hids, ← hanswer]
        rfl

/-! ## Runs -/

/-- The transport works and nobody closes the connection. -/
def Action.works : Action → Bool
  | .receive .closed _ | .receive .raised _ | .close => false
  | .receive _ fails | .sendAnswer _ fails => !fails
  | _ => true

/-- A message that the reader hands to the worker pool. -/
def asksWorker (handlers : Handlers) : Json → Bool
  | .obj fields =>
      !Peer.isResponse fields &&
        !(Peer.isUnaddressed fields && Peer.isNotification handlers fields)
  | _ => true

/-- The ids of the replies in each answer that a task has sent. -/
def answersOf (sent : List Frame) (id : ℕ) : List (List Json) :=
  sent.filterMap fun frame =>
    match frame with
    | .answer task answer => if task = id then some (answer.replies.map Reply.id) else none
    | _ => none

/-- One answer with the ids that a message is due, or none. -/
def dueAnswers (message : Json) : List (List Json) :=
  if dueIds message = [] then [] else [dueIds message]

namespace Peer

variable {config : Config} {peer next : Peer} {id : ℕ}

/-- The step raises no exception in the reader or the delivery thread, and answers only
with what can be written. -/
def answerable (config : Config) (peer : Peer) : Action → Bool
  | .receive (.nested _) _ => false
  | .receive (.message (.obj fields)) _ =>
      if isResponse fields then peer.readable fields
      else !isUnaddressed fields || hashable (field fields "method")
  | .dispatch id outcomes =>
      match (peer.task id).phase with
      | .queued => writable config (peer.task id).message outcomes
      | _ => true
  | .deliver raises =>
      match peer.events with
      | .notification fields :: _ => hasKeywords fields && !raises
      | _ => true
  | _ => true

/-- How far a task has come, and what it has sent. -/
def Serving (config : Config) (peer : Peer) (id : ℕ) : Prop :=
  match (peer.task id).phase with
  | .queued => answersOf peer.sent id = []
  | .answering answer =>
      answersOf peer.sent id = [] ∧
        (answer.toList.map fun answer => answer.replies.map Reply.id) =
          dueAnswers (peer.task id).message ∧
        ∀ reply, answer = some reply → sendable config.toChannel reply.value = true
  | .answered => answersOf peer.sent id = dueAnswers (peer.task id).message
  | .dropped => False

/-- The connection is open, and every message for the workers has a task. -/
structure Open (config : Config) (peer : Peer) : Prop where
  isOpen : peer.closed = false
  idle : peer.closeComplete = false
  notClosing : peer.closing = false
  reading : peer.reading = true
  handed : (List.range peer.nextTask).map (fun id => (peer.task id).message) =
    peer.received.filter (asksWorker config.handlers)
  serving : ∀ id < peer.nextTask, peer.Serving config id
  unborn : ∀ id, peer.nextTask ≤ id →
    (peer.task id).phase = .dropped ∧ answersOf peer.sent id = []

theorem open_new (config : Config) : Open config {} where
  isOpen := rfl
  idle := rfl
  notClosing := rfl
  reading := rfl
  handed := rfl
  serving _ hlt := absurd hlt (Nat.not_lt_zero _)
  unborn _ _ := ⟨rfl, rfl⟩

/-- Only requests, queues and frames other than answers differ. -/
structure SameTasks (before after : Peer) : Prop where
  closed : after.closed = before.closed
  closeComplete : after.closeComplete = before.closeComplete
  closing : after.closing = before.closing
  reading : after.reading = before.reading
  nextTask : after.nextTask = before.nextTask
  task : after.task = before.task
  received : after.received = before.received
  answers : answersOf after.sent = answersOf before.sent

theorem SameTasks.refl (peer : Peer) : SameTasks peer peer :=
  ⟨rfl, rfl, rfl, rfl, rfl, rfl, rfl, rfl⟩

variable {after : Peer} {fails : Bool}

theorem Serving.congr (hserving : peer.Serving config id) (htask : after.task id = peer.task id)
    (hanswers : answersOf after.sent id = answersOf peer.sent id) : after.Serving config id := by
  rw [Serving, htask, hanswers]
  exact hserving

theorem Open.of_same (hopen : peer.Open config) (hsame : SameTasks peer after) :
    after.Open config where
  isOpen := hsame.closed.trans hopen.isOpen
  idle := hsame.closeComplete.trans hopen.idle
  notClosing := hsame.closing.trans hopen.notClosing
  reading := hsame.reading.trans hopen.reading
  handed := by
    rw [hsame.nextTask, hsame.task, hsame.received]
    exact hopen.handed
  serving id hlt :=
    (hopen.serving id (hsame.nextTask ▸ hlt)).congr (congrFun hsame.task id)
      (congrFun hsame.answers id)
  unborn := by
    rw [hsame.nextTask, hsame.task, hsame.answers]
    exact hopen.unborn

/-! ### Frames -/

theorem answersOf_append (sent : List Frame) (frame : Frame) (id : ℕ) :
    answersOf (sent ++ [frame]) id = answersOf sent id ++ answersOf [frame] id :=
  filterMap_append

theorem send_eq_some {frame : Frame} (hsend : peer.send config frame fails = some next) :
    next = { peer with sent := peer.sent ++ [frame] } := by
  rw [send] at hsend
  split at hsend
  · exact (Option.some.inj hsend).symm
  · cases hsend

theorem sameTasks_send {frame : Frame} (hframe : ∀ id, answersOf [frame] id = [])
    (hsend : peer.send config frame fails = some next) : SameTasks peer next := by
  rw [send_eq_some hsend]
  refine ⟨rfl, rfl, rfl, rfl, rfl, rfl, rfl, funext fun id => ?_⟩
  show answersOf (peer.sent ++ [frame]) id = _
  rw [answersOf_append, hframe, append_nil]

theorem sameTasks_notify (method : Text) (params : PyValue) (fails : Bool) :
    SameTasks peer (peer.notify config method params fails) := by
  rw [notify]
  cases hsend : peer.send config (.notification method params) fails with
  | none => exact SameTasks.refl peer
  | some next => exact sameTasks_send (fun _ => rfl) hsend

/-! ### Requests -/

theorem sameTasks_startRequest (method : Text) (params : PyValue) :
    SameTasks peer (peer.startRequest method params) := by
  rw [startRequest]
  split
  · exact SameTasks.refl peer
  · exact ⟨rfl, rfl, rfl, rfl, rfl, rfl, rfl, rfl⟩

theorem sameTasks_setRequest (peer : Peer) (id : ℕ) (request : Request) :
    SameTasks peer (peer.setRequest id request) :=
  ⟨rfl, rfl, rfl, rfl, rfl, rfl, rfl, rfl⟩

theorem sameTasks_sendRequest (fails : Bool) :
    SameTasks peer (peer.sendRequest config id fails) := by
  rw [sendRequest]
  split
  · rename_i method params _
    split
    · rename_i next hsend
      have hsame := sameTasks_send (fun _ => rfl) hsend
      exact ⟨hsame.closed, hsame.closeComplete, hsame.closing, hsame.reading, hsame.nextTask,
        hsame.task, hsame.received, hsame.answers⟩
    · exact sameTasks_setRequest peer id _
  · exact SameTasks.refl peer

theorem sameTasks_resolve : SameTasks peer (peer.resolve id) := by
  rw [resolve]
  split
  · exact sameTasks_setRequest peer id _
  · exact sameTasks_setRequest peer id _
  · exact sameTasks_setRequest peer id _
  · exact SameTasks.refl peer

theorem sameTasks_timeOut : SameTasks peer (peer.timeOut id) := by
  rw [timeOut]
  split
  · exact sameTasks_setRequest peer id _
  · exact SameTasks.refl peer

theorem sameTasks_cancel : SameTasks peer (peer.cancel id) := by
  rw [cancel]
  split
  · exact sameTasks_setRequest peer id _
  · exact sameTasks_setRequest peer id _
  · exact SameTasks.refl peer

theorem sameTasks_leave : SameTasks peer (peer.leave id) := by
  rw [leave]
  split
  · exact ⟨rfl, rfl, rfl, rfl, rfl, rfl, rfl, rfl⟩
  · exact SameTasks.refl peer

theorem sameTasks_deliver {raises : Bool}
    (hanswerable : peer.answerable config (.deliver raises) = true) :
    SameTasks peer (peer.deliver raises) := by
  rw [deliver]
  split
  · exact SameTasks.refl peer
  · split
    · exact SameTasks.refl peer
    · exact ⟨rfl, rfl, rfl, rfl, rfl, rfl, rfl, rfl⟩
    · rename_i fields rest hevents
      simp only [answerable, hevents] at hanswerable
      rw [if_pos hanswerable]
      exact ⟨rfl, rfl, rfl, rfl, rfl, rfl, rfl, rfl⟩

/-! ### The reader -/

theorem open_hear (hopen : peer.Open config) (hasks : asksWorker config.handlers message = false) :
    (peer.hear message).Open config := by
  refine ⟨hopen.isOpen, hopen.idle, hopen.notClosing, hopen.reading, ?_, hopen.serving,
    hopen.unborn⟩
  show _ = (peer.received ++ [message]).filter _
  rw [filter_append, filter_singleton, hasks]
  exact hopen.handed.trans (append_nil _).symm

theorem submit_eq (hidle : peer.closeComplete = false) (message : Json) :
    peer.submit message =
      some { peer with
        nextTask := peer.nextTask + 1
        task := Function.update peer.task peer.nextTask { message, phase := .queued } } := by
  rw [submit, hidle]
  rfl

theorem open_submit (hopen : peer.Open config) (hasks : asksWorker config.handlers message = true) :
    ∃ next, (peer.hear message).submit message = some next ∧ next.Open config := by
  have hidle : (peer.hear message).closeComplete = false := hopen.idle
  refine ⟨_, submit_eq hidle message, hopen.isOpen, hopen.idle, hopen.notClosing, hopen.reading,
    ?_, fun id hlt => ?_, fun id hle => ?_⟩
  · have hold : (List.range peer.nextTask).map (fun id =>
        (Function.update peer.task peer.nextTask { message, phase := .queued } id).message) =
        (List.range peer.nextTask).map fun id => (peer.task id).message := by
      refine map_congr_left fun id hid => ?_
      rw [Function.update_of_ne (Nat.ne_of_lt (mem_range.mp hid))]
    calc (List.range (peer.nextTask + 1)).map (fun id =>
          (Function.update peer.task peer.nextTask { message, phase := .queued } id).message)
        = (List.range peer.nextTask).map (fun id => (peer.task id).message) ++ [message] := by
          rw [range_succ, map_append, hold]
          simp
      _ = (peer.received ++ [message]).filter (asksWorker config.handlers) := by
          rw [filter_append, filter_singleton, hasks, hopen.handed]
          rfl
  · by_cases heq : id = peer.nextTask
    · subst heq
      have hanswers := (hopen.unborn peer.nextTask le_rfl).2
      simpa [Serving, hear] using hanswers
    · have hlt : id < peer.nextTask + 1 := hlt
      exact (hopen.serving id (by omega)).congr (Function.update_of_ne heq _ _) rfl
  · have hle : peer.nextTask + 1 ≤ id := hle
    have hunborn := hopen.unborn id (by omega)
    refine ⟨?_, hunborn.2⟩
    show (Function.update peer.task peer.nextTask _ id).phase = _
    rw [Function.update_of_ne (by omega)]
    exact hunborn.1

theorem open_handle (hopen : peer.Open config)
    (hanswerable : peer.answerable config (.receive (.message message) fails) = true) :
    ∃ next, (peer.hear message).handle config message = some next ∧ next.Open config := by
  cases message with
  | obj fields =>
      by_cases hshape : isResponse fields = true
      · have hasks : asksWorker config.handlers (.obj fields) = false := by
          simp [asksWorker, hshape]
        have hreadable : ((peer.hear (.obj fields)).complete fields).isSome = true := by
          simp only [answerable, hshape, if_true] at hanswerable
          exact complete_isSome_iff.trans hanswerable
        obtain ⟨next, hcomplete⟩ := Option.isSome_iff_exists.mp hreadable
        refine ⟨next, by simp only [handle, hshape, if_true, hcomplete], ?_⟩
        have hheard := open_hear hopen hasks
        obtain rfl | ⟨id, future, -, -, rfl⟩ := complete_cases hcomplete
        · exact hheard
        · exact hheard.of_same ⟨rfl, rfl, rfl, rfl, rfl, rfl, rfl, rfl⟩
      · rw [Bool.not_eq_true] at hshape
        by_cases hunaddressed : isUnaddressed fields = true
        · have hhashable : hashable (field fields "method") = true := by
            simpa [answerable, hshape, hunaddressed] using hanswerable
          by_cases hnotification : isNotification config.handlers fields = true
          · have hasks : asksWorker config.handlers (.obj fields) = false := by
              simp [asksWorker, hshape, hunaddressed, hnotification]
            have hheard := open_hear hopen hasks
            refine ⟨{ peer.hear (.obj fields) with
              events := peer.events ++ [.notification fields] }, ?_,
              hheard.of_same ⟨rfl, rfl, rfl, rfl, rfl, rfl, rfl, rfl⟩⟩
            simp only [handle, hshape, hunaddressed, hhashable, hnotification, Bool.not_true,
              Bool.false_eq_true, if_true, if_false]
            rfl
          · rw [Bool.not_eq_true] at hnotification
            obtain ⟨next, hsubmit, hnext⟩ := open_submit hopen (show
              asksWorker config.handlers (.obj fields) = true by
                simp [asksWorker, hshape, hnotification])
            exact ⟨next, by simp only [handle, hshape, hunaddressed, hhashable, hnotification,
              Bool.not_true, Bool.false_eq_true, if_true, if_false, hsubmit], hnext⟩
        · rw [Bool.not_eq_true] at hunaddressed
          obtain ⟨next, hsubmit, hnext⟩ := open_submit hopen (show
            asksWorker config.handlers (.obj fields) = true by
              simp [asksWorker, hshape, hunaddressed])
          exact ⟨next, by simp only [handle, hshape, hunaddressed, Bool.false_eq_true, if_false,
            hsubmit], hnext⟩
  | null | bool _ | int _ | float _ | str _ | arr _ => exact open_submit hopen rfl

theorem sendable_refusal (config : Config) :
    sendable config.toChannel Frame.refusal.value = true := by
  have haccepts : ∀ transport : Transport,
      (document? Frame.refusal.value).all (fun document =>
        transport.accepts (dumps compact document)) = true := by
    intro transport
    cases transport <;> decide
  rw [sendable_eq]
  cases hrefusal : encode Frame.refusal.value with
  | error error => cases hrefusal
  | ok document =>
      have hshallow := config.writes_refusal document hrefusal
      have haccepted := haccepts config.transport
      simp only [document?, hrefusal, Except.toOption, Option.all_some] at haccepted
      simp only [document?, hrefusal, Except.toOption, Option.any_some, hshallow, haccepted,
        Bool.and_self]

theorem open_receive (hopen : peer.Open config) {line : Line}
    (hworks : (Action.receive line fails).works = true)
    (hanswerable : peer.answerable config (.receive line fails) = true) :
    (peer.receive config line fails).Open config := by
  have hreading : (!peer.reading) = false := by rw [hopen.reading, Bool.not_true]
  cases line with
  | closed | raised => cases hworks
  | nested document => cases hanswerable
  | invalid =>
      have hfails : fails = false := by simpa [Action.works] using hworks
      have hsend : peer.send config .refusal fails =
          some { peer with sent := peer.sent ++ [.refusal] } := by
        simp [send, hopen.isOpen, hfails, sendable_refusal]
      simp only [receive, hreading, Bool.false_eq_true, if_false, hsend, Option.getD_some]
      exact hopen.of_same (sameTasks_send (fun _ => rfl) hsend)
  | message message =>
      obtain ⟨next, hhandle, hnext⟩ := open_handle hopen hanswerable
      simpa only [receive, hreading, Bool.false_eq_true, if_false, hhandle, Option.getD_some]
        using hnext

/-! ### Workers -/

theorem answersOf_answer (id other : ℕ) (answer : Answer) :
    answersOf [.answer id answer] other =
      if id = other then [answer.replies.map Reply.id] else [] := by
  by_cases heq : id = other <;> simp [answersOf, heq]

/-- A task that is under way moves on, and sends answers of its own only. -/
theorem Open.of_setPhase (hopen : peer.Open config) (hlt : id < peer.nextTask)
    (hsame : SameTasks { peer with task := after.task, sent := after.sent } after)
    (hmessage : (after.task id).message = (peer.task id).message)
    (htask : ∀ other, other ≠ id → after.task other = peer.task other)
    (hanswers : ∀ other, other ≠ id →
      answersOf after.sent other = answersOf peer.sent other)
    (hserving : after.Serving config id) : after.Open config where
  isOpen := hsame.closed.trans hopen.isOpen
  idle := hsame.closeComplete.trans hopen.idle
  notClosing := hsame.closing.trans hopen.notClosing
  reading := hsame.reading.trans hopen.reading
  handed := by
    rw [hsame.nextTask, hsame.received]
    refine Eq.trans (map_congr_left fun other _ => ?_) hopen.handed
    by_cases heq : other = id
    · rw [heq, hmessage]
    · rw [htask other heq]
  serving other hother := by
    by_cases heq : other = id
    · exact heq ▸ hserving
    · exact (hopen.serving other (hsame.nextTask ▸ hother)).congr (htask other heq)
        (hanswers other heq)
  unborn other hother := by
    have hother : peer.nextTask ≤ other := hsame.nextTask ▸ hother
    rw [htask other (by omega), hanswers other (by omega)]
    exact hopen.unborn other hother

theorem lt_of_phase (hopen : peer.Open config) (hphase : (peer.task id).phase ≠ .dropped) :
    id < peer.nextTask :=
  Nat.lt_of_not_le fun hle => hphase (hopen.unborn id hle).1

theorem setPhase_task (peer : Peer) (id : ℕ) (phase : Phase) :
    ((peer.setPhase id phase).task id).phase = phase ∧
      ((peer.setPhase id phase).task id).message = (peer.task id).message ∧
      ∀ other, other ≠ id → (peer.setPhase id phase).task other = peer.task other := by
  refine ⟨?_, ?_, fun other hother => Function.update_of_ne hother _ _⟩
  · simp [setPhase]
  · simp [setPhase]

theorem open_dispatch (hopen : peer.Open config)
    (hanswerable : peer.answerable config (.dispatch id outcomes) = true) :
    (peer.dispatch config id outcomes).Open config := by
  unfold dispatch
  split
  · rename_i hphase
    simp only [answerable, hphase] at hanswerable
    have hlt := lt_of_phase hopen (by rw [hphase]; exact fun h => by cases h)
    have hserving := hopen.serving id hlt
    rw [Serving, hphase] at hserving
    obtain ⟨hnow, hmessage, hothers⟩ := setPhase_task peer id
      (.answering (respond config.handlers (peer.task id).message outcomes))
    refine hopen.of_setPhase hlt ⟨rfl, rfl, rfl, rfl, rfl, rfl, rfl, rfl⟩ hmessage hothers
      (fun _ _ => rfl) ?_
    rw [Serving, hnow, hmessage]
    exact ⟨hserving, ids_respond _ _ _, fun reply hreply => sendable_respond hreply hanswerable⟩
  · exact hopen

theorem open_sendAnswer (hopen : peer.Open config) :
    (peer.sendAnswer config id false).Open config := by
  unfold sendAnswer
  split
  · rename_i hphase
    have hlt := lt_of_phase hopen (by rw [hphase]; exact fun h => by cases h)
    have hserving := hopen.serving id hlt
    rw [Serving, hphase] at hserving
    obtain ⟨hnow, hmessage, hothers⟩ := setPhase_task peer id .answered
    refine hopen.of_setPhase hlt ⟨rfl, rfl, rfl, rfl, rfl, rfl, rfl, rfl⟩ hmessage hothers
      (fun _ _ => rfl) ?_
    rw [Serving, hnow, hmessage]
    exact hserving.1.trans hserving.2.1
  · rename_i answer hphase
    have hlt := lt_of_phase hopen (by rw [hphase]; exact fun h => by cases h)
    have hserving := hopen.serving id hlt
    rw [Serving, hphase] at hserving
    obtain ⟨hnone, hids, hsendable⟩ := hserving
    have hsend : peer.send config (.answer id answer) false =
        some { peer with sent := peer.sent ++ [.answer id answer] } := by
      have hvalue : sendable config.toChannel (Frame.answer id answer).value = true :=
        hsendable answer rfl
      simp [send, hopen.isOpen, hvalue]
    rw [hopen.isOpen, hsend, if_neg Bool.false_ne_true]
    obtain ⟨hnow, hmessage, hothers⟩ :=
      setPhase_task { peer with sent := peer.sent ++ [.answer id answer] } id .answered
    refine hopen.of_setPhase hlt ⟨rfl, rfl, rfl, rfl, rfl, rfl, rfl, rfl⟩ hmessage hothers
      (fun other hother => ?_) ?_
    · show answersOf (peer.sent ++ [.answer id answer]) other = _
      rw [answersOf_append, answersOf_answer, if_neg (Ne.symm hother), append_nil]
    · rw [Serving, hnow, hmessage]
      show answersOf (peer.sent ++ [.answer id answer]) id = _
      rw [answersOf_append, answersOf_answer, if_pos rfl, hnone]
      exact hids
  · exact hopen

/-- A working transport stays open: only an end of input or a failed write closes it, and each
message that is queued for the workers keeps a task. -/
theorem step_open (hopen : peer.Open config) {action : Action} (hworks : action.works = true)
    (hanswerable : peer.answerable config action = true) : (peer.step config action).Open config := by
  cases action with
  | startRequest method params => exact hopen.of_same (sameTasks_startRequest method params)
  | sendRequest id fails => exact hopen.of_same (sameTasks_sendRequest fails)
  | resolve id => exact hopen.of_same sameTasks_resolve
  | timeOut id => exact hopen.of_same sameTasks_timeOut
  | cancel id => exact hopen.of_same sameTasks_cancel
  | leave id => exact hopen.of_same sameTasks_leave
  | notify method params fails => exact hopen.of_same (sameTasks_notify method params fails)
  | receive line fails => exact open_receive hopen hworks hanswerable
  | dispatch id outcomes => exact open_dispatch hopen hanswerable
  | sendAnswer id fails =>
      have hfails : fails = false := by simpa [Action.works] using hworks
      exact hfails ▸ open_sendAnswer hopen
  | deliver raises => exact hopen.of_same (sameTasks_deliver hanswerable)
  | close => cases hworks
  | finishClose =>
      show Open config peer.finishClose
      rw [finishClose, hopen.notClosing]
      exact hopen

/-! ## The contract of replies -/

/-- A message answered so far has had exactly the answer due, and any other none, but
its worker can still send it. -/
structure Replies (config : Config) (peer : Peer) : Prop where
  isOpen : peer.closed = false ∧ peer.reading = true
  handed : (List.range peer.nextTask).map (fun id => (peer.task id).message) =
    peer.received.filter (asksWorker config.handlers)
  answered : ∀ id < peer.nextTask, (peer.task id).phase = .answered →
    answersOf peer.sent id = dueAnswers (peer.task id).message
  unanswered : ∀ id, (peer.task id).phase ≠ .answered → answersOf peer.sent id = []
  progress : ∀ id < peer.nextTask, ∀ outcomes,
    writable config (peer.task id).message outcomes = true →
      let next := (peer.dispatch config id outcomes).sendAnswer config id false
      (next.task id).phase = .answered ∧ next.closed = false

theorem sendAnswer_answered (hopen : peer.Open config) (hlt : id < peer.nextTask)
    (hphase : (peer.task id).phase ≠ .queued) :
    ((peer.sendAnswer config id false).task id).phase = .answered := by
  have hserving := hopen.serving id hlt
  unfold sendAnswer
  rw [Serving] at hserving
  cases htask : (peer.task id).phase with
  | queued => exact absurd htask hphase
  | dropped =>
      rw [htask] at hserving
      exact hserving.elim
  | answered => exact htask
  | answering answer =>
      rw [htask] at hserving
      cases answer with
      | none => exact (setPhase_task peer id .answered).1
      | some answer =>
          have hvalue : sendable config.toChannel (Frame.answer id answer).value = true :=
            hserving.2.2 answer rfl
          simp only [send, hopen.isOpen, hvalue, Bool.not_false, Bool.and_self, if_true,
            Bool.false_eq_true, if_false]
          exact (setPhase_task _ id .answered).1

theorem dispatch_not_queued (outcomes : ℕ → Outcome) :
    ((peer.dispatch config id outcomes).task id).phase ≠ .queued := by
  unfold dispatch
  split
  · rw [(setPhase_task peer id _).1]
    exact fun h => by cases h
  · assumption

theorem dispatch_nextTask (outcomes : ℕ → Outcome) :
    (peer.dispatch config id outcomes).nextTask = peer.nextTask := by
  unfold dispatch
  split <;> rfl

theorem Open.replies (hopen : peer.Open config) : peer.Replies config where
  isOpen := ⟨hopen.isOpen, hopen.reading⟩
  handed := hopen.handed
  answered id hlt hphase := by
    have hserving := hopen.serving id hlt
    rwa [Serving, hphase] at hserving
  unanswered id hphase := by
    by_cases hlt : id < peer.nextTask
    · have hserving := hopen.serving id hlt
      rw [Serving] at hserving
      cases htask : (peer.task id).phase with
      | queued =>
          rw [htask] at hserving
          exact hserving
      | answering _ =>
          rw [htask] at hserving
          exact hserving.1
      | answered => exact absurd htask hphase
      | dropped =>
          rw [htask] at hserving
          exact hserving.elim
    · exact (hopen.unborn id (Nat.le_of_not_lt hlt)).2
  progress id hlt outcomes hwritable := by
    have hdispatch : (peer.dispatch config id outcomes).Open config := by
      refine open_dispatch hopen ?_
      simp only [answerable]
      split
      · exact hwritable
      · rfl
    have hborn : id < (peer.dispatch config id outcomes).nextTask := by
      rwa [dispatch_nextTask]
    exact ⟨sendAnswer_answered hdispatch hborn (dispatch_not_queued outcomes),
      (open_sendAnswer hdispatch).isOpen⟩

/-- While the transport works, every run whose steps are answerable keeps the contract
of replies. -/
theorem run_replies (config : Config) (actions : List Action)
    (hworks : ∀ action ∈ actions, action.works = true)
    (hanswerable : Transition.Meets (step config)
      (fun peer action => peer.answerable config action = true) {} actions) :
    (actions.foldl (step config) {}).Replies config := by
  have hmeets := Transition.Meets.and (Transition.meets_of_forall_mem hworks _) hanswerable
  have hopen := Transition.invariant_foldl (Open config)
    (fun _ _ hopen hstep => step_open hopen hstep.1 hstep.2) (open_new config) hmeets
  exact hopen.replies

/-- A request is served while another one, for a method that does not exist, waits. -/
theorem run_replies_echo :
    let config : Config := plainConfig [lit "echo"]
    let request (id : ℤ) (method : Text) : Json :=
      .obj [(lit "jsonrpc", .str (lit "2.0")), (lit "id", .int id), (lit "method", .str method)]
    let actions : List Action := [.receive (.message (request 7 (lit "echo"))) false,
      .receive (.message (request 8 (lit "other"))) false,
      .dispatch 0 (fun _ => .returned (.foreign (lit "TypeError"))), .sendAnswer 0 false]
    (actions.foldl (step config) {}).Replies config := by
  intro config request actions
  exact run_replies config actions (by decide) (by decide)

/-- A handler raises an error with data that cannot be serialised: the request stays
without a reply and the connection is closed. -/
theorem unserializableData_disconnects :
    let config : Config := plainConfig [lit "echo"]
    let actions : List Action := [
      .receive (.message (.obj [(lit "jsonrpc", .str (lit "2.0")), (lit "id", .int 7),
        (lit "method", .str (lit "echo"))])) false,
      .dispatch 0 (fun _ => .rpcError ⟨.int 1, lit "failed", .foreign (lit "TypeError")⟩),
      .sendAnswer 0 false]
    (∀ action ∈ actions, action.works = true) ∧
      ((actions.foldl (step config) {}).task 0).phase = .dropped ∧
      ¬ (actions.foldl (step config) {}).Replies config := by
  intro config actions
  have hclosed : (actions.foldl (step config) {}).closed = true := rfl
  refine ⟨by decide, rfl, fun hreplies => ?_⟩
  rw [hreplies.isOpen.1] at hclosed
  cases hclosed

end Peer

end ReuleauxCoder.Rpc
