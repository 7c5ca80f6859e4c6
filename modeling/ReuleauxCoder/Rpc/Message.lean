import ReuleauxCoder.Library.JsonText
import ReuleauxCoder.Library.LineBreaks

/-!
# JSON-RPC messages

How a request becomes a reply: what `_dispatch` refuses, what `_invoke` makes of
a handler's outcome, and what `json.dumps` and the transport accept.  A handler
may return any Python value and an `RpcError` may carry any code and data, so
replies are Python values here and become JSON only when they are sent.
-/

namespace ReuleauxCoder.Rpc

open PyText PyJson

/-! ## Python values -/

/-- A dictionary key; `foreign` is one that `json.dumps` refuses. -/
inductive PyKey where
  | null
  | bool (value : Bool)
  | int (value : ℤ)
  | float (value : PyJson.Float)
  | str (value : Text)
  | foreign
  deriving DecidableEq

/-- A Python value; `foreign` is one for which `json.dumps` raises the exception
named.  Tuples are lists here, as for `json.dumps`. -/
inductive PyValue where
  | null
  | bool (value : Bool)
  | int (value : ℤ)
  | float (value : PyJson.Float)
  | str (value : Text)
  | list (items : List PyValue)
  | dict (fields : List (PyKey × PyValue))
  | foreign (errorType : Text)

/-- The text that `json.dumps(..., allow_nan=False)` writes for a key. -/
def encodeKey : PyKey → Except Text Text
  | .null => .ok (lit "null")
  | .bool value => .ok (if value then lit "true" else lit "false")
  | .int value => .ok (intText value)
  | .float value => if value.isFinite then .ok (floatText value) else .error (lit "ValueError")
  | .str value => .ok value
  | .foreign => .error (lit "TypeError")

mutual

/-- The document that `json.dumps(value, allow_nan=False)` writes, or the type of
the exception that it raises. -/
def encode : PyValue → Except Text Json
  | .null => .ok .null
  | .bool value => .ok (.bool value)
  | .int value => .ok (.int value)
  | .float value => if value.isFinite then .ok (.float value) else .error (lit "ValueError")
  | .str value => .ok (.str value)
  | .list items => do return .arr (← encodeItems items)
  | .dict fields => do return .obj (← encodeFields fields)
  | .foreign errorType => .error errorType

def encodeItems : List PyValue → Except Text (List Json)
  | [] => .ok []
  | item :: rest => do return (← encode item) :: (← encodeItems rest)

def encodeFields : List (PyKey × PyValue) → Except Text (List (Text × Json))
  | [] => .ok []
  | (key, value) :: rest => do
      return ((← encodeKey key), (← encode value)) :: (← encodeFields rest)

end

mutual

/-- The value that `json.loads` made. -/
def ofJson : Json → PyValue
  | .null => .null
  | .bool value => .bool value
  | .int value => .int value
  | .float value => .float value
  | .str value => .str value
  | .arr items => .list (ofJsonItems items)
  | .obj fields => .dict (ofJsonFields fields)

def ofJsonItems : List Json → List PyValue
  | [] => []
  | item :: rest => ofJson item :: ofJsonItems rest

def ofJsonFields : List (Text × Json) → List (PyKey × PyValue)
  | [] => []
  | (key, value) :: rest => (.str key, ofJson value) :: ofJsonFields rest

end

/-- Python truth. -/
def PyValue.truthy : PyValue → Bool
  | .null => false
  | .bool value => value
  | .int value => value ≠ 0
  | .float value => (Json.float value).truthy
  | .str value => value ≠ []
  | .list items => !items.isEmpty
  | .dict fields => !fields.isEmpty
  | .foreign _ => true

/-- A dictionary with literal keys. -/
def record (fields : List (String × PyValue)) : PyValue :=
  .dict (fields.map fun field => (.str (lit field.1), field.2))

/-! ## Replies -/

structure RpcError where
  code : PyValue
  message : Text
  data : PyValue := .null

inductive Body where
  | result (value : PyValue)
  | error (error : RpcError)

structure Reply where
  id : Json
  body : Body

def Reply.value (reply : Reply) : PyValue :=
  match reply.body with
  | .result value =>
      record [("jsonrpc", .str (lit "2.0")), ("id", ofJson reply.id), ("result", value)]
  | .error error =>
      record [("jsonrpc", .str (lit "2.0")), ("id", ofJson reply.id),
        ("error", record [("code", error.code), ("message", .str error.message),
          ("data", error.data)])]

def parseError : RpcError := ⟨.int (-32700), lit "Parse error", .null⟩
def invalidRequest : RpcError := ⟨.int (-32600), lit "Invalid Request", .null⟩
def methodNotFound : RpcError := ⟨.int (-32601), lit "Method not found", .null⟩
def invalidParams : RpcError := ⟨.int (-32602), lit "Invalid params", .null⟩

def internalError (errorType : Text) : RpcError :=
  ⟨.int (-32603), lit "Internal error", record [("error_type", .str errorType)]⟩

/-! ## Handlers -/

/-- What a handler did; `raised` is any exception other than `RpcError`. -/
inductive Outcome where
  | returned (value : PyValue)
  | rpcError (error : RpcError)
  | raised (errorType : Text)

/-- `binds` tells whether the signature of a method takes the parameters, and `tooDeep`
whether `json.dumps` raises `RecursionError` on a result. -/
structure Handlers where
  methods : List Text
  notifications : List Text
  binds : Text → Json → Bool
  tooDeep : PyValue → Bool

def bindable : Json → Bool
  | .obj _ | .arr _ => true
  | _ => false

/-- The result or error with which `_invoke` answers. -/
def invokeBody (handlers : Handlers) (method : Text) (params : Json) (outcome : Outcome) : Body :=
  if method ∉ handlers.methods then .error methodNotFound
  else if !(bindable params && handlers.binds method params) then .error invalidParams
  else
    match outcome with
    | .returned value =>
        if handlers.tooDeep value then .error (internalError (lit "RecursionError"))
        else
          match encode value with
          | .ok _ => .result value
          | .error errorType => .error (internalError errorType)
    | .rpcError error => .error error
    | .raised errorType => .error (internalError errorType)

/-- `_invoke`; a message without an id is a notification and gets no reply. -/
def invoke (handlers : Handlers) (fields : List (Text × Json)) (method : Text)
    (outcome : Outcome) : Option Reply :=
  (lookup (lit "id") fields).map fun id =>
    { id
      body := invokeBody handlers method ((lookup (lit "params") fields).getD (.obj [])) outcome }

/-- `"id" in message` and the id is neither `None` nor exactly a `str` or an `int`. -/
def refusedId (fields : List (Text × Json)) : Bool :=
  match lookup (lit "id") fields with
  | none | some .null | some (.str _) | some (.int _) => false
  | some _ => true

/-- `_dispatch`. -/
def dispatch (handlers : Handlers) (message : Json) (outcome : Outcome) : Option Reply :=
  match message with
  | .obj fields =>
      if lookup (lit "jsonrpc") fields ≠ some (.str (lit "2.0")) then
        some ⟨.null, .error invalidRequest⟩
      else
        match lookup (lit "method") fields with
        | some (.str method) =>
            if refusedId fields then some ⟨.null, .error invalidRequest⟩
            else invoke handlers fields method outcome
        | _ => some ⟨.null, .error invalidRequest⟩
  | _ => some ⟨.null, .error invalidRequest⟩

/-- What `_respond` sends: one reply, or the replies to a batch. -/
inductive Answer where
  | single (reply : Reply)
  | batch (replies : List Reply)

def Answer.replies : Answer → List Reply
  | .single reply => [reply]
  | .batch replies => replies

def Answer.value : Answer → PyValue
  | .single reply => reply.value
  | .batch replies => .list (replies.map Reply.value)

/-- The response that `_respond` computes; `outcomes` are those of the handlers of
a batch, by position. -/
def respond (handlers : Handlers) (message : Json) (outcomes : ℕ → Outcome) : Option Answer :=
  match message with
  | .arr (entry :: rest) =>
      let replies := (entry :: rest).zipIdx.filterMap fun item =>
        dispatch handlers item.1 (outcomes item.2)
      if replies = [] then none else some (.batch replies)
  | message => (dispatch handlers message (outcomes 0)).map .single

/-! ## Frames -/

inductive Transport where
  | memory
  | stream
  deriving DecidableEq

def maxMessageBytes : ℕ := 16 * 1024 * 1024

/-- Whether `send` of the transport takes the text. -/
def Transport.accepts : Transport → Text → Bool
  | .memory, _ => true
  | .stream, text =>
      utf8Encodable text && lineFeed ∉ text && decide (utf8Size text ≤ maxMessageBytes)

/-- What a message is written through.  `writes` tells which documents `json.dumps` writes
before it raises `RecursionError`. -/
structure Channel where
  transport : Transport
  writes : Json → Bool

/-- The compact text that `_send` hands to the transport. -/
def frameText (channel : Channel) (value : PyValue) : Option Text :=
  match encode value with
  | .ok document => if channel.writes document then some (dumps compact document) else none
  | .error _ => none

/-- `_send` gets the value past `json.dumps` and the transport's own checks. -/
def sendable (channel : Channel) (value : PyValue) : Bool :=
  (frameText channel value).any channel.transport.accepts

end ReuleauxCoder.Rpc
