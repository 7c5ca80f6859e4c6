import ReuleauxCoder.Library.Exchanges
import ReuleauxCoder.Providers.Content

/-!
# What a history says

The converters have to pass on what a history says: its texts and images, the calls of the
assistant and their results.  A history is valid when each message with calls is followed by the
results of just these calls.
-/

namespace ReuleauxCoder.Providers

open PyText PyJson Context Exchanges

/-! ## Pieces -/

inductive Part where
  | text (text : Text)
  | image (url : Json)

/-- A piece of a history; `none` stands for a part that is neither text nor image. -/
inductive Piece where
  | part (part : Option Part)
  | call (id name : Text) (arguments : Json)
  | result (id : Text) (parts : List (Option Part))

/-- A part of a message, as the runtime writes it. -/
def partOf : Json → Option Part
  | .obj part =>
      if field part "type" = .str (lit "text") then
        match field part "text" with
        | .str text => some (.text text)
        | _ => none
      else if field part "type" = .str (lit "image_url") then
        some (.image ((field part "image_url").getD (lit "url")))
      else none
  | _ => none

def partsOf (content : Json) : List (Option Part) :=
  (contentParts content).map partOf

/-! ## Messages -/

def textOf : Json → Text
  | .str text => text
  | _ => []

def roleOf : Json → Json
  | .obj message => field message "role"
  | _ => .null

def isTool (message : Json) : Bool :=
  roleOf message = .str (lit "tool")

/-- The calls of a message that is no tool result. -/
def callsOf : Json → List Json
  | .obj message =>
      match toolCallsOf message with
      | .ok calls => if field message "role" = .str (lit "tool") then [] else calls
      | .error _ => []
  | _ => []

section Ids

variable (builtins : Builtins)

def callId (call : Json) : Text :=
  builtins.strOr (call.getD (lit "id")) []

def toolCallId (message : Json) : Text :=
  builtins.strOr (message.getD (lit "tool_call_id")) []

def callPiece (call : Json) : Piece :=
  .call (callId builtins call) (builtins.strOr ((call.getD (lit "function")).getD (lit "name")) [])
    ((call.getD (lit "function")).getD (lit "arguments"))

/-- What a message says, in its order. -/
def messagePieces (message : Json) : List Piece :=
  if isTool message then
    [.result (toolCallId builtins message) (partsOf (message.getD (lit "content")))]
  else
    (partsOf (message.getD (lit "content"))).map .part ++
      (callsOf message).map (callPiece builtins)

/-- A message makes all its calls; a tool message answers one. -/
def messageProtocol : Protocol Json Text where
  calls message := (callsOf message).map (callId builtins)
  answer message := if isTool message then some (toolCallId builtins message) else none

/-- Only the assistant makes calls, and its message is followed by the results of just its
calls; `strays` tells whether there may be tool messages without a call. -/
structure ValidHistory (strays : Prop) (messages : List Json) : Prop where
  callers : ∀ message ∈ messages, callsOf message ≠ [] → roleOf message = .str (lit "assistant")
  answered : Answered (messageProtocol builtins) False strays messages

end Ids

section Messages

variable {builtins : Builtins}

theorem getD_obj (fields : Dict) (key : String) :
    (Json.obj fields).getD (lit key) = field fields key := rfl

theorem callsOf_tool {message : Json} (htool : isTool message = true) : callsOf message = [] := by
  cases message with
  | obj fields =>
      rw [callsOf]
      cases toolCallsOf fields with
      | ok calls => exact if_pos (of_decide_eq_true htool)
      | error error => rfl
  | _ => rfl

theorem callsOf_of_ok {message : Dict} {calls : List Json}
    (htool : field message "role" ≠ .str (lit "tool")) (hcalls : toolCallsOf message = .ok calls) :
    callsOf (.obj message) = calls := by
  rw [callsOf, hcalls]
  exact if_neg htool

theorem answer_of_not_isTool {message : Json} (htool : ¬ isTool message = true) :
    (messageProtocol builtins).answer message = none :=
  if_neg htool

theorem answer_of_isTool {message : Json} (htool : isTool message = true) :
    (messageProtocol builtins).answer message = some (toolCallId builtins message) :=
  if_pos htool

theorem isTool_of_answer {message : Json}
    (hanswer : (messageProtocol builtins).answer message ≠ none) : isTool message = true := by
  by_contra htool
  exact hanswer (answer_of_not_isTool htool)

theorem calls_eq_nil_iff {message : Json} :
    (messageProtocol builtins).calls message = [] ↔ callsOf message = [] :=
  List.map_eq_nil_iff

end Messages

end ReuleauxCoder.Providers
