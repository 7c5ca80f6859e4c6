import ReuleauxCoder.Library.JsonText
import ReuleauxCoder.Library.Occurrences
import ReuleauxCoder.Providers.Content

/-!
# The messages of an Anthropic request

`_anthropic_messages` takes the system messages out of a history, and turns tool results into
blocks of the user.  Messages of one role that meet are merged.
-/

namespace ReuleauxCoder.Providers

open Check PyText PyJson Context

/-! ## `_content_blocks` -/

/-- `text.split(separator, 1)`, where the separator occurs. -/
def splitOnce (separator text : Text) : Option (Text × Text) :=
  (Occurrences.find? (· == ·) separator text).map fun place =>
    (text.take place, text.drop (place + separator.length))

def dataHead : Text := lit "data:"

def base64Mark : Text := lit ";base64,"

def imageBlock (mediaType data : Text) : Json :=
  .obj [(lit "type", .str (lit "image")),
    (lit "source", .obj [(lit "type", .str (lit "base64")), (lit "media_type", .str mediaType),
      (lit "data", .str data)])]

def notBase64 : ProviderError :=
  .typeError "Anthropic image content must be a base64 data URL"

def base64Block : Json → Except ProviderError Json
  | .str url =>
      if dataHead <+: url ∧ (Occurrences.find? (· == ·) base64Mark url).isSome then
        match splitOnce base64Mark (url.drop 5) with
        | some (mediaType, data) => .ok (imageBlock mediaType data)
        | none => .error (.valueError "not enough values to unpack (expected 2, got 1)")
      else .error notBase64
  | _ => .error notBase64

def anthropicBlock : Json → Except ProviderError Json
  | .obj block =>
      if field block "type" = .str (lit "image_url") then do
        let image ← subscript (.obj block) "image_url"
        let url ← subscript image "url"
        base64Block url
      else if field block "type" = .str (lit "text") then
        match field block "text" with
        | .str text => .ok (textBlock "text" text)
        | _ => .error (.typeError "anthropic text content must be a string")
      else .error (.typeError "Unsupported anthropic content block")
  | _ => .error (.typeError "Unsupported anthropic content block")

def anthropicParts : Json → Except ProviderError (List Json)
  | .str text => .ok (if text = [] then [] else [textBlock "text" text])
  | .arr content => content.mapM anthropicBlock
  | .null => .ok []
  | _ => .error (.typeError "anthropic message content must be text")

/-- `function.get("arguments", {})`, read where it is a text. -/
def rawInput (function : Dict) : Except ProviderError Json :=
  match (lookup (lit "arguments") function).getD (.obj []) with
  | .str text =>
      match loads text with
      | some input => .ok input
      | none => .error .jsonError
  | input => .ok input

def toolUse (id name : Text) (input : Json) : Json :=
  .obj [(lit "type", .str (lit "tool_use")), (lit "id", .str id), (lit "name", .str name),
    (lit "input", input)]

def toolResult (id : Text) (content : Json) : Json :=
  .obj [(lit "type", .str (lit "tool_result")), (lit "tool_use_id", .str id),
    (lit "content", content)]

section Messages

variable (builtins : Builtins)

def anthropicCall : Json → Except ProviderError Json
  | .obj call =>
      match field call "function" with
      | .obj function =>
          match rawInput function with
          | .ok (.obj input) =>
              .ok (toolUse (builtins.strOr (field call "id") [])
                (builtins.strOr (field function "name") []) (.obj input))
          | .ok _ => .error (.typeError "anthropic tool input must be an object")
          | .error error => .error error
      | _ => .error (.typeError "anthropic tool function must be an object")
  | _ => .error (.typeError "anthropic tool call must be an object")

/-- The blocks of the calls; only those of an assistant message are read. -/
def callBlocks (message : Dict) : Except ProviderError (List Json) :=
  if field message "role" = .str (lit "assistant") then do
    let calls ← toolCallsOf message
    calls.mapM (anthropicCall builtins)
  else .ok []

def contentBlocks (message : Dict) : Except ProviderError (List Json) := do
  let blocks ← anthropicParts (field message "content")
  let uses ← callBlocks builtins message
  return blocks ++ uses

structure NativeMessage where
  role : Text
  content : List Json

def mergeMessage (messages : List NativeMessage) (role : Text) (blocks : List Json) :
    List NativeMessage :=
  match messages.getLast? with
  | some last =>
      if last.role = role then
        messages.dropLast ++ [{ last with content := last.content ++ blocks }]
      else messages ++ [{ role, content := blocks }]
  | none => messages ++ [{ role, content := blocks }]

/-! ## `_anthropic_messages` -/

/-- The variables of the loop. -/
structure AnthropicState where
  systemParts : List Text := []
  messages : List NativeMessage := []

/-- The content of a tool result: its text, or its blocks. -/
def resultContent (message : Dict) : Except ProviderError Json :=
  match field message "content" with
  | .str text => .ok (.str text)
  | _ => do return .arr (← contentBlocks builtins message)

def emptyText : Json := textBlock "text" []

def convertNative (state : AnthropicState) : Json → Except ProviderError AnthropicState
  | .obj message =>
      match field message "role" with
      | .str role =>
          if role = lit "system" then
            match field message "content" with
            | .str content => .ok { state with systemParts := state.systemParts ++ [content] }
            | _ => .error (.typeError "anthropic system message must be text")
          else if role = lit "tool" then do
            let content ← resultContent builtins message
            let result := toolResult (builtins.strOr (field message "tool_call_id") []) content
            return { state with messages := mergeMessage state.messages (lit "user") [result] }
          else if role = lit "user" ∨ role = lit "assistant" then do
            let blocks ← contentBlocks builtins message
            return { state with
              messages := mergeMessage state.messages role
                (if blocks = [] then [emptyText] else blocks) }
          else .error (.typeError "anthropic message role is unsupported")
      | .arr _ | .obj _ => .error .unhashable
      | _ => .error (.typeError "anthropic message role is unsupported")
  | _ => .error (.typeError "anthropic message must be an object")

/-- `"\n\n".join(system_parts) or None`. -/
def systemText (parts : List Text) : Option Text :=
  let joined := List.intercalate (lit "\n\n") parts
  if joined = [] then none else some joined

def anthropicMessages (source : List Json) :
    Except ProviderError (Option Text × List NativeMessage) := do
  let state ← source.foldlM (convertNative builtins) {}
  return (systemText state.systemParts, state.messages)

end Messages

end ReuleauxCoder.Providers
