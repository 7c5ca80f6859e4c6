import ReuleauxCoder.Library.Check
import ReuleauxCoder.Library.Json

/-!
# Provider messages

The structural checks a persisted chat message has to pass before the runtime
hands it to a provider: `_validate_json_value` and `validate_provider_message`.
-/

namespace ReuleauxCoder.Context

open Check PyText PyJson

/-! ## Shapes of JSON values -/

def isText : Json → Bool
  | .str _ => true
  | _ => false

/-- A string that is not empty. -/
def isFilledText : Json → Bool
  | .str text => text ≠ []
  | _ => false

def isList : Json → Bool
  | .arr _ => true
  | _ => false

def isObject : Json → Bool
  | .obj _ => true
  | _ => false

/-- `value is None or test(value)`. -/
def isOptional (test : Json → Bool) (value : Json) : Bool :=
  value = .null || test value

/-- A list all of whose elements pass a test. -/
def isListOf (test : Json → Bool) : Json → Bool
  | .arr items => items.all test
  | _ => false

/-- Membership of a value in a set of string constants. -/
def isOneOf (texts : List String) : Json → Bool
  | .str text => texts.any fun candidate => text = lit candidate
  | _ => false

/-! ## `_validate_json_value` -/

mutual

def validateJsonValue : Json → ℕ → Except String Unit
  | .null, depth | .bool _, depth | .int _, depth | .str _, depth =>
      require (depth ≤ 32) "provider value nesting is too deep"
  | .float value, depth => do
      require (depth ≤ 32) "provider value nesting is too deep"
      require value.isFinite "provider value contains a non-finite number"
  | .arr items, depth =>
      if 32 < depth then .error "provider value nesting is too deep"
      else validateJsonItems items (depth + 1)
  | .obj fields, depth =>
      if 32 < depth then .error "provider value nesting is too deep"
      else validateJsonFields fields (depth + 1)

def validateJsonItems : List Json → ℕ → Except String Unit
  | [], _ => .ok ()
  | item :: rest, depth => do
      validateJsonValue item depth
      validateJsonItems rest depth

def validateJsonFields : List (Text × Json) → ℕ → Except String Unit
  | [], _ => .ok ()
  | (_, value) :: rest, depth => do
      validateJsonValue value depth
      validateJsonFields rest depth

end

/-! ## `validate_provider_message` -/

def providerMessageRoles : List String :=
  ["system", "developer", "user", "assistant", "tool"]

def validateContentPart (part : Json) : Except String Unit :=
  match part with
  | .obj fields => do
      require (isFilledText (field fields "type")) "provider content part type is invalid"
      require (isOneOf ["text", "input_text", "output_text"] (field fields "type") →
        isText (field fields "text")) "provider text content is invalid"
      validateJsonValue part 0
  | _ => .error "provider content part must be an object"

def validateFunctionCall (function : Json) : Bool :=
  match function with
  | .obj fields => isFilledText (field fields "name") && isText (field fields "arguments")
  | _ => false

def validateToolCall (call : Json) : Except String Unit :=
  match call with
  | .obj fields => do
      require (isFilledText (field fields "id") ∧
        (lookup (lit "type") fields).getD (.str (lit "function")) = .str (lit "function") ∧
        validateFunctionCall (field fields "function"))
        "provider function tool call is invalid"
      validateJsonValue call 0
  | _ => .error "provider tool call must be an object"

def validateContent (content : Json) : Except String Unit :=
  match content with
  | .arr parts => forEach validateContentPart parts
  | _ => .ok ()

def validateToolCalls (role toolCalls : Json) : Except String Unit :=
  match toolCalls with
  | .null => .ok ()
  | .arr calls => do
      require (role = .str (lit "assistant")) "provider tool_calls is invalid"
      forEach validateToolCall calls
  | _ => .error "provider tool_calls is invalid"

def validateProviderMessage (message : Json) : Except String Unit :=
  match message with
  | .obj fields => do
      let role := field fields "role"
      let content := field fields "content"
      require (isOneOf providerMessageRoles role) "provider message role is invalid"
      require (lookup (lit "content") fields ≠ none) "provider message content is missing"
      require (content = .null ∨ isText content ∨ isList content)
        "provider message content is invalid"
      require (content = .null → role = .str (lit "assistant"))
        "only assistant content may be null"
      validateContent content
      require (isOptional isFilledText (field fields "tool_call_id"))
        "provider tool_call_id is invalid"
      require (role = .str (lit "tool") → isText (field fields "tool_call_id"))
        "tool message requires tool_call_id"
      require (isOptional isFilledText (field fields "name")) "provider message name is invalid"
      validateToolCalls role (field fields "tool_calls")
      validateJsonValue message 0
  | _ => .error "provider message must be an object"

end ReuleauxCoder.Context
