import ReuleauxCoder.Context.Canonical
import ReuleauxCoder.Library.Check

/-!
# What the converters share

Every provider has a converter from the history of the runtime to messages of its own.  The
converters read the same dictionaries and raise where a message is not what they expect.
-/

namespace ReuleauxCoder.Providers

open Check PyText PyJson Context

/-- The exceptions of the converters; those of the language itself carry no text. -/
inductive ProviderError where
  | typeError (message : String)
  | valueError (message : String)
  | keyError (key : String)
  | attributeError
  | notSubscriptable
  | notIterable
  | unhashable
  | badArguments
  | jsonError
  deriving DecidableEq

def providerDataKey : Text := lit "provider_data"

/-- `value[key]`. -/
def subscript (value : Json) (key : String) : Except ProviderError Json :=
  match value with
  | .obj fields =>
      match lookup (lit key) fields with
      | some content => .ok content
      | none => .error (.keyError key)
  | _ => .error .notSubscriptable

/-- `message.get("tool_calls") or ()`, as a loop goes through it. -/
def toolCallsOf (message : Dict) : Except ProviderError (List Json) :=
  if (field message "tool_calls").truthy then
    match listOf (field message "tool_calls") with
    | some calls => .ok calls
    | none => .error .notIterable
  else .ok []

/-- `{"type": type, "text": text}`. -/
def textBlock (type : String) (text : Text) : Json :=
  .obj [(lit "type", .str (lit type)), (lit "text", .str text)]

/-- A content as a list of parts: a text is one part. -/
def contentParts : Json → List Json
  | .str text => [textBlock "text" text]
  | .arr parts => parts
  | _ => []

/-- The part is a dictionary of the given type. -/
def isOfType (type : String) : Json → Bool
  | .obj block => field block "type" = .str (lit type)
  | _ => false

@[simp]
theorem isOfType_textBlock {type kind : String} {text : Text} :
    isOfType type (textBlock kind text) = true ↔ kind = type := by
  simp [isOfType, textBlock, field, lit_inj]

end ReuleauxCoder.Providers
