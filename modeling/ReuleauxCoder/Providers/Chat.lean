import ReuleauxCoder.Context.ProviderMessage
import ReuleauxCoder.Library.JsonText
import ReuleauxCoder.Providers.History

/-!
# The messages of a Chat Completions request

`_chat_messages` sends a history as it is, but a tool result has to be a text there.  The images
of the results of one group follow the group in a message of the user.
-/

namespace ReuleauxCoder.Providers

open Check PyText PyJson Context

/-! ## `ImageReference` -/

def imageFields : List Text :=
  [lit "attachment_id", lit "variant_id", lit "mime_type", lit "width", lit "height",
    lit "size_bytes", lit "original_width", lit "original_height", lit "name", lit "turn_id",
    lit "path"]

/-- The fields without a default. -/
def requiredImageFields : List Text :=
  imageFields.take 8

def isHexDigit (c : CodePoint) : Bool :=
  (lit "0123456789abcdef").contains c

/-- `_HASH.fullmatch(value)`, for a string. -/
def isHash : Json → Bool
  | .str text => text.length = 64 && text.all isHexDigit
  | _ => false

def isImageName : Json → Bool
  | .str text => text.length ≤ 256
  | _ => false

def isImagePath : Json → Bool
  | .str text => text ≠ [] && text.length ≤ 4096 && !text.contains 0
  | _ => false

/-- `type(value) is int and value >= 1`. -/
def isPositive : Json → Bool
  | .int value => 1 ≤ value
  | _ => false

def imageTypes : List String :=
  ["image/png", "image/jpeg", "image/webp"]

def checkImageType : Json → Except ProviderError Unit
  | .arr _ | .obj _ => .error .unhashable
  | mimeType => require (isOneOf imageTypes mimeType) (.valueError "Unsupported image type")

def imageSizes : List String :=
  ["width", "height", "size_bytes", "original_width", "original_height"]

/-- `str(value)` of an integer. -/
def numberText : Json → Text
  | .int value => intText value
  | _ => []

def caption (image : Dict) (name : Json) : Text :=
  let location :=
    if textOf (field image "path") = [] then textOf (field image "attachment_id")
    else textOf (field image "path")
  let source := if textOf (field image "path") = [] then lit "attachment ID" else lit "path"
  let number := fun key : String => numberText (field image key)
  lit "[Image " ++ location ++ lit ": " ++ textOf name ++ lit "; original " ++
    number "original_width" ++ lit "x" ++ number "original_height" ++ lit "; sent " ++
    number "width" ++ lit "x" ++ number "height" ++ lit ", " ++ number "size_bytes" ++
    lit " bytes. For unreadable detail use view_image with this " ++ source ++
    lit " and a region in original, orientation-corrected pixels; " ++
    lit "original availability depends on the image cache.]"

/-- `ImageReference.from_part(part).caption()`. -/
def imageCaption (part : Dict) : Except ProviderError Text := do
  let image := drop (lit "type") part
  let name := (lookup (lit "name") image).getD (.str (lit "image"))
  require (∀ key ∈ image.map Prod.fst, key ∈ imageFields) .badArguments
  require (∀ key ∈ requiredImageFields, key ∈ image.map Prod.fst) .badArguments
  require (isHash (field image "attachment_id") ∧ isHash (field image "variant_id"))
    (.valueError "Invalid image reference")
  require (isImageName name ∧ isOptional isText (field image "turn_id"))
    (.valueError "Invalid image name or turn")
  require (isOptional isImagePath (field image "path")) (.valueError "Invalid image path")
  checkImageType (field image "mime_type")
  require (∀ key ∈ imageSizes, isPositive (field image key))
    (.valueError "Invalid image dimensions or size")
  return caption image name

/-! ## `content_text` -/

def imageNotice : Text :=
  lit "[Image content; not included in this text projection]"

section Chat

variable (builtins : Builtins)

/-- `str(part.get(key, ""))`, as a format string writes it too. -/
def shownField (fields : Dict) (key : String) : Text :=
  match lookup (lit key) fields with
  | none => []
  | some (.str text) => text
  | some value => builtins.str value

/-- What a part adds to the text of a content. -/
def partText : Json → Except ProviderError (Option Text)
  | .obj part =>
      match field part "type" with
      | .str type =>
          if type = lit "text" then .ok (some (shownField builtins part "text"))
          else if type = lit "image" then (imageCaption part).map some
          else if type = lit "image_url" ∨ type = lit "input_image" then .ok (some imageNotice)
          else .ok none
      | .arr _ | .obj _ => .error .unhashable
      | _ => .ok none
  | _ => .ok none

def contentText : Json → Except ProviderError Text
  | .str text => .ok text
  | .arr parts => do
      let texts ← parts.mapM (partText builtins)
      return List.intercalate (lit "\n") texts.reduceOption
  | _ => .ok []

/-! ## `_chat_messages` -/

/-- `[part for part in content if part.get("type") == "image_url"]`. -/
def chatImages (content : List Json) : Except ProviderError (List Json) :=
  if content.all isObject then .ok (content.filter (isOfType "image_url"))
  else .error .attributeError

def imageLabel (item : Dict) : Json :=
  textBlock "text" (lit "Images returned by tool call " ++
    shownField builtins item "tool_call_id" ++ lit ":")

def mediaMessage (media : List Json) : Json :=
  .obj [(lit "role", .str (lit "user")), (lit "content", .arr media)]

/-- The message that carries the images of a group, if there are any. -/
def flush (media : List Json) : List Json :=
  if media = [] then [] else [mediaMessage media]

/-- The variables of the loop. -/
structure ChatState where
  messages : List Json := []
  media : List Json := []

/-- A tool result with a list of parts. -/
def chatResult (state : ChatState) (item : Dict) (content : List Json) :
    Except ProviderError ChatState := do
  let images ← chatImages content
  let text ← contentText builtins (.arr content)
  return {
    messages := state.messages ++ [.obj (store (lit "content") (.str text) item)]
    media :=
      if images = [] then state.media else state.media ++ imageLabel builtins item :: images }

def chatMessage (state : ChatState) : Json → Except ProviderError ChatState
  | .obj message =>
      let item := drop providerDataKey message
      if field message "role" = .str (lit "tool") then
        match field item "content" with
        | .arr content => chatResult builtins state item content
        | _ => .ok { state with messages := state.messages ++ [.obj item] }
      else
        .ok { messages := state.messages ++ flush state.media ++ [.obj item], media := [] }
  | _ => .error .attributeError

def chatMessages (source : List Json) : Except ProviderError (List Json) := do
  let state ← source.foldlM (chatMessage builtins) {}
  return state.messages ++ flush state.media

end Chat

end ReuleauxCoder.Providers
