import ReuleauxCoder.Library.Binary64
import ReuleauxCoder.Library.LineBreaks
import ReuleauxCoder.Library.Json

/-!
# Pages of a text file

The local workspace pages a text in pieces, as `splitlines(keepends=True)` cuts what the
stream hands out; the remote peer goes through it character by character.  The host
checks the shape of a page that a peer sent.
-/

namespace ReuleauxCoder.Workspace

open PyText PyJson

/-- `WorkspaceTextPage`; `totalLines` is known where the end of the file was reached. -/
structure TextPage where
  lines : List Text
  totalLines : Option ℕ
  hasMore : Bool
  truncated : Bool
  deriving DecidableEq

structure PageLimits where
  offset : ℕ
  limit : ℕ
  maxChars : ℕ

/-! ## The local reader -/

/-- `text.splitlines(keepends=True)`, where `line` is read already. -/
def keepLinesFrom (line : Text) : Text → List Text
  | [] => if line = [] then [] else [line]
  | [c] => [line ++ [c]]
  | c :: d :: rest =>
      if c = carriageReturn ∧ d = lineFeed then (line ++ [c, d]) :: keepLinesFrom [] rest
      else if isLineBreak c then (line ++ [c]) :: keepLinesFrom [] (d :: rest)
      else keepLinesFrom (line ++ [c]) (d :: rest)

/-- The variables of `read_text_page`. -/
structure PieceReader where
  lines : List Text := []
  pieces : List Text := []
  lineNumber : ℕ := 1
  lineHasText : Bool := false
  skipLf : Bool := false
  kept : ℕ := 0

namespace PieceReader

/-- The text of a piece without its line end. -/
def bodyOf (piece : Text) : Text :=
  if [carriageReturn, lineFeed].isSuffixOf piece then piece.take (piece.length - 2)
  else if piece.getLast?.any isLineBreak then piece.dropLast
  else piece

/-- One piece; an error is an early return. -/
def readPiece (limits : PageLimits) (reader : PieceReader) (piece : Text) :
    Except TextPage PieceReader :=
  let piece := if reader.skipLf && [lineFeed].isPrefixOf piece then piece.drop 1 else piece
  let reader := { reader with skipLf := false }
  if piece = [] then .ok reader
  else if limits.offset + limits.limit ≤ reader.lineNumber then
    .error ⟨reader.lines, none, true, false⟩
  else
    let ended := piece.getLast?.any isLineBreak
    let body := bodyOf piece
    let reader :=
      { reader with
        skipLf := [carriageReturn].isSuffixOf piece
        lineHasText := reader.lineHasText || !body.isEmpty }
    do
      let reader ←
        if limits.offset ≤ reader.lineNumber then
          let kept :=
            if reader.pieces = [] ∧ reader.lines ≠ [] then reader.kept + 1 else reader.kept
          if reader.pieces = [] ∧ reader.lines ≠ [] ∧ limits.maxChars < kept then
            .error ⟨reader.lines, none, true, true⟩
          else
            let remaining := limits.maxChars - kept
            let pieces := reader.pieces ++ [body.take remaining]
            if remaining < body.length then
              .error ⟨reader.lines ++ [pieces.flatten], none, true, true⟩
            else .ok { reader with pieces, kept := kept + min remaining body.length }
        else .ok reader
      if ended then
        let reader :=
          if limits.offset ≤ reader.lineNumber then
            { reader with lines := reader.lines ++ [reader.pieces.flatten], pieces := [] }
          else reader
        return { reader with lineNumber := reader.lineNumber + 1, lineHasText := false }
      else return reader

/-- After the last piece. -/
def finish (limits : PageLimits) (reader : PieceReader) : TextPage where
  lines :=
    if reader.lineHasText && decide (limits.offset ≤ reader.lineNumber) then
      reader.lines ++ [reader.pieces.flatten]
    else reader.lines
  totalLines := some (reader.lineNumber - 1 + reader.lineHasText.toNat)
  hasMore := false
  truncated := false

end PieceReader

/-- What an early return or the end of a loop makes. -/
def pageOf {State : Type*} (finish : State → TextPage) : Except TextPage State → TextPage
  | .error page => page
  | .ok reader => finish reader

/-- `read_text_page` on what the stream hands out; an empty chunk ends it. -/
def readLocalPage (limits : PageLimits) (chunks : List Text) : TextPage :=
  pageOf (PieceReader.finish limits) <|
    (chunks.takeWhile fun chunk => !chunk.isEmpty).foldlM
      (fun reader chunk => (keepLinesFrom [] chunk).foldlM (PieceReader.readPiece limits) reader) {}

/-! ## The peer's reader -/

/-- The variables of `readTextPage`. -/
structure RuneReader where
  lines : List Text := []
  current : Text := []
  line : ℕ := 1
  kept : ℕ := 0
  lineHasText : Bool := false
  skipLF : Bool := false
  selectedStarted : Bool := false

namespace RuneReader

/-- The loop up to the character itself: the limit, and the separator of a new line. -/
def openLine (limits : PageLimits) (reader : RuneReader) : Except TextPage RuneReader :=
  if limits.offset ≤ reader.line ∧ limits.limit ≤ reader.line - limits.offset then
    .error ⟨reader.lines, none, true, false⟩
  else if limits.offset ≤ reader.line then
    if !reader.selectedStarted && !reader.lines.isEmpty then
      if limits.maxChars < reader.kept + 1 then .error ⟨reader.lines, none, true, true⟩
      else .ok { reader with kept := reader.kept + 1, selectedStarted := true }
    else .ok { reader with selectedStarted := true }
  else .ok reader

/-- The rest of the loop. -/
def putRune (limits : PageLimits) (reader : RuneReader) (character : CodePoint) :
    Except TextPage RuneReader :=
  if isLineBreak character then
    let reader := { reader with skipLF := character = carriageReturn }
    let reader :=
      if limits.offset ≤ reader.line then
        { reader with lines := reader.lines ++ [reader.current], current := [] }
      else reader
    .ok { reader with line := reader.line + 1, lineHasText := false, selectedStarted := false }
  else
    let reader := { reader with skipLF := false, lineHasText := true }
    if limits.offset ≤ reader.line then
      if limits.maxChars ≤ reader.kept then
        .error ⟨reader.lines ++ [reader.current], none, true, true⟩
      else .ok { reader with current := reader.current ++ [character], kept := reader.kept + 1 }
    else .ok reader

def readRune (limits : PageLimits) (reader : RuneReader) (character : CodePoint) :
    Except TextPage RuneReader :=
  if reader.skipLF && character = lineFeed then .ok { reader with skipLF := false }
  else do putRune limits (← openLine limits { reader with skipLF := false }) character

/-- At the end of the file. -/
def finish (limits : PageLimits) (reader : RuneReader) : TextPage where
  lines :=
    if reader.lineHasText && decide (limits.offset ≤ reader.line) then
      reader.lines ++ [reader.current]
    else reader.lines
  totalLines := some (reader.line - 1 + reader.lineHasText.toNat)
  hasMore := false
  truncated := false

end RuneReader

/-- The loop of `readTextPage`. -/
def readRunes (limits : PageLimits) (text : Text) : TextPage :=
  pageOf (RuneReader.finish limits) (text.foldlM (RuneReader.readRune limits) {})

/-- An argument as the peer decodes it: a float that is whole, one with a fraction, or no
number. -/
inductive Argument where
  | whole (value : ℤ)
  | fraction (truncated : ℤ)
  | other

/-- A whole number that the host sends; as JSON it reaches the peer as a `float64`. -/
def Argument.sent (value : ℕ) : Argument :=
  .whole (Binary64.ofNat value)

/-- `int(value)` of a whole float.  Out of range the conversion is up to the machine; this is
what amd64 makes of it. -/
def toInt (value : ℤ) : ℤ :=
  if -2 ^ 63 ≤ value ∧ value < 2 ^ 63 then value else -2 ^ 63

def intArg (fallback : ℤ) : Option Argument → ℤ
  | some (.whole value) => toInt value
  | some (.fraction truncated) => truncated
  | some .other | none => fallback

/-- An argument that is there is a positive integer; a whole float in range is its own `int`. -/
def validArg : Option Argument → Bool
  | none => true
  | some (.whole value) => 1 ≤ toInt value
  | some (.fraction _) | some .other => false

/-- A file that the peer may be asked for. -/
inductive PageFile where
  | missing
  | irregular
  | regular (content : Text)

structure PageFailure where
  code : Text
  message : Text

structure PageArguments where
  offset : Option Argument := none
  limit : Option Argument := none
  maxChars : Option Argument := none

/-- `readTextPage` on a file whose bytes are valid UTF-8. -/
def readTextPage (display : Text) (arguments : PageArguments) (file : PageFile) :
    Except PageFailure TextPage :=
  if validArg arguments.offset && validArg arguments.limit && validArg arguments.maxChars then
    match file with
    | .missing => .error ⟨lit "not_found", display ++ lit " not found"⟩
    | .irregular => .error ⟨lit "not_a_file", display ++ lit " is not a file"⟩
    | .regular content =>
        .ok (readRunes
          { offset := (intArg 1 arguments.offset).toNat
            limit := (intArg 2000 arguments.limit).toNat
            maxChars := (intArg (256 * 1024) arguments.maxChars).toNat } content)
  else .error ⟨lit "invalid_path", lit "page limits must be positive integers"⟩

/-! ## The host's check -/

/-- The data of a successful reply. -/
def TextPage.data (page : TextPage) : List (Text × Json) :=
  [(lit "lines", .arr (page.lines.map .str)),
    (lit "total_lines", page.totalLines.elim .null fun total => .int total),
    (lit "has_more", .bool page.hasMore),
    (lit "truncated", .bool page.truncated)]

/-- The strings of a list of strings. -/
def strings? : Json → Option (List Text)
  | .arr items => items.mapM fun item =>
      match item with
      | .str text => some text
      | _ => none
  | _ => none

/-- `None` or a count. -/
def total? : Json → Option (Option ℕ)
  | .null => some none
  | .int value => if 0 ≤ value then some (some value.toNat) else none
  | _ => none

def flag? : Json → Option Bool
  | .bool value => some value
  | _ => none

/-- `RemoteWorkspacePort.read_text_page` on the data of a reply; `none` is the error
"invalid remote text page". -/
def acceptPage (limits : PageLimits) (data : List (Text × Json)) : Option TextPage := do
  let lines ← strings? (field data "lines")
  let totalLines ← total? (field data "total_lines")
  let hasMore ← flag? (field data "has_more")
  let truncated ← flag? (field data "truncated")
  if lines.length ≤ limits.limit ∧ (lines.map List.length).sum ≤ limits.maxChars then
    return ⟨lines, totalLines, hasMore, truncated⟩
  else none

end ReuleauxCoder.Workspace
