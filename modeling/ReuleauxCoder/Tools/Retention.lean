import ReuleauxCoder.Library.Boundaries
import ReuleauxCoder.Library.LineRanges
import ReuleauxCoder.Library.Occurrences
import ReuleauxCoder.Tools.Outcome

/-!
# Keeping a part of a tool's output

The hook measures an output without building its lines, finds the lines that it keeps as
ranges of the text, and cuts their join without building that either.
-/

namespace ReuleauxCoder.Tools

open PyText Boundaries

/-- `_LINE_SEPARATORS`. -/
def lineSeparators : List CodePoint :=
  [lineFeed, carriageReturn, 0x0B, 0x0C, 0x1C, 0x1D, 0x1E, 0x85, 0x2028, 0x2029]

/-- `_line_summary`: how many lines there are, and which separators. -/
def lineSummary (text : Text) : ℕ × List CodePoint :=
  let separators := lineSeparators.filter fun c => decide (c ∈ text)
  let count := (separators.map fun c => text.count c).sum
  let count :=
    if carriageReturn ∈ separators ∧ lineFeed ∈ separators then
      count - Occurrences.countApart (· == ·) crlf text
    else count
  (if text.getLast?.any fun c => decide (c ∉ lineSeparators) then count + 1 else count,
    separators)

/-- The loop of `_line_spans` from the beginning of the text on. -/
def headSpans (text : Text) : ℕ → ℕ → Cache CodePoint → List Span
  | 0, _, _ => []
  | count + 1, position, boundaries =>
      if text.length ≤ position then []
      else
        let boundaries := forward text position boundaries
        let stop := nearest text.length boundaries
        let ending := if crlf.isPrefixOf (text.drop stop) then 2 else 1
        ⟨position, stop⟩ :: headSpans text count (stop + ending) boundaries

/-- Where the line ends that ends before `position`. -/
def lineStop (text : Text) (position : ℕ) : ℕ :=
  if text[position - 1]?.any fun c => decide (c ∈ lineSeparators) then
    let stop := position - 1
    if text[stop]? = some lineFeed ∧ stop ≠ 0 ∧ text[stop - 1]? = some carriageReturn then
      stop - 1
    else stop
  else position

/-- The loop of `_line_spans` from the end of the text back. -/
def tailSpans (text : Text) : ℕ → ℕ → Cache CodePoint → List Span
  | 0, _, _ => []
  | count + 1, position, boundaries =>
      if position = 0 then []
      else
        let stop := lineStop text position
        let boundaries := backward text stop boundaries
        let start := behindFarthest boundaries
        ⟨start, stop⟩ :: tailSpans text count start boundaries

/-- `_line_spans`. -/
def lineSpans (text : Text) (separators : List CodePoint) (count : ℕ) (tail : Bool) :
    List Span :=
  if tail then
    (tailSpans text count text.length (backwardFrom separators text text.length)).reverse
  else headSpans text count 0 (forwardFrom separators text 0)

/-- The loop of `_slice_joined`. -/
def sliceSpans (text : Text) (start stop : ℕ) : Bool → ℕ → List Span → Text
  | _, _, [] => []
  | first, position, span :: rest =>
      let feed := if !first && decide (start ≤ position ∧ position < stop) then [lineFeed] else []
      let position := if first then position else position + 1
      let length := span.right - span.left
      let lower := start - position
      let upper := min length (stop - position)
      let part :=
        if lower < upper then Span.of text ⟨span.left + lower, span.left + upper⟩ else []
      let position := position + length
      feed ++ part ++
        if stop ≤ position then [] else sliceSpans text start stop false position rest

/-- `_slice_joined`. -/
def sliceJoined (text : Text) (spans : List Span) (start stop : ℕ) : Text :=
  sliceSpans text start stop true 0 spans

/-- The length of the join of the spans. -/
def joinedLength (spans : List Span) : ℕ :=
  (spans.map fun span => span.right - span.left).sum + (spans.length - 1)

/-- `str.lstrip`. -/
def trimStart (text : Text) : Text :=
  text.dropWhile isSpace

/-- `_retain_text`. -/
def retainText (text : Text) (maxLines maxChars : ℕ) (strategy : ToolRetentionStrategy)
    (separators : List CodePoint) : Text :=
  match strategy with
  | .tail =>
      let spans := lineSpans text separators maxLines true
      let length := joinedLength spans
      trimStart (sliceJoined text spans (length - maxChars) length)
  | .headTail =>
      let headCount := max 1 ((maxLines + 1) / 2)
      let tailCount := maxLines - headCount
      let spans := lineSpans text separators headCount false ++
        lineSpans text separators tailCount true
      let length := joinedLength spans
      if length ≤ maxChars then sliceJoined text spans 0 length
      else
        let headChars := max 1 ((maxChars + 1) / 2)
        let tailChars := maxChars - headChars
        let head := ToolOutcome.trimEnd (sliceJoined text spans 0 headChars)
        if tailChars = 0 then head
        else
          head ++ [lineFeed] ++ trimStart (sliceJoined text spans (length - tailChars) length)
  | .head =>
      ToolOutcome.trimEnd
        (sliceJoined text (lineSpans text separators maxLines false) 0 maxChars)

end ReuleauxCoder.Tools
