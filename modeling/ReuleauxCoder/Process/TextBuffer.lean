import ReuleauxCoder.Library.Text
import ReuleauxCoder.Library.Weighted

/-!
# Bounded text buffers

A process stream is kept as a queue of segments.  Appending trims the queue at its front until
the retained text fits the byte limit, and offsets count the characters of the whole stream.
What the queue retains is the longest end of the stream that fits.
-/

namespace ReuleauxCoder.Process

open PyText Weighted List

/-! ## Bytes of a text -/

/-- The bytes of a character; the encoder writes `?` for a surrogate. -/
def encodedWidth (character : CodePoint) : ℕ :=
  if isSurrogate character then 1
  else if character.val < 0x80 then 1
  else if character.val < 0x800 then 2
  else if character.val < 0x10000 then 3
  else 4

theorem encodedWidth_pos (character : CodePoint) : 1 ≤ encodedWidth character := by
  unfold encodedWidth
  split_ifs <;> omega

theorem encodedWidth_le (character : CodePoint) : encodedWidth character ≤ 4 := by
  unfold encodedWidth
  split_ifs <;> omega

/-- `len(text.encode("utf-8", errors="replace"))`. -/
abbrev byteSize (text : Text) : ℕ :=
  total encodedWidth text

theorem byteSize_append (front back : Text) :
    byteSize (front ++ back) = byteSize front + byteSize back :=
  total_append front back

/-- `_suffix_within_bytes`. -/
def suffixWithinBytes (text : Text) (limit : ℕ) : Text :=
  if limit = 0 then []
  else if byteSize text ≤ limit then text
  else
    text.drop (Bisection.leftmost (fun middle => byteSize (text.drop middle) ≤ limit) text.length
      0 text.length)

/-- `_prefix_within_bytes`. -/
def prefixWithinBytes (text : Text) (limit : ℕ) : Text :=
  if limit = 0 then []
  else if byteSize text ≤ limit then text
  else
    text.take (Bisection.rightmost (fun middle => byteSize (text.take middle) ≤ limit) text.length
      0 text.length)

theorem suffixWithinBytes_eq (text : Text) (limit : ℕ) :
    suffixWithinBytes text limit = suffixWithin encodedWidth limit text := by
  rw [suffixWithinBytes]
  split
  · rename_i hzero
    subst hzero
    have hlight : total encodedWidth (suffixWithin encodedWidth 0 text) ≤ 0 :=
      total_suffixWithin_le 0 text
    have hshort := length_le_total encodedWidth_pos (suffixWithin encodedWidth 0 text)
    exact (length_eq_zero_iff.mp (by omega)).symm
  split
  · rename_i hfits
    exact (suffixWithin_of_le hfits).symm
  · obtain ⟨hholds, hbelow⟩ := @Bisection.leftmost_spec
      (fun middle => byteSize (text.drop middle) ≤ limit) text.length 0 text.length
      (fun hle hleft => by
        simp only [decide_eq_true_eq] at hleft ⊢
        exact (total_drop_anti text hle).trans hleft)
      (by omega) (by omega) (by simp) (by simp)
    simp only [decide_eq_true_eq] at hholds hbelow
    exact drop_eq_suffixWithin hholds fun place hplace => not_le.mp (hbelow place hplace)

theorem prefixWithinBytes_eq (text : Text) (limit : ℕ) :
    prefixWithinBytes text limit = prefixWithin encodedWidth limit text := by
  rw [prefixWithinBytes]
  split
  · rename_i hzero
    subst hzero
    cases text with
    | nil => rfl
    | cons character rest =>
        have hwidth := encodedWidth_pos character
        rw [prefixWithin, if_neg (by omega)]
  split
  · rename_i hfits
    exact (prefixWithin_of_le hfits).symm
  · rename_i hheavy
    obtain ⟨hholds, habove⟩ := @Bisection.rightmost_spec
      (fun middle => byteSize (text.take middle) ≤ limit) text.length 0 text.length
      (fun hle hright => by
        simp only [decide_eq_true_eq] at hright ⊢
        exact (total_take_mono text hle).trans hright)
      (by omega) (by omega) (by simp)
      (fun place hplace => by
        simp only [decide_eq_true_eq]
        rwa [take_of_length_le hplace.le])
    simp only [decide_eq_true_eq] at hholds habove
    exact take_eq_prefixWithin hholds fun place hplace _ => not_le.mp (habove place hplace)

/-! ## The buffer -/

structure BufferRead where
  text : Text
  nextOffset : ℕ
  truncated : Bool
  deriving DecidableEq

/-- `_Segment`. -/
structure Segment where
  start : ℕ
  text : Text
  byteCount : ℕ
  deriving DecidableEq

def Segment.stop (segment : Segment) : ℕ :=
  segment.start + segment.text.length

structure BoundedTextBuffer where
  maxBytes : ℕ
  /-- The constructor refuses other limits. -/
  positive : 1 ≤ maxBytes
  segments : List Segment := []
  retainedBytes : ℕ := 0
  nextOffset : ℕ := 0
  totalBytes : ℕ := 0
  truncated : Bool := false

namespace BoundedTextBuffer

/-- The constructor; `none` where it raises. -/
def create (maxBytes : ℕ) : Option BoundedTextBuffer :=
  if positive : 1 ≤ maxBytes then some { maxBytes, positive } else none

/-- The loop of `_enforce_limit`: the segments that stay, `_retained_bytes` and `_truncated`. -/
def trim (maxBytes : ℕ) : List Segment → ℕ → Bool → List Segment × ℕ × Bool
  | [], retainedBytes, truncated => ([], retainedBytes, truncated)
  | segment :: rest, retainedBytes, truncated =>
      if retainedBytes ≤ maxBytes then (segment :: rest, retainedBytes, truncated)
      else
        let excess := retainedBytes - maxBytes
        if segment.byteCount ≤ excess ∧ rest ≠ [] then
          trim maxBytes rest (retainedBytes - segment.byteCount) true
        else
          let retained := suffixWithinBytes segment.text (segment.byteCount - excess)
          let droppedChars := segment.text.length - retained.length
          let shortened : Segment := ⟨segment.start + droppedChars, retained, byteSize retained⟩
          (if retained = [] then rest else shortened :: rest,
            retainedBytes - (segment.byteCount - byteSize retained), true)

def enforceLimit (buffer : BoundedTextBuffer) : BoundedTextBuffer :=
  let trimmed := trim buffer.maxBytes buffer.segments buffer.retainedBytes buffer.truncated
  { buffer with
    segments := trimmed.1
    retainedBytes := trimmed.2.1
    truncated := trimmed.2.2 }

def append (buffer : BoundedTextBuffer) (text : Text) (byteCount : Option ℤ) :
    BoundedTextBuffer :=
  let measured :=
    match byteCount with
    | none => byteSize text
    | some count => count.toNat
  let counted := { buffer with totalBytes := buffer.totalBytes + measured }
  if text = [] then counted
  else
    enforceLimit { counted with
      segments := buffer.segments ++ [⟨buffer.nextOffset, text, byteSize text⟩]
      nextOffset := buffer.nextOffset + text.length
      retainedBytes := buffer.retainedBytes + byteSize text }

def retainedStart (buffer : BoundedTextBuffer) : ℕ :=
  match buffer.segments with
  | [] => buffer.nextOffset
  | segment :: _ => segment.start

/-- `read_after`; `none` where it raises. -/
def readAfter (buffer : BoundedTextBuffer) (offset : ℤ) (maxBytes : ℕ) : Option BufferRead :=
  if maxBytes < 1 then none
  else
    let requested := (min offset buffer.nextOffset).toNat
    let start := max requested buffer.retainedStart
    let pieces := (buffer.segments.filter fun segment => start < segment.stop).map fun segment =>
      segment.text.drop (start - segment.start)
    let complete := pieces.flatten
    let selected := prefixWithinBytes complete maxBytes
    some {
      text := selected
      nextOffset := start + selected.length
      truncated := requested < buffer.retainedStart || selected.length < complete.length }

def retained (buffer : BoundedTextBuffer) : BufferRead where
  text := (buffer.segments.map Segment.text).flatten
  nextOffset := buffer.nextOffset
  truncated := buffer.truncated || 0 < buffer.retainedStart

/-! ## What is retained -/

/-- The segments lie one behind the other from an offset on, none of them empty. -/
def LaidOut : ℕ → List Segment → Prop
  | _, [] => True
  | start, segment :: rest =>
      segment.start = start ∧ segment.text ≠ [] ∧ segment.byteCount = byteSize segment.text ∧
        LaidOut segment.stop rest

def joined (segments : List Segment) : Text :=
  (segments.map Segment.text).flatten

@[simp]
theorem joined_nil : joined [] = [] := rfl

@[simp]
theorem joined_cons (segment : Segment) (rest : List Segment) :
    joined (segment :: rest) = segment.text ++ joined rest := rfl

@[simp]
theorem joined_append (front back : List Segment) :
    joined (front ++ back) = joined front ++ joined back := by
  simp [joined]

theorem LaidOut.append {start : ℕ} {front back : List Segment} (hfront : LaidOut start front)
    (hback : LaidOut (start + (joined front).length) back) : LaidOut start (front ++ back) := by
  induction front generalizing start with
  | nil => exact hback
  | cons segment rest ih =>
      obtain ⟨hstart, hne, hbytes, hrest⟩ := hfront
      refine ⟨hstart, hne, hbytes, ih hrest ?_⟩
      rw [joined_cons, length_append, ← Nat.add_assoc, ← hstart] at hback
      exact hback

/-- What trimming leaves of a queue, of its byte count and of the truncation mark. -/
structure Trimmed (maxBytes start : ℕ) (segments : List Segment) (truncated : Bool)
    (result : List Segment × ℕ × Bool) : Prop where
  dropped : ∃ dropped, joined segments = dropped ++ joined result.1 ∧
    LaidOut (start + dropped.length) result.1 ∧ (result.2.2 = true ↔ truncated ∨ dropped ≠ [])
  kept : joined result.1 = suffixWithin encodedWidth maxBytes (joined segments)
  bytes : result.2.1 = byteSize (joined result.1)

theorem trim_trimmed {maxBytes start retainedBytes : ℕ} (hpositive : 1 ≤ maxBytes)
    {segments : List Segment} (hlaid : LaidOut start segments)
    (hbytes : retainedBytes = byteSize (joined segments)) (truncated : Bool) :
    Trimmed maxBytes start segments truncated
      (trim maxBytes segments retainedBytes truncated) := by
  induction segments generalizing start retainedBytes truncated with
  | nil => exact ⟨⟨[], by simp [trim], trivial, by simp [trim]⟩, rfl, hbytes⟩
  | cons segment rest ih =>
      obtain ⟨hstart, hne, hcount, hrest⟩ := hlaid
      have htotal : retainedBytes = segment.byteCount + byteSize (joined rest) := by
        rw [hbytes, joined_cons, byteSize_append, hcount]
      rw [trim]
      split
      · rename_i hfits
        refine ⟨⟨[], rfl, ⟨hstart, hne, hcount, hrest⟩, by simp⟩, ?_, hbytes⟩
        exact (suffixWithin_of_le (hbytes ▸ hfits)).symm
      rename_i hheavy
      dsimp only
      split
      · rename_i hwhole
        have hbehind : retainedBytes - segment.byteCount = byteSize (joined rest) := by omega
        have hresult := ih hrest hbehind true
        obtain ⟨dropped, hdropped, hlaid, hmark⟩ := hresult.dropped
        refine ⟨⟨segment.text ++ dropped, ?_, ?_, ?_⟩, ?_, hresult.bytes⟩
        · rw [joined_cons, hdropped, append_assoc]
        · rwa [length_append, ← Nat.add_assoc, ← hstart]
        · simp [hmark, hne]
        · have hge : maxBytes ≤ byteSize (joined rest) := by omega
          rw [hresult.kept, joined_cons, suffixWithin_append_of_ge encodedWidth_pos hge]
      · rename_i hcut
        have hback : byteSize (joined rest) ≤ maxBytes := by
          by_cases hlast : rest = []
          · simp [hlast]
          · have hmore : ¬segment.byteCount ≤ retainedBytes - maxBytes :=
              fun hle => hcut ⟨hle, hlast⟩
            omega
        have htarget : segment.byteCount - (retainedBytes - maxBytes) =
            maxBytes - byteSize (joined rest) := by
          by_cases hlast : rest = []
          · simp only [hlast, joined_nil, total_nil] at htotal ⊢
            omega
          · have hmore : ¬segment.byteCount ≤ retainedBytes - maxBytes :=
              fun hle => hcut ⟨hle, hlast⟩
            omega
        rw [htarget, suffixWithinBytes_eq]
        generalize hkept : suffixWithin encodedWidth (maxBytes - byteSize (joined rest))
          segment.text = kept
        have hlight : byteSize kept ≤ maxBytes - byteSize (joined rest) := by
          rw [← hkept]
          exact total_suffixWithin_le _ _
        obtain ⟨dropped, hdropped⟩ : kept <:+ segment.text := by
          rw [← hkept]
          exact suffixWithin_suffix _ _
        have hlength : segment.text.length - kept.length = dropped.length := by
          rw [← hdropped, length_append, Nat.add_sub_cancel]
        have hsize : segment.byteCount = byteSize dropped + byteSize kept := by
          rw [hcount, ← hdropped, byteSize_append]
        have hstop : start + (dropped.length + kept.length) = segment.stop := by
          rw [Segment.stop, ← hdropped, length_append, hstart]
        have hfront : dropped ≠ [] := by
          rintro rfl
          simp only [total_nil, Nat.zero_add] at hsize
          omega
        have hjoined : joined (if kept = [] then rest else
            ⟨segment.start + dropped.length, kept, byteSize kept⟩ :: rest) =
              kept ++ joined rest := by
          split
          · rename_i hnone
            rw [hnone, nil_append]
          · rfl
        rw [hlength]
        refine ⟨⟨dropped, ?_, ?_, by simp [hfront]⟩, ?_, ?_⟩
        · rw [hjoined, joined_cons, ← hdropped, append_assoc]
        · dsimp only
          split
          · rename_i hnone
            rw [hnone, length_nil, Nat.add_zero] at hstop
            rwa [hstop]
          · rename_i hsome
            refine ⟨by rw [hstart], hsome, rfl, ?_⟩
            rwa [Segment.stop, Nat.add_assoc, hstart, hstop]
        · rw [hjoined, joined_cons, suffixWithin_append_of_le hback, hkept]
        · rw [hjoined, byteSize_append]
          dsimp only
          omega

/-- The buffer retains the longest end of the stream that fits, where it lies in the stream. -/
structure Refines (buffer : BoundedTextBuffer) (stream : Text) : Prop where
  laidOut : LaidOut (stream.length - buffer.retained.text.length) buffer.segments
  retained : buffer.retained.text = suffixWithin encodedWidth buffer.maxBytes stream
  endOffset : buffer.nextOffset = stream.length
  retainedBytes : buffer.retainedBytes = byteSize buffer.retained.text
  truncated : buffer.truncated = true ↔ buffer.retained.text.length < stream.length

variable {buffer : BoundedTextBuffer} {stream : Text}

namespace Refines

theorem suffix (hrefines : Refines buffer stream) : buffer.retained.text <:+ stream := by
  rw [hrefines.retained]
  exact suffixWithin_suffix _ _

theorem retainedStart_add (hrefines : Refines buffer stream) :
    buffer.retainedStart + buffer.retained.text.length = stream.length := by
  have hlength := hrefines.suffix.length_le
  have hlaid := hrefines.laidOut
  have hnext := hrefines.endOffset
  have htext : buffer.retained.text = joined buffer.segments := rfl
  rw [retainedStart]
  cases hsegments : buffer.segments with
  | nil => simp [htext, hsegments, hnext]
  | cons segment rest =>
      rw [hsegments] at hlaid
      dsimp only
      rw [hlaid.1]
      omega

theorem append (hrefines : Refines buffer stream) (text : Text) (byteCount : Option ℤ) :
    Refines (buffer.append text byteCount) (stream ++ text) := by
  simp only [BoundedTextBuffer.append]
  split
  · rename_i hempty
    rw [hempty, append_nil]
    exact ⟨hrefines.laidOut, hrefines.retained, hrefines.endOffset, hrefines.retainedBytes,
      hrefines.truncated⟩
  rename_i hne
  have hlength := hrefines.suffix.length_le
  have hqueued : LaidOut (stream.length - (joined buffer.segments).length)
      (buffer.segments ++ [⟨buffer.nextOffset, text, byteSize text⟩]) := by
    refine hrefines.laidOut.append ⟨?_, hne, rfl, trivial⟩
    rw [hrefines.endOffset]
    exact (Nat.sub_add_cancel hlength).symm
  have hbytes : buffer.retainedBytes + byteSize text =
      byteSize (joined (buffer.segments ++ [⟨buffer.nextOffset, text, byteSize text⟩])) := by
    rw [joined_append, byteSize_append, hrefines.retainedBytes]
    simp [BoundedTextBuffer.retained, joined]
  have htrimmed := trim_trimmed buffer.positive hqueued hbytes buffer.truncated
  obtain ⟨dropped, hdropped, hlaid, hmark⟩ := htrimmed.dropped
  generalize hresult : trim buffer.maxBytes
    (buffer.segments ++ [⟨buffer.nextOffset, text, byteSize text⟩])
      (buffer.retainedBytes + byteSize text) buffer.truncated = result at *
  have hfull : (joined buffer.segments).length + text.length =
      dropped.length + (joined result.1).length := by
    have hlengths := congrArg List.length hdropped
    simpa [joined] using hlengths
  have hqueue : buffer.retained.text = joined buffer.segments := rfl
  rw [hqueue] at hlength
  simp only [enforceLimit, hresult]
  constructor
  case laidOut =>
    have hplace : (stream ++ text).length - (joined result.1).length =
        stream.length - (joined buffer.segments).length + dropped.length := by
      rw [length_append]
      omega
    change LaidOut ((stream ++ text).length - (joined result.1).length) result.1
    rw [hplace]
    exact hlaid
  case retained =>
    have hkept := htrimmed.kept
    rw [joined_append, ← hqueue, hrefines.retained, joined_cons, joined_nil, append_nil,
      suffixWithin_append_suffixWithin] at hkept
    exact hkept
  case endOffset =>
    change buffer.nextOffset + text.length = _
    rw [hrefines.endOffset, length_append]
  case retainedBytes => exact htrimmed.bytes
  case truncated =>
    have hbefore := hrefines.truncated
    rw [hqueue] at hbefore
    have hcut : dropped ≠ [] ↔ 1 ≤ dropped.length := length_pos_iff.symm
    change result.2.2 = true ↔ (joined result.1).length < _
    rw [hmark, hbefore, hcut, length_append]
    omega

end Refines

/-- The buffer after a sequence of appends. -/
def appendAll (buffer : BoundedTextBuffer) (appends : List (Text × Option ℤ)) :
    BoundedTextBuffer :=
  appends.foldl (fun buffer append => buffer.append append.1 append.2) buffer

theorem Refines.of_create {maxBytes : ℕ} (hcreate : create maxBytes = some buffer) :
    Refines buffer [] ∧ buffer.maxBytes = maxBytes := by
  rw [create] at hcreate
  split at hcreate
  · cases hcreate
    exact ⟨⟨trivial, rfl, rfl, rfl, by simp [BoundedTextBuffer.retained]⟩, rfl⟩
  · cases hcreate

theorem append_maxBytes (buffer : BoundedTextBuffer) (text : Text) (byteCount : Option ℤ) :
    (buffer.append text byteCount).maxBytes = buffer.maxBytes := by
  simp only [BoundedTextBuffer.append]
  split <;> rfl

theorem Refines.appendAll (hrefines : Refines buffer stream) (appends : List (Text × Option ℤ)) :
    Refines (buffer.appendAll appends) (stream ++ (appends.map Prod.fst).flatten) ∧
      (buffer.appendAll appends).maxBytes = buffer.maxBytes := by
  induction appends generalizing buffer stream with
  | nil => simpa [BoundedTextBuffer.appendAll] using hrefines
  | cons append rest ih =>
      obtain ⟨hrest, hlimit⟩ := ih (hrefines.append append.1 append.2)
      rw [map_cons, flatten_cons, ← append_assoc]
      exact ⟨hrest, hlimit.trans (buffer.append_maxBytes append.1 append.2)⟩

/-- The retained text is the longest end of a stream within a byte limit, at its place. -/
structure RetainsEnd (buffer : BoundedTextBuffer) (maxBytes : ℕ) (stream : Text) : Prop where
  suffix : buffer.retained.text <:+ stream
  fits : byteSize buffer.retained.text ≤ maxBytes
  longest : ∀ part, part <:+ stream → byteSize part ≤ maxBytes → part <:+ buffer.retained.text
  startOffset : buffer.retainedStart = stream.length - buffer.retained.text.length
  endOffset : buffer.nextOffset = stream.length
  readOffset : buffer.retained.nextOffset = stream.length
  byteCount : buffer.retainedBytes = byteSize buffer.retained.text

theorem Refines.retainsEnd (hrefines : Refines buffer stream) :
    RetainsEnd buffer buffer.maxBytes stream where
  suffix := hrefines.suffix
  fits := by
    rw [hrefines.retained]
    exact total_suffixWithin_le _ _
  longest part hpart hfits := by
    rw [hrefines.retained]
    exact suffix_suffixWithin hpart hfits
  startOffset := Nat.eq_sub_of_add_eq hrefines.retainedStart_add
  endOffset := hrefines.endOffset
  readOffset := hrefines.endOffset
  byteCount := hrefines.retainedBytes

/-- After any sequence of appends a buffer retains the longest end of the stream that fits, and
its offsets say where in the stream it lies. -/
theorem appendAll_retainsEnd {maxBytes : ℕ} (hcreate : create maxBytes = some buffer)
    (appends : List (Text × Option ℤ)) :
    RetainsEnd (buffer.appendAll appends) maxBytes (appends.map Prod.fst).flatten := by
  obtain ⟨hfresh, hlimit⟩ := Refines.of_create hcreate
  obtain ⟨hrefines, hsame⟩ := hfresh.appendAll appends
  have hretains := hrefines.retainsEnd
  rwa [hsame, hlimit, nil_append] at hretains

/-- Two euro signs and a full stop in a buffer of five bytes. -/
theorem appendAll_retainsEnd_euros :
    RetainsEnd (appendAll ⟨5, by decide, [], 0, 0, 0, false⟩ [(lit "€€", none), (lit ".", none)])
      5 (lit "€€.") :=
  have hcreate : create 5 = some ⟨5, by decide, [], 0, 0, 0, false⟩ := rfl
  appendAll_retainsEnd hcreate [(lit "€€", none), (lit ".", none)]

end BoundedTextBuffer

end ReuleauxCoder.Process
