import ReuleauxCoder.Library.Endings

/-!
# Where the lines of a text stand

The segments of a text are a list in which only the last line may be without an ending and
no carriage return stands alone before a line feed.  So a line can be recognized from both
sides: by the next line break ahead, and by the last one behind.
-/

namespace PyText

open List

/-- The part of a text from `left` up to `right`. -/
@[ext]
structure Span where
  left : ℕ
  right : ℕ
  deriving DecidableEq

def Span.of (text : Text) (span : Span) : Text :=
  (text.take span.right).drop span.left

/-- A range of the text. -/
structure Span.Within (text : Text) (span : Span) : Prop where
  ordered : span.left ≤ span.right
  within : span.right ≤ text.length

theorem Span.Within.length_of {text : Text} {span : Span} (hwithin : span.Within text) :
    (Span.of text span).length = span.right - span.left := by
  have hright := hwithin.within
  rw [Span.of, length_drop, length_take, Nat.min_eq_left hright]

/-- Lines as `splitlines` cuts a text. -/
inductive Cut : List Segment → Prop
  | nil : Cut []
  | last {line : Text} (hline : Unbroken line) (hne : line ≠ []) : Cut [⟨line, []⟩]
  | cons {line ending : Text} {rest : List Segment} (hline : Unbroken line)
      (hending : IsEnding ending)
      (hapart : ending = [carriageReturn] → ¬ [lineFeed] <+: rest.flatMap Segment.text)
      (hrest : Cut rest) : Cut (⟨line, ending⟩ :: rest)

theorem cut_segmentsFrom {line : Text} (hline : Unbroken line) (text : Text) :
    Cut (segmentsFrom line text) := by
  fun_induction segmentsFrom line text with
  | case1 => exact .nil
  | case2 line hne => exact .last hline hne
  | case3 line c hbreak =>
      apply Cut.cons hline (.inr ⟨c, hbreak, rfl⟩) _ .nil
      intro _ hfeed
      exact absurd (prefix_nil.mp hfeed) (cons_ne_nil _ _)
  | case4 line c hbreak =>
      exact .last (hline.concat (Bool.eq_false_of_not_eq_true hbreak)) (by simp)
  | case5 line c d rest hreturn ih =>
      obtain ⟨rfl, rfl⟩ := hreturn
      apply Cut.cons hline (.inl rfl) _ (ih unbroken_nil)
      intro hsingle
      cases hsingle
  | case6 line c d rest hreturn hbreak ih =>
      apply Cut.cons hline (.inr ⟨c, hbreak, rfl⟩) _ (ih unbroken_nil)
      intro hsingle hfeed
      rw [flatMap_segmentsFrom, nil_append, cons_prefix_cons] at hfeed
      exact hreturn ⟨(List.cons.inj hsingle).1, hfeed.1.symm⟩
  | case7 line c d rest hreturn hbreak ih =>
      exact ih (hline.concat (Bool.eq_false_of_not_eq_true hbreak))

theorem cut_segments (text : Text) : Cut (segments text) :=
  cut_segmentsFrom unbroken_nil text

/-- What stands before a line, seen from the line. -/
structure Behind (front : List Segment) (segment : Segment) : Prop where
  unbroken : Unbroken segment.line
  ending : (segment.ending = [] ∧ segment.line ≠ []) ∨ IsEnding segment.ending
  closed : front ≠ [] → ∃ text c, front.flatMap Segment.text = text ++ [c] ∧
    isLineBreak c = true ∧ (c = carriageReturn → ¬ [lineFeed] <+: segment.text)

theorem Behind.text_ne_nil {front : List Segment} {segment : Segment}
    (hbehind : Behind front segment) : segment.text ≠ [] := by
  rw [Segment.text]
  cases hbehind.ending with
  | inl hlast => exact append_ne_nil_of_left_ne_nil hlast.2 _
  | inr hending =>
      apply append_ne_nil_of_right_ne_nil
      cases hending with
      | inl hboth => exact hboth ▸ cons_ne_nil _ _
      | inr hone =>
          obtain ⟨c, -, hsingle⟩ := hone
          exact hsingle ▸ cons_ne_nil _ _

theorem Cut.concat {front : List Segment} {segment : Segment} (hcut : Cut (front ++ [segment])) :
    Cut front ∧ Behind front segment := by
  induction front with
  | nil =>
      refine ⟨.nil, ?_⟩
      rw [nil_append] at hcut
      cases hcut with
      | last hline hne => exact ⟨hline, .inl ⟨rfl, hne⟩, fun hfilled => absurd rfl hfilled⟩
      | cons hline hending hapart hrest =>
          exact ⟨hline, .inr hending, fun hfilled => absurd rfl hfilled⟩
  | cons first front ih =>
      generalize hwhole : front ++ [segment] = rest at ih
      rw [cons_append, hwhole] at hcut
      have hfilled : rest ≠ [] := by
        rw [← hwhole]
        simp
      cases hcut with
      | last => exact absurd rfl hfilled
      | @cons line ending _ hline hending hapart hrest =>
          obtain ⟨hfront, hbehind⟩ := ih hrest
          constructor
          · apply Cut.cons hline hending _ hfront
            intro hreturn hfeed
            apply hapart hreturn
            rw [← hwhole, flatMap_append]
            exact hfeed.trans (prefix_append _ _)
          · refine ⟨hbehind.unbroken, hbehind.ending, fun _ => ?_⟩
            by_cases hempty : front = []
            · subst hempty
              rw [nil_append] at hwhole
              subst hwhole
              cases hending with
              | inl hboth =>
                  subst hboth
                  refine ⟨line ++ [carriageReturn], lineFeed, ?_, isLineBreak_lineFeed, ?_⟩
                  · simp [Segment.text, crlf]
                  · intro hsame
                    exact absurd hsame lineFeed_ne_carriageReturn
              | inr hone =>
                  obtain ⟨c, hbreak, rfl⟩ := hone
                  refine ⟨line, c, by simp [Segment.text], hbreak, ?_⟩
                  intro hreturn
                  subst hreturn
                  simpa using hapart rfl
            · obtain ⟨text, c, htext, hbreak, happart⟩ := hbehind.closed hempty
              refine ⟨line ++ ending ++ text, c, ?_, hbreak, happart⟩
              rw [flatMap_cons, htext, ← append_assoc]
              rfl

/-! ## Ranges -/

def lineRangesFrom (position : ℕ) : List Segment → List Span
  | [] => []
  | segment :: rest =>
      ⟨position, position + segment.line.length⟩ ::
        lineRangesFrom (position + segment.text.length) rest

/-- The ranges of the lines that `splitlines` gives. -/
def lineRanges (text : Text) : List Span :=
  lineRangesFrom 0 (segments text)

theorem length_lineRangesFrom (position : ℕ) (lines : List Segment) :
    (lineRangesFrom position lines).length = lines.length := by
  induction lines generalizing position with
  | nil => rfl
  | cons segment rest ih => rw [lineRangesFrom, length_cons, ih, length_cons]

theorem length_lineRanges (text : Text) : (lineRanges text).length = (splitLines text).length := by
  rw [lineRanges, length_lineRangesFrom, ← map_line_segments, length_map]

theorem lineRangesFrom_concat (position : ℕ) (front : List Segment) (segment : Segment) :
    lineRangesFrom position (front ++ [segment]) =
      lineRangesFrom position front ++
        [⟨position + (front.flatMap Segment.text).length,
          position + (front.flatMap Segment.text).length + segment.line.length⟩] := by
  induction front generalizing position with
  | nil => rfl
  | cons first front ih =>
      rw [cons_append, lineRangesFrom, ih, lineRangesFrom, cons_append, flatMap_cons,
        length_append, Nat.add_assoc position]

theorem map_of_lineRangesFrom (front : Text) (lines : List Segment) :
    (lineRangesFrom front.length lines).map (Span.of (front ++ lines.flatMap Segment.text)) =
      lines.map Segment.line := by
  induction lines generalizing front with
  | nil => rfl
  | cons segment rest ih =>
      have hrest := ih (front ++ segment.text)
      rw [length_append, append_assoc, ← flatMap_cons] at hrest
      rw [lineRangesFrom, map_cons, hrest, map_cons]
      congr 1
      rw [Span.of, flatMap_cons, Segment.text, take_length_add_append, append_assoc,
        take_append_of_le_length le_rfl, take_length, drop_left]

/-- The ranges are those of the lines. -/
theorem map_of_lineRanges (text : Text) :
    (lineRanges text).map (Span.of text) = splitLines text := by
  have hmap := map_of_lineRangesFrom [] (segments text)
  rw [nil_append, flatMap_segments, map_line_segments] at hmap
  exact hmap

/-- Where a line stands there is no line break. -/
theorem exists_mem_line {front line : Text} (back : Text) {index : ℕ}
    (hlow : front.length ≤ index) (hhigh : index < front.length + line.length) :
    ∃ c ∈ line, (front ++ line ++ back)[index]? = some c := by
  have hless : index - front.length < line.length := by omega
  refine ⟨_, getElem_mem hless, ?_⟩
  rw [append_assoc, getElem?_append_right hlow, getElem?_append_left hless,
    getElem?_eq_getElem hless]

theorem getElem?_append_cons (front : Text) (c : CodePoint) (back : Text) :
    (front ++ c :: back)[front.length]? = some c := by
  rw [getElem?_append_right le_rfl, Nat.sub_self]
  rfl

section Slices

variable {start stop : ℕ}

/-- The part between `start` and `stop` of a text that stands at `position`. -/
def sliceAt (start stop position : ℕ) (text : Text) : Text :=
  (text.take (stop - position)).drop (start - position)

theorem sliceAt_append (position : ℕ) (left right : Text) :
    sliceAt start stop position (left ++ right) =
      sliceAt start stop position left ++ sliceAt start stop (position + left.length) right := by
  rw [sliceAt, sliceAt, sliceAt, take_append, drop_append, length_take]
  by_cases hshort : stop - position ≤ left.length
  · have hleft : stop - position - left.length = 0 := Nat.sub_eq_zero_of_le hshort
    have hright : stop - (position + left.length) = 0 := by omega
    rw [hleft, hright, take_zero, drop_nil, drop_nil]
  · have hlength : min (stop - position) left.length = left.length := by omega
    rw [hlength, Nat.sub_sub, Nat.sub_sub]

theorem sliceAt_singleton (position : ℕ) (c : CodePoint) :
    sliceAt start stop position [c] = if start ≤ position ∧ position < stop then [c] else [] := by
  rw [sliceAt]
  by_cases hstop : position < stop
  · have htake : [c].take (stop - position) = [c] := by
      apply take_of_length_le
      rw [length_singleton]
      omega
    rw [htake]
    by_cases hstart : start ≤ position
    · rw [if_pos ⟨hstart, hstop⟩, Nat.sub_eq_zero_of_le hstart, drop_zero]
    · rw [if_neg fun hboth => hstart hboth.1]
      apply drop_of_length_le
      rw [length_singleton]
      omega
  · rw [if_neg fun hboth => hstop hboth.2, Nat.sub_eq_zero_of_le (Nat.le_of_not_lt hstop),
      take_zero, drop_nil]

/-- The piece of a span is cut out of the text itself. -/
theorem sliceAt_of {text : Text} {span : Span} (hwithin : span.Within text) (position : ℕ) :
    sliceAt start stop position (Span.of text span) =
      if start - position < min (span.right - span.left) (stop - position) then
        Span.of text ⟨span.left + (start - position),
          span.left + min (span.right - span.left) (stop - position)⟩
      else [] := by
  have hordered := hwithin.ordered
  have hlength := hwithin.length_of
  have hcut : (Span.of text span).take (stop - position) =
      (text.take (span.left + min (span.right - span.left) (stop - position))).drop
        span.left := by
    rw [Span.of, take_drop, take_take]
    congr 2
    omega
  rw [sliceAt]
  split
  · rw [hcut, drop_drop, Span.of]
  · apply drop_of_length_le
    rw [length_take, hlength]
    omega

end Slices

theorem within_lineRangesFrom {front : Text} {lines : List Segment} {text : Text}
    (htext : text = front ++ lines.flatMap Segment.text) :
    ∀ span ∈ lineRangesFrom front.length lines, span.Within text := by
  induction lines generalizing front with
  | nil => exact nofun
  | cons segment rest ih =>
      have hnext : text = (front ++ segment.text) ++ rest.flatMap Segment.text := by
        rw [htext, flatMap_cons, append_assoc]
      have hrest := ih hnext
      rw [length_append] at hrest
      intro span hspan
      cases mem_cons.mp hspan with
      | inl hfirst =>
          subst hfirst
          constructor
          · exact Nat.le_add_right _ _
          · change front.length + segment.line.length ≤ text.length
            rw [hnext, Segment.text]
            simp
      | inr hlater => exact hrest span hlater

theorem within_lineRanges (text : Text) : ∀ span ∈ lineRanges text, span.Within text := by
  have htext : text = [] ++ (segments text).flatMap Segment.text := (flatMap_segments text).symm
  exact within_lineRangesFrom htext

end PyText
