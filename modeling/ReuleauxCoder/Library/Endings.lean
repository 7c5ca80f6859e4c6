import ReuleauxCoder.Library.Lines

/-!
# Lines and their endings

A text is cut into its lines, each with the line break behind it.  Putting the lines
together again with one separator gives back the text exactly when every ending is that
separator; only a carriage return and a line feed that meet behind a deleted range can
hide a difference.
-/

namespace PyText

open List

/-- A line and the line break behind it; the last line of a text may have none. -/
@[ext]
structure Segment where
  line : Text
  ending : Text
  deriving DecidableEq

def Segment.text (segment : Segment) : Text :=
  segment.line ++ segment.ending

/-- What is left to cut, where `line` is read already. -/
def segmentsFrom (line : Text) : Text → List Segment
  | [] => if line = [] then [] else [⟨line, []⟩]
  | [c] => if isLineBreak c then [⟨line, [c]⟩] else [⟨line ++ [c], []⟩]
  | c :: d :: rest =>
      if c = carriageReturn ∧ d = lineFeed then ⟨line, [c, d]⟩ :: segmentsFrom [] rest
      else if isLineBreak c then ⟨line, [c]⟩ :: segmentsFrom [] (d :: rest)
      else segmentsFrom (line ++ [c]) (d :: rest)

/-- The lines of a text, as `splitlines` finds them, with what stands behind each. -/
def segments (text : Text) : List Segment :=
  segmentsFrom [] text

def crlf : Text :=
  [carriageReturn, lineFeed]

/-- One line break. -/
def IsEnding (ending : Text) : Prop :=
  ending = crlf ∨ ∃ c, isLineBreak c = true ∧ ending = [c]

/-- Lines as a text has them: only the last one may be without a line break. -/
structure Ended (lines : List Segment) : Prop where
  unbroken : ∀ segment ∈ lines, Unbroken segment.line
  ending : ∀ segment ∈ lines, segment.ending = [] ∨ IsEnding segment.ending
  closed : ∀ segment ∈ lines.dropLast, segment.ending ≠ []

/-! ## Cutting a text -/

theorem flatMap_segmentsFrom (line text : Text) :
    (segmentsFrom line text).flatMap Segment.text = line ++ text := by
  fun_induction segmentsFrom line text with
  | case1 => rfl
  | case2 line hline => simp [Segment.text]
  | case3 line c hbreak => simp [Segment.text]
  | case4 line c hbreak => simp [Segment.text]
  | case5 line c d rest hreturn ih =>
      rw [flatMap_cons, ih, Segment.text, append_assoc]
      rfl
  | case6 line c d rest hreturn hbreak ih =>
      rw [flatMap_cons, ih, Segment.text, append_assoc]
      rfl
  | case7 line c d rest hreturn hbreak ih => rw [ih, append_assoc, singleton_append]

/-- Nothing of the text is lost. -/
theorem flatMap_segments (text : Text) : (segments text).flatMap Segment.text = text :=
  flatMap_segmentsFrom [] text

theorem map_line_segmentsFrom (line text : Text) :
    (segmentsFrom line text).map Segment.line = splitLinesFrom line false text := by
  fun_induction segmentsFrom line text with
  | case1 => rfl
  | case2 line hline => rw [splitLinesFrom, if_neg hline, map_singleton]
  | case3 line c hbreak =>
      rw [splitLinesFrom, Bool.false_and, if_neg Bool.false_ne_true, if_pos hbreak, splitLinesFrom,
        if_pos rfl, map_singleton]
  | case4 line c hbreak =>
      rw [splitLinesFrom_cons (Bool.eq_false_of_not_eq_true hbreak), splitLinesFrom,
        if_neg (by simp), map_singleton]
  | case5 line c d rest hreturn ih =>
      obtain ⟨rfl, rfl⟩ := hreturn
      rw [splitLinesFrom, Bool.false_and, if_neg Bool.false_ne_true,
        if_pos isLineBreak_carriageReturn, splitLinesFrom, decide_eq_true rfl, decide_eq_true rfl,
        Bool.true_and, if_pos rfl, map_cons, ih]
  | case6 line c d rest hreturn hbreak ih =>
      have hapart : (decide (c = carriageReturn) && decide (d = lineFeed)) = false := by
        rw [← Bool.decide_and]
        exact decide_eq_false hreturn
      have hrest : splitLinesFrom [] (c = carriageReturn) (d :: rest) =
          splitLinesFrom [] false (d :: rest) := by
        rw [splitLinesFrom, splitLinesFrom, hapart, Bool.false_and]
      rw [splitLinesFrom, Bool.false_and, if_neg Bool.false_ne_true, if_pos hbreak, map_cons,
        ih, hrest]
  | case7 line c d rest hreturn hbreak ih =>
      rw [splitLinesFrom_cons (Bool.eq_false_of_not_eq_true hbreak), ih]

theorem map_line_segments (text : Text) : (segments text).map Segment.line = splitLines text :=
  map_line_segmentsFrom [] text

theorem Unbroken.concat {line : Text} (hline : Unbroken line) {c : CodePoint}
    (hc : isLineBreak c = false) : Unbroken (line ++ [c]) := by
  intro d hd
  cases mem_append.mp hd with
  | inl hold => exact hline d hold
  | inr hnew => exact mem_singleton.mp hnew ▸ hc

theorem unbroken_nil : Unbroken [] := by
  intro c hc
  cases hc

variable {lines rest : List Segment} {segment : Segment}

namespace Ended

theorem nil : Ended [] := by
  constructor <;> simp

theorem last (hline : Unbroken segment.line)
    (hending : segment.ending = [] ∨ IsEnding segment.ending) : Ended [segment] := by
  constructor
  · simpa using hline
  · simpa using hending
  · simp

theorem cons (hline : Unbroken segment.line) (hending : IsEnding segment.ending)
    (hrest : Ended rest) : Ended (segment :: rest) where
  unbroken other hmem := by
    cases mem_cons.mp hmem with
    | inl hfirst => exact hfirst ▸ hline
    | inr hlater => exact hrest.unbroken other hlater
  ending other hmem := by
    cases mem_cons.mp hmem with
    | inl hfirst => exact Or.inr (hfirst ▸ hending)
    | inr hlater => exact hrest.ending other hlater
  closed other hmem := by
    have hne : segment.ending ≠ [] := by
      rcases hending with hboth | ⟨c, -, hsingle⟩
      · simp [hboth, crlf]
      · simp [hsingle]
    cases rest with
    | nil => cases hmem
    | cons next others =>
        rw [dropLast_cons_cons] at hmem
        cases mem_cons.mp hmem with
        | inl hfirst => exact hfirst ▸ hne
        | inr hlater => exact hrest.closed other hlater

theorem tail (hended : Ended (segment :: rest)) : Ended rest where
  unbroken other hmem := hended.unbroken other (mem_cons_of_mem segment hmem)
  ending other hmem := hended.ending other (mem_cons_of_mem segment hmem)
  closed other hmem := by
    cases rest with
    | nil => cases hmem
    | cons next others =>
        apply hended.closed
        rw [dropLast_cons_cons]
        exact mem_cons_of_mem segment hmem

theorem drop (hended : Ended lines) (count : ℕ) : Ended (lines.drop count) := by
  induction count generalizing lines with
  | zero => exact hended
  | succ count ih =>
      cases lines with
      | nil => exact hended
      | cons segment rest => exact ih hended.tail

/-- A line that another one follows has an ending. -/
theorem isEnding {next : Segment} (hended : Ended (segment :: next :: rest)) :
    IsEnding segment.ending := by
  apply (hended.ending segment mem_cons_self).resolve_left
  apply hended.closed
  rw [dropLast_cons_cons]
  exact mem_cons_self

end Ended

theorem ended_segmentsFrom {line : Text} (hline : Unbroken line) (text : Text) :
    Ended (segmentsFrom line text) := by
  fun_induction segmentsFrom line text with
  | case1 => exact Ended.nil
  | case2 line hne => exact Ended.last hline (Or.inl rfl)
  | case3 line c hbreak => exact Ended.last hline (Or.inr (Or.inr ⟨c, hbreak, rfl⟩))
  | case4 line c hbreak =>
      exact Ended.last (hline.concat (Bool.eq_false_of_not_eq_true hbreak)) (Or.inl rfl)
  | case5 line c d rest hreturn ih =>
      obtain ⟨rfl, rfl⟩ := hreturn
      exact Ended.cons hline (Or.inl rfl) (ih unbroken_nil)
  | case6 line c d rest hreturn hbreak ih =>
      exact Ended.cons hline (Or.inr ⟨c, hbreak, rfl⟩) (ih unbroken_nil)
  | case7 line c d rest hreturn hbreak ih =>
      exact ih (hline.concat (Bool.eq_false_of_not_eq_true hbreak))

theorem ended_segments (text : Text) : Ended (segments text) :=
  ended_segmentsFrom unbroken_nil text

/-! ## Lines put together with one separator -/

/-- Every line ends in `newline`, and the last one in `suffix`. -/
def Uniform (newline suffix : Text) (lines : List Segment) : Prop :=
  (∀ segment ∈ lines.dropLast, segment.ending = newline) ∧
    lines.getLast?.elim [] Segment.ending = suffix

/-- A carriage return alone ends a line, and a line feed alone the empty line behind it;
all that follow are empty as well, so that the text reads as if it were uniform. -/
def Merged : List Segment → Prop
  | segment :: next :: rest =>
      (segment.ending = crlf ∧ Merged (next :: rest)) ∨
        segment.ending = [carriageReturn] ∧ next = ⟨[], [lineFeed]⟩ ∧
          ∀ other ∈ rest, other = ⟨[], crlf⟩
  | _ => False

theorem uniform_cons_cons {newline suffix : Text} {next : Segment} :
    Uniform newline suffix (segment :: next :: rest) ↔
      segment.ending = newline ∧ Uniform newline suffix (next :: rest) := by
  rw [Uniform, Uniform, dropLast_cons_cons, forall_mem_cons, getLast?_cons_cons,
    and_assoc]

/-- A line that starts where a line break stands is empty. -/
theorem Unbroken.eq_nil {line rest other : Text} {c : CodePoint} (hline : Unbroken line)
    (hc : isLineBreak c = true) (heq : line ++ rest = c :: other) :
    line = [] ∧ rest = c :: other := by
  cases line with
  | nil => exact ⟨rfl, heq⟩
  | cons d line =>
      have hd := hline d mem_cons_self
      rw [(List.cons.inj heq).1, hc] at hd
      cases hd

theorem IsEnding.length_le {ending : Text} (hending : IsEnding ending) : ending.length ≤ 2 := by
  rcases hending with hboth | ⟨c, -, hsingle⟩
  · simp [hboth, crlf]
  · simp [hsingle]

theorem Ended.length_ending_le (hended : Ended lines) (hmem : segment ∈ lines) :
    segment.ending.length ≤ 2 := by
  cases hended.ending segment hmem with
  | inl hnone =>
      rw [hnone]
      exact Nat.zero_le 2
  | inr hending => exact hending.length_le

theorem length_flatMap_text (lines : List Segment) :
    (lines.flatMap Segment.text).length =
      ((lines.map Segment.line).map List.length).sum +
        (lines.map fun segment => segment.ending.length).sum := by
  induction lines with
  | nil => rfl
  | cons segment rest ih =>
      rw [flatMap_cons, length_append, ih, Segment.text, length_append]
      simp only [map_cons, sum_cons]
      omega

/-- Endings that are together as long as can be are all `crlf`. -/
theorem Ended.eq_crlf_of_long (hended : Ended lines)
    (hlong : 2 * lines.length ≤ (lines.map fun segment => segment.ending.length).sum) :
    (lines.map fun segment => segment.ending.length).sum = 2 * lines.length ∧
      ∀ segment ∈ lines, segment.ending = crlf := by
  induction lines with
  | nil => simp
  | cons segment rest ih =>
      have hrest : (rest.map fun segment => segment.ending.length).sum ≤ 2 * rest.length := by
        rw [Nat.mul_comm, ← smul_eq_mul]
        have hbound := sum_le_card_nsmul
          (rest.map fun segment => segment.ending.length) 2
        rw [length_map] at hbound
        apply hbound
        intro length hlength
        obtain ⟨other, hother, rfl⟩ := mem_map.mp hlength
        exact hended.tail.length_ending_le hother
      have hfirst := hended.length_ending_le mem_cons_self
      rw [map_cons, sum_cons, length_cons] at hlong ⊢
      obtain ⟨hsum, hall⟩ := ih hended.tail (by omega)
      constructor
      · omega
      · intro other hmem
        cases mem_cons.mp hmem with
        | inl heq =>
            have htwo : other.ending.length = 2 := by
              rw [heq]
              omega
            rcases hended.ending other hmem with hnone | hboth | ⟨c, -, hsingle⟩
            · rw [hnone] at htwo
              cases htwo
            · exact hboth
            · rw [hsingle] at htwo
              cases htwo
        | inr hlater => exact hall other hlater

/-- Lines that end in `crlf` and stand one line break further on are empty. -/
theorem eq_blank_of_shifted (hended : Ended lines)
    (hcrlf : ∀ segment ∈ lines, segment.ending = crlf)
    (hshifted : lines.flatMap Segment.text = crlf ++ crlf.intercalate (lines.map Segment.line)) :
    ∀ segment ∈ lines, segment = ⟨[], crlf⟩ := by
  induction lines with
  | nil => simp
  | cons segment rest ih =>
      rw [flatMap_cons, Segment.text, append_assoc, map_cons] at hshifted
      obtain ⟨hline, hbehind⟩ := (hended.unbroken segment mem_cons_self).eq_nil
        isLineBreak_carriageReturn hshifted
      have hending := hcrlf segment mem_cons_self
      have hblank : segment = ⟨[], crlf⟩ := Segment.ext hline hending
      rw [hending, hline] at hbehind
      have hrest : rest.flatMap Segment.text = crlf.intercalate ([] :: rest.map Segment.line) :=
        append_cancel_left hbehind
      intro other hmem
      cases mem_cons.mp hmem with
      | inl hfirst => exact hfirst.trans hblank
      | inr hlater =>
          apply ih hended.tail (fun third hthird => hcrlf third (mem_cons_of_mem _ hthird)) _
            other hlater
          rw [hrest, intercalate_cons_of_ne_nil (by
            rw [ne_eq, map_eq_nil_iff]
            exact ne_nil_of_mem hlater), nil_append]

theorem flatMap_blank (lines : List Segment) (hblank : ∀ segment ∈ lines, segment = ⟨[], crlf⟩) :
    lines.flatMap Segment.text = crlf.intercalate ([] :: lines.map Segment.line) := by
  induction lines with
  | nil => rfl
  | cons segment rest ih =>
      have hrest := ih fun other hother => hblank other (mem_cons_of_mem segment hother)
      rw [hblank segment mem_cons_self, flatMap_cons, hrest, map_cons,
        intercalate_cons_cons]
      rfl

/-- Lines stand one line break further on where they are all empty. -/
theorem shifted_iff (hended : Ended lines) (hne : lines ≠ []) (suffix : Text) :
    lines.flatMap Segment.text = crlf ++ crlf.intercalate (lines.map Segment.line) ++ suffix ↔
      suffix = [] ∧ ∀ segment ∈ lines, segment = ⟨[], crlf⟩ := by
  constructor
  · intro hshifted
    have hlength := congrArg List.length hshifted
    rw [length_flatMap_text, length_append, length_append, length_intercalate,
      length_map] at hlength
    have hpositive := length_pos_iff.mpr hne
    have htwo : crlf.length = 2 := rfl
    rw [htwo] at hlength
    obtain ⟨hsum, hcrlf⟩ := hended.eq_crlf_of_long (by omega)
    have hsuffix : suffix = [] := by
      rw [← length_eq_zero_iff]
      omega
    rw [hsuffix, append_nil] at hshifted
    exact ⟨hsuffix, eq_blank_of_shifted hended hcrlf hshifted⟩
  · rintro ⟨rfl, hblank⟩
    rw [flatMap_blank lines hblank, append_nil, intercalate_cons_of_ne_nil (by
      rwa [ne_eq, map_eq_nil_iff]), nil_append]

/-- The second half of a line break that the first line lost. -/
theorem merged_tail_iff {next : Segment} (hended : Ended (next :: rest)) (suffix : Text) :
    (next :: rest).flatMap Segment.text =
        lineFeed :: (crlf.intercalate ((next :: rest).map Segment.line) ++ suffix) ↔
      suffix = [] ∧ next = ⟨[], [lineFeed]⟩ ∧ ∀ other ∈ rest, other = ⟨[], crlf⟩ := by
  constructor
  · intro heq
    rw [flatMap_cons, Segment.text, append_assoc] at heq
    obtain ⟨hline, hbehind⟩ := (hended.unbroken next mem_cons_self).eq_nil
      isLineBreak_lineFeed heq
    have hending : next.ending = [lineFeed] ∧
        rest.flatMap Segment.text = crlf.intercalate ([] :: rest.map Segment.line) ++ suffix := by
      rw [map_cons, hline] at hbehind
      rcases hended.ending next mem_cons_self with hnone | hboth | ⟨c, -, hsingle⟩
      · -- only the last line has no ending, and then nothing is left to compare
        cases rest with
        | nil =>
            rw [hnone] at hbehind
            cases hbehind
        | cons other more =>
            exact absurd hnone (hended.closed next (by
              rw [dropLast_cons_cons]
              exact mem_cons_self))
      · rw [hboth] at hbehind
        exact absurd (List.cons.inj hbehind).1.symm lineFeed_ne_carriageReturn
      · rw [hsingle] at hbehind ⊢
        obtain ⟨hc, htail⟩ := List.cons.inj hbehind
        exact ⟨by rw [hc], htail⟩
    have hnext : next = ⟨[], [lineFeed]⟩ := Segment.ext hline hending.1
    cases rest with
    | nil =>
        have hsuffix : [] = suffix := hending.2
        exact ⟨hsuffix.symm, hnext, by simp⟩
    | cons other more =>
        have hshifted := hending.2
        rw [intercalate_cons_of_ne_nil (by simp), nil_append] at hshifted
        obtain ⟨hsuffix, hblank⟩ := (shifted_iff hended.tail (by simp) suffix).mp hshifted
        exact ⟨hsuffix, hnext, hblank⟩
  · rintro ⟨rfl, rfl, hblank⟩
    rw [flatMap_cons, flatMap_blank rest hblank, append_nil]
    rfl

/-- Lines joined with a separator are the text again exactly where the separator is what
ends each of them, or where two half line breaks meet. -/
theorem flatMap_text_eq_iff (hended : Ended lines) {newline : Text}
    (hnewline : newline = [lineFeed] ∨ newline = crlf) (suffix : Text) :
    lines.flatMap Segment.text = newline.intercalate (lines.map Segment.line) ++ suffix ↔
      Uniform newline suffix lines ∨ newline = crlf ∧ suffix = [] ∧ Merged lines := by
  induction lines with
  | nil => simp [Uniform, Merged, eq_comm]
  | cons segment rest ih =>
      cases rest with
      | nil => simp [Uniform, Merged, Segment.text]
      | cons next others =>
          rw [flatMap_cons, Segment.text, map_cons, map_cons,
            intercalate_cons_cons, append_assoc, append_assoc, append_assoc,
            append_cancel_left_eq, uniform_cons_cons, Merged, ← map_cons]
          by_cases hsame : segment.ending = newline
          · rw [hsame, append_cancel_left_eq, ih hended.tail]
            constructor
            · rintro (huniform | ⟨rfl, hsuffix, hmerged⟩)
              · exact Or.inl ⟨rfl, huniform⟩
              · exact Or.inr ⟨rfl, hsuffix, Or.inl ⟨rfl, hmerged⟩⟩
            · rintro (⟨-, huniform⟩ | ⟨rfl, hsuffix, ⟨-, hmerged⟩ | ⟨hreturn, -⟩⟩)
              · exact Or.inl huniform
              · exact Or.inr ⟨rfl, hsuffix, hmerged⟩
              · cases hreturn
          · rcases hnewline with rfl | rfl
            · -- a line feed begins no other ending
              constructor
              · intro heq
                rcases hended.isEnding with hboth | ⟨c, -, hsingle⟩
                · rw [hboth] at heq
                  exact absurd (List.cons.inj heq).1.symm lineFeed_ne_carriageReturn
                · rw [hsingle] at heq
                  exact absurd (by rw [hsingle, (List.cons.inj heq).1]) hsame
              · rintro (⟨hending, -⟩ | ⟨hcrlf, -⟩)
                · exact absurd hending hsame
                · cases hcrlf
            · constructor
              · intro heq
                rcases hended.isEnding with hboth | ⟨c, -, hsingle⟩
                · exact absurd hboth hsame
                · rw [hsingle] at heq
                  obtain ⟨hc, htail⟩ := List.cons.inj heq
                  obtain ⟨hsuffix, hmerged⟩ := (merged_tail_iff hended.tail suffix).mp htail
                  exact Or.inr ⟨rfl, hsuffix, Or.inr ⟨by rw [hsingle, hc], hmerged⟩⟩
              · rintro (⟨hending, -⟩ | ⟨-, hsuffix, ⟨hending, -⟩ | ⟨hreturn, hmerged⟩⟩)
                · exact absurd hending hsame
                · exact absurd hending hsame
                · rw [hreturn]
                  exact congrArg (carriageReturn :: ·)
                    ((merged_tail_iff hended.tail suffix).mpr ⟨hsuffix, hmerged⟩)

end PyText
