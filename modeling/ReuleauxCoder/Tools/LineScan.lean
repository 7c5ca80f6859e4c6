import ReuleauxCoder.Tools.Retention

/-!
# Scanning lines without building them

The scan keeps the next position of each separator and looks it up again only when it is
passed; its spans are the ranges of the lines that `splitlines` gives, from either end.
-/

namespace ReuleauxCoder.Tools

open PyText Boundaries List

variable {c : CodePoint}

theorem mem_lineSeparators : c ∈ lineSeparators ↔ isLineBreak c = true := by
  have hvalues : lineSeparators.map Fin.val =
      [0x0A, 0x0D, 0x0B, 0x0C, 0x1C, 0x1D, 0x1E, 0x85, 0x2028, 0x2029] := by
    decide
  rw [← mem_map_of_injective Fin.val_injective, hvalues]
  simp only [isLineBreak, mem_cons, not_mem_nil, Bool.or_eq_true, Bool.and_eq_true,
    decide_eq_true_eq, beq_iff_eq, or_false]
  omega

/-- The separators that a scan of the text knows. -/
def Separators (text : Text) (separators : List CodePoint) : Prop :=
  ∀ c ∈ text, c ∈ separators ↔ isLineBreak c = true

theorem separators_lineSummary (text : Text) : Separators text (lineSummary text).2 := by
  intro c hc
  have hmem : c ∈ lineSeparators.filter (fun c => decide (c ∈ text)) ↔
      c ∈ lineSeparators ∧ c ∈ text := by
    rw [mem_filter, decide_eq_true_iff]
  exact hmem.trans ((and_iff_left hc).trans mem_lineSeparators)

variable {line : Text} {lines : List Segment}

section Scans

variable {separators : List CodePoint} {text : Text}

variable {back front : Text} {position seen : ℕ} {segment : Segment}

/-- In a line no separator is found. -/
theorem ne_separator_of_line (hseparators : Separators text separators)
    (htext : text = front ++ line ++ back) (hline : Unbroken line) {index : ℕ}
    (hlow : front.length ≤ index) (hhigh : index < front.length + line.length) :
    ∀ c ∈ separators, text[index]? ≠ some c := by
  intro c hc hsome
  obtain ⟨d, hd, hthere⟩ := exists_mem_line back hlow hhigh
  rw [htext, hthere] at hsome
  obtain rfl := Option.some.inj hsome
  have hmem : d ∈ text := by
    rw [htext]
    exact mem_append_left _ (mem_append_right _ hd)
  have hbreak := (hseparators d hmem).mp hc
  rw [hline d hd] at hbreak
  cases hbreak

theorem headSpans_of_length_le (hposition : text.length ≤ position) (count : ℕ)
    (boundaries : Cache CodePoint) : headSpans text count position boundaries = [] := by
  cases count with
  | zero => rfl
  | succ count => rw [headSpans, if_pos hposition]

theorem headSpans_step {stop : ℕ} (hposition : position < text.length) (hseen : seen ≤ position)
    (hstop : nearest text.length (forwardFrom separators text position) = stop) (count : ℕ) :
    headSpans text (count + 1) position (forwardFrom separators text seen) =
      ⟨position, stop⟩ ::
        headSpans text count (stop + if crlf.isPrefixOf (text.drop stop) then 2 else 1)
          (forwardFrom separators text position) := by
  simp only [headSpans, if_neg (Nat.not_le.mpr hposition), forward_forwardFrom hseen, hstop]

/-- An ending is taken as a whole. -/
theorem exists_ending {ending : Text} {rest : Text} (hending : IsEnding ending)
    (hapart : ending = [carriageReturn] → ¬ [lineFeed] <+: rest) :
    ∃ c tail, ending ++ rest = c :: tail ∧ isLineBreak c = true ∧
      (if crlf.isPrefixOf (ending ++ rest) then 2 else 1) = ending.length := by
  cases hending with
  | inl hboth =>
      subst hboth
      have hcrlf : crlf.isPrefixOf (crlf ++ rest) = true :=
        List.isPrefixOf_iff_prefix.mpr (prefix_append crlf rest)
      refine ⟨carriageReturn, lineFeed :: rest, rfl, isLineBreak_carriageReturn, ?_⟩
      rw [hcrlf]
      rfl
  | inr hone =>
      obtain ⟨c, hbreak, rfl⟩ := hone
      refine ⟨c, rest, rfl, hbreak, ?_⟩
      rw [if_neg]
      · rfl
      · intro hcrlf
        have hboth := List.isPrefixOf_iff_prefix.mp hcrlf
        rw [crlf, singleton_append, cons_prefix_cons] at hboth
        exact hapart (congrArg (· :: []) hboth.1.symm) hboth.2

/-- From the beginning of a line on, the spans are the ranges of the lines. -/
theorem headSpans_eq (hseparators : Separators text separators) (hcut : Cut lines)
    (htext : text = front ++ lines.flatMap Segment.text) (hseen : seen ≤ front.length) (count : ℕ) :
    headSpans text count front.length (forwardFrom separators text seen) =
      (lineRangesFrom front.length lines).take count := by
  induction hcut generalizing front seen count with
  | nil =>
      rw [headSpans_of_length_le (by simp [htext]), lineRangesFrom, take_nil]
  | last hline hne =>
      rename_i line
      cases count with
      | zero => rfl
      | succ count =>
          have hwhole : text = front ++ line ++ [] := by simpa [Segment.text] using htext
          have hlength : text.length = front.length + line.length := by simp [hwhole]
          have hpositive := length_pos_iff.mpr hne
          have hstop : nearest text.length (forwardFrom separators text front.length) =
              text.length := by
            apply nearest_forwardFrom_none
            intro index hlow
            by_cases hhigh : index < front.length + line.length
            · exact ne_separator_of_line hseparators hwhole hline hlow hhigh
            · intro c _
              rw [getElem?_eq_none (by omega)]
              intro hsome
              cases hsome
          have hbehind : text.length ≤
              text.length + if crlf.isPrefixOf (text.drop text.length) then 2 else 1 :=
            Nat.le_add_right _ _
          rw [headSpans_step (by omega) hseen hstop, headSpans_of_length_le hbehind, hlength,
            lineRangesFrom, lineRangesFrom, take_succ_cons, take_nil]
  | cons hline hending hapart hrest ih =>
      rename_i line ending rest
      cases count with
      | zero => rfl
      | succ count =>
          have hwhole : text = front ++ line ++ (ending ++ rest.flatMap Segment.text) := by
            simpa [Segment.text] using htext
          have hnext : text = (front ++ (line ++ ending)) ++ rest.flatMap Segment.text := by
            simpa [Segment.text] using htext
          have hdrop : text.drop (front.length + line.length) =
              ending ++ rest.flatMap Segment.text := by
            rw [hwhole, ← length_append, drop_left]
          obtain ⟨c, tail, hc, hbreak, hlength⟩ : ∃ c tail,
              ending ++ rest.flatMap Segment.text = c :: tail ∧ isLineBreak c = true ∧
                (if crlf.isPrefixOf (ending ++ rest.flatMap Segment.text) then 2 else 1) =
                  ending.length :=
            exists_ending hending hapart
          have hstop : nearest text.length (forwardFrom separators text front.length) =
              front.length + line.length := by
            have hhere : text[front.length + line.length]? = some c := by
              rw [hwhole, hc, ← length_append]
              exact getElem?_append_cons _ c tail
            apply nearest_forwardFrom (Nat.le_add_right _ _)
            · exact ⟨c, (hseparators c (mem_of_getElem? hhere)).mpr hbreak, hhere⟩
            · intro index hlow hhigh
              exact ne_separator_of_line hseparators hwhole hline hlow hhigh
          have hposition : front.length < text.length := by
            rw [hwhole, hc]
            simp
          have hadvance : front.length + line.length + ending.length =
              (front ++ (line ++ ending)).length := by
            rw [length_append, length_append, Nat.add_assoc]
          have htail := ih hnext (Nat.le.intro (length_append).symm) count
          rw [headSpans_step hposition hseen hstop, hdrop, hlength, hadvance, htail, lineRangesFrom,
            take_succ_cons, ← hadvance, Segment.text, length_append, Nat.add_assoc]

/-! ## Backwards -/

theorem tailSpans_zero (count : ℕ) (boundaries : Cache CodePoint) :
    tailSpans text count 0 boundaries = [] := by
  cases count with
  | zero => rfl
  | succ count => rw [tailSpans, if_pos rfl]

theorem tailSpans_step {stop start : ℕ} (hposition : position ≠ 0)
    (hstop : lineStop text position = stop) (hseen : stop ≤ seen)
    (hstart : behindFarthest (backwardFrom separators text stop) = start) (count : ℕ) :
    tailSpans text (count + 1) position (backwardFrom separators text seen) =
      ⟨start, stop⟩ ::
        tailSpans text count start (backwardFrom separators text stop) := by
  simp only [tailSpans, if_neg hposition, hstop, backward_backwardFrom hseen, hstart]

theorem lineStop_of_unbroken (htext : text = front ++ c :: back) (hc : isLineBreak c = false) :
    lineStop text (front.length + 1) = front.length + 1 := by
  have hhere : text[front.length]? = some c := by
    rw [htext]
    exact getElem?_append_cons front c back
  have hmiss : ¬ c ∈ lineSeparators := by
    rw [mem_lineSeparators, hc]
    exact Bool.false_ne_true
  rw [lineStop, Nat.add_sub_cancel, hhere, Option.any_some, decide_eq_false hmiss,
    if_neg Bool.false_ne_true]

theorem lineStop_of_isLineBreak (htext : text = front ++ c :: back) (hc : isLineBreak c = true) :
    lineStop text (front.length + 1) =
      if c = lineFeed ∧ front.getLast? = some carriageReturn then front.length - 1
      else front.length := by
  have hhere : text[front.length]? = some c := by
    rw [htext]
    exact getElem?_append_cons front c back
  have hlast : (front.length ≠ 0 ∧ text[front.length - 1]? = some carriageReturn) ↔
      front.getLast? = some carriageReturn := by
    rw [htext, getLast?_eq_getElem?]
    constructor
    · rintro ⟨hne, hreturn⟩
      rwa [getElem?_append_left (by omega)] at hreturn
    · intro hreturn
      have hlt := (List.getElem?_eq_some_iff.mp hreturn).1
      exact ⟨by omega, by rwa [getElem?_append_left hlt]⟩
  rw [lineStop, Nat.add_sub_cancel, hhere, Option.any_some,
    decide_eq_true (mem_lineSeparators.mpr hc), if_pos rfl]
  simp only [hhere, Option.some.injEq, hlast]

/-- Before an ending a carriage return stands only where the line is empty. -/
theorem getLast?_front {front : List Segment} (hbehind : Behind front segment)
    (hreturn : (front.flatMap Segment.text ++ segment.line).getLast? = some carriageReturn) :
    segment.line = [] ∧ ¬ [lineFeed] <+: segment.text := by
  by_cases hempty : segment.line = []
  · rw [hempty, append_nil] at hreturn
    have hfront : front ≠ [] := by
      rintro rfl
      cases hreturn
    obtain ⟨text, c, htext, -, happart⟩ := hbehind.closed hfront
    rw [htext, getLast?_concat] at hreturn
    exact ⟨hempty, happart (Option.some.inj hreturn)⟩
  · rw [getLast?_append_of_ne_nil _ hempty] at hreturn
    have hmem := mem_of_getLast? hreturn
    have hbreak := hbehind.unbroken carriageReturn hmem
    rw [isLineBreak_carriageReturn] at hbreak
    cases hbreak

/-- The end of a line is found from behind its ending. -/
theorem lineStop_eq {front : List Segment} (hbehind : Behind front segment)
    (htext : text = front.flatMap Segment.text ++ segment.text ++ back) :
    lineStop text ((front.flatMap Segment.text).length + segment.text.length) =
      (front.flatMap Segment.text).length + segment.line.length := by
  have hapart := getLast?_front hbehind
  have hunbroken := hbehind.unbroken
  have hending := hbehind.ending
  rw [Segment.text] at htext hapart ⊢
  generalize front.flatMap Segment.text = before at htext hapart ⊢
  obtain ⟨line, ending⟩ := segment
  cases hending with
  | inl hlast =>
      obtain ⟨hnone, hne⟩ := hlast
      obtain ⟨begun, c, hline⟩ := (eq_nil_or_concat' line).resolve_left hne
      change ending = [] at hnone
      subst hnone
      change line = begun ++ [c] at hline
      subst hline
      have hwhole : text = (before ++ begun) ++ c :: back := by simpa using htext
      have hc : isLineBreak c = false := hunbroken c (by simp)
      have hstop := lineStop_of_unbroken hwhole hc
      simpa [Nat.add_assoc] using hstop
  | inr hending =>
      cases hending with
      | inl hboth =>
          change ending = crlf at hboth
          subst hboth
          have hwhole : text = (before ++ line ++ [carriageReturn]) ++ lineFeed :: back := by
            simpa [crlf] using htext
          have hstop := lineStop_of_isLineBreak hwhole isLineBreak_lineFeed
          rw [if_pos ⟨rfl, getLast?_concat⟩] at hstop
          simpa [crlf, Nat.add_assoc] using hstop
      | inr hone =>
          obtain ⟨c, hbreak, hsingle⟩ := hone
          change ending = [c] at hsingle
          subst hsingle
          have hwhole : text = (before ++ line) ++ c :: back := by simpa using htext
          have hstop := lineStop_of_isLineBreak hwhole hbreak
          rw [if_neg] at hstop
          · simpa [Nat.add_assoc] using hstop
          · rintro ⟨hfeed, hreturn⟩
            obtain ⟨hempty, hnofeed⟩ := hapart hreturn
            change line = [] at hempty
            apply hnofeed
            simp [hfeed, hempty]

/-- The line begins behind the last line break before it. -/
theorem behindFarthest_eq (hseparators : Separators text separators) {front : List Segment}
    (hbehind : Behind front segment)
    (htext : text = front.flatMap Segment.text ++ segment.text ++ back) :
    behindFarthest (backwardFrom separators text
      ((front.flatMap Segment.text).length + segment.line.length)) =
        (front.flatMap Segment.text).length := by
  have hwhole : text =
      front.flatMap Segment.text ++ segment.line ++ (segment.ending ++ back) := by
    simpa [Segment.text] using htext
  by_cases hempty : front = []
  · subst hempty
    apply behindFarthest_backwardFrom_none
    intro index hhigh
    exact ne_separator_of_line hseparators hwhole hbehind.unbroken (Nat.zero_le _) hhigh
  · obtain ⟨before, c, hbefore, hbreak, -⟩ := hbehind.closed hempty
    have hlength : (front.flatMap Segment.text).length = before.length + 1 := by simp [hbefore]
    have hhere : text[before.length]? = some c := by
      have hsplit : text = before ++ c :: (segment.text ++ back) := by simp [htext, hbefore]
      rw [hsplit]
      exact getElem?_append_cons _ _ _
    rw [hlength]
    apply behindFarthest_backwardFrom
    · omega
    · exact ⟨c, (hseparators c (mem_of_getElem? hhere)).mpr hbreak, hhere⟩
    · intro index hlow hhigh
      exact ne_separator_of_line hseparators hwhole hbehind.unbroken (by omega) (by omega)

/-- From behind a line back, the spans are the ranges of the lines in reverse. -/
theorem tailSpans_eq (hseparators : Separators text separators) (hcut : Cut lines)
    (htext : text = lines.flatMap Segment.text ++ back)
    (hseen : (lines.flatMap Segment.text).length ≤ seen) (count : ℕ) :
    tailSpans text count (lines.flatMap Segment.text).length
        (backwardFrom separators text seen) =
      (lineRangesFrom 0 lines).reverse.take count := by
  induction lines using List.reverseRecOn generalizing back seen count with
  | nil => rw [flatMap_nil, length_nil, tailSpans_zero, lineRangesFrom, reverse_nil,
      take_nil]
  | append_singleton front segment ih =>
      cases count with
      | zero => rfl
      | succ count =>
          obtain ⟨hfront, hbehind⟩ := hcut.concat
          have hwhole : text = front.flatMap Segment.text ++ segment.text ++ back := by
            simpa using htext
          have hnext : text = front.flatMap Segment.text ++ (segment.text ++ back) := by
            simpa using htext
          have hlength : ((front ++ [segment]).flatMap Segment.text).length =
              (front.flatMap Segment.text).length + segment.text.length := by simp
          have hpositive : (front.flatMap Segment.text).length + segment.text.length ≠ 0 := by
            have hfilled := length_pos_iff.mpr hbehind.text_ne_nil
            omega
          have hline : segment.line.length ≤ segment.text.length := by
            rw [Segment.text, length_append]
            exact Nat.le_add_right _ _
          have hstart := behindFarthest_eq hseparators hbehind hwhole
          rw [hlength] at hseen ⊢
          rw [tailSpans_step hpositive (lineStop_eq hbehind hwhole) (by omega) hstart,
            ih hfront hnext (Nat.le_add_right _ _), lineRangesFrom_concat, reverse_append,
            reverse_singleton, singleton_append, take_succ_cons, Nat.zero_add]

end Scans

/-! ## Counting -/

theorem sum_indicator {separators : List CodePoint} (hnodup : separators.Nodup) (c : CodePoint) :
    (separators.map fun separator => if (c == separator) = true then 1 else 0).sum =
      if c ∈ separators then 1 else 0 := by
  induction separators with
  | nil => rfl
  | cons separator rest ih =>
      have hrest := ih hnodup.of_cons
      by_cases hc : c = separator
      · subst hc
        have hnot : c ∉ rest := (nodup_cons.mp hnodup).1
        rw [if_neg hnot] at hrest
        rw [map_cons, sum_cons, hrest]
        simp
      · rw [map_cons, sum_cons, hrest]
        simp [hc]

/-- Each symbol is counted under one separator. -/
theorem sum_count {separators : List CodePoint} (hnodup : separators.Nodup) (text : Text) :
    (separators.map fun separator => text.count separator).sum =
      text.countP fun c => decide (c ∈ separators) := by
  induction text with
  | nil => simp
  | cons c rest ih =>
      have hcount : (fun separator => (c :: rest).count separator) =
          fun separator => rest.count separator + if (c == separator) = true then 1 else 0 := by
        funext separator
        exact count_cons
      rw [hcount, sum_map_add, ih, sum_indicator hnodup, countP_cons]
      simp

def countCrlf (text : Text) : ℕ :=
  Occurrences.countApart (· == ·) crlf text

theorem countCrlf_cons {rest : Text} (hapart : c = carriageReturn → ¬ [lineFeed] <+: rest) :
    countCrlf (c :: rest) = countCrlf rest := by
  rw [countCrlf, Occurrences.countApart, Occurrences.countApartFrom, if_neg]
  · rfl
  · intro hbegins
    rw [crlf, Occurrences.begins, Bool.and_eq_true, beq_iff_eq] at hbegins
    apply hapart hbegins.1.symm
    cases rest with
    | nil => cases hbegins.2
    | cons d rest =>
        have hfeed := hbegins.2
        rw [Occurrences.begins, Bool.and_eq_true, beq_iff_eq] at hfeed
        rw [hfeed.1]
        exact prefix_append [d] rest

theorem countCrlf_crlf (rest : Text) : countCrlf (crlf ++ rest) = countCrlf rest + 1 := by
  simp [countCrlf, Occurrences.countApart, Occurrences.countApartFrom, Occurrences.begins, crlf]

theorem countCrlf_unbroken (hline : Unbroken line) (rest : Text) :
    countCrlf (line ++ rest) = countCrlf rest := by
  induction line with
  | nil => rfl
  | cons c line ih =>
      have hc : c ≠ carriageReturn := by
        rintro rfl
        have hbreak := hline carriageReturn mem_cons_self
        rw [isLineBreak_carriageReturn] at hbreak
        cases hbreak
      rw [cons_append, countCrlf_cons fun hreturn => absurd hreturn hc,
        ih fun d hd => hline d (mem_cons_of_mem _ hd)]

theorem countCrlf_of_notMem {text : Text} (hnone : carriageReturn ∉ text ∨ lineFeed ∉ text) :
    countCrlf text = 0 := by
  induction text with
  | nil => rfl
  | cons c rest ih =>
      rw [countCrlf_cons]
      · exact ih (hnone.imp (fun hnot hmem => hnot (mem_cons_of_mem c hmem))
          fun hnot hmem => hnot (mem_cons_of_mem c hmem))
      · rintro rfl hfeed
        cases hnone with
        | inl hreturn => exact hreturn mem_cons_self
        | inr hnofeed =>
            exact hnofeed (mem_cons_of_mem _ (hfeed.subset (mem_singleton_self _)))

/-- The last line is without an ending. -/
def endsOpen (text : Text) : Bool :=
  text.getLast?.any fun c => decide (c ∉ lineSeparators)

theorem exists_last_of_isEnding {ending : Text} (hending : IsEnding ending) :
    ∃ begun c, ending = begun ++ [c] ∧ isLineBreak c = true := by
  cases hending with
  | inl hboth => exact ⟨[carriageReturn], lineFeed, hboth, isLineBreak_lineFeed⟩
  | inr hone =>
      obtain ⟨c, hbreak, hsingle⟩ := hone
      exact ⟨[], c, hsingle, hbreak⟩

theorem countP_unbroken (hline : Unbroken line) : line.countP isLineBreak = 0 := by
  rw [countP_eq_zero]
  intro c hc
  rw [hline c hc]
  exact Bool.false_ne_true

/-- Every line break ends one line, and only a last line has none. -/
theorem countP_isLineBreak (hcut : Cut lines) :
    (lines.flatMap Segment.text).countP isLineBreak +
        (if endsOpen (lines.flatMap Segment.text) then 1 else 0) =
      lines.length + countCrlf (lines.flatMap Segment.text) := by
  induction hcut with
  | nil => rfl
  | last hline hne =>
      rename_i line
      have hopen : endsOpen line = true := by
        rw [endsOpen, getLast?_eq_some_getLast hne, Option.any_some, decide_eq_true_iff,
          mem_lineSeparators, hline _ (getLast_mem hne)]
        exact Bool.false_ne_true
      have hcrlf := countCrlf_unbroken hline []
      rw [append_nil, show countCrlf [] = 0 from rfl] at hcrlf
      simp [Segment.text, countP_unbroken hline, hopen, hcrlf]
  | cons hline hending hapart hrest ih =>
      rename_i line ending rest
      have htext : (⟨line, ending⟩ :: rest).flatMap Segment.text =
          line ++ (ending ++ rest.flatMap Segment.text) := by
        simp [Segment.text]
      generalize rest.flatMap Segment.text = more at *
      have hopen : endsOpen (line ++ (ending ++ more)) = endsOpen more := by
        obtain ⟨begun, c, hended, hbreak⟩ := exists_last_of_isEnding hending
        rw [hended, endsOpen, endsOpen, ← append_assoc, ← append_assoc]
        cases more with
        | nil =>
            rw [append_nil, getLast?_concat, Option.any_some,
              decide_eq_false (not_not.mpr (mem_lineSeparators.mpr hbreak))]
            rfl
        | cons d more => rw [getLast?_append_of_ne_nil _ (cons_ne_nil d more)]
      rw [htext, hopen, countP_append, countP_unbroken hline, countCrlf_unbroken hline,
        Nat.zero_add, countP_append, length_cons]
      cases hending with
      | inl hboth =>
          subst hboth
          have htwo : crlf.countP isLineBreak = 2 := by decide
          rw [countCrlf_crlf, htwo]
          omega
      | inr hone =>
          obtain ⟨c, hbreak, rfl⟩ := hone
          have hfirst := countCrlf_cons fun hreturn : c = carriageReturn =>
            hapart (congrArg (· :: []) hreturn)
          rw [singleton_append, hfirst]
          simp only [countP_singleton, hbreak, if_true]
          omega

/-- `_line_summary` counts the lines that `splitlines` gives. -/
theorem lineSummary_eq (text : Text) : (lineSummary text).1 = (splitLines text).length := by
  have hnodup : (lineSummary text).2.Nodup :=
    List.Nodup.filter _ (by decide : lineSeparators.Nodup)
  have hseparators := separators_lineSummary text
  have hbreaks := countP_isLineBreak (cut_segments text)
  rw [flatMap_segments, ← length_map Segment.line, map_line_segments] at hbreaks
  have hsum : ((lineSummary text).2.map fun c => text.count c).sum = text.countP isLineBreak := by
    rw [sum_count hnodup]
    apply countP_congr
    intro c hc
    rw [decide_eq_true_iff]
    exact hseparators c hc
  have hcount : (if carriageReturn ∈ (lineSummary text).2 ∧ lineFeed ∈ (lineSummary text).2 then
      text.countP isLineBreak - countCrlf text else text.countP isLineBreak) =
        text.countP isLineBreak - countCrlf text := by
    split
    · rfl
    · rename_i hboth
      have hnone : carriageReturn ∉ text ∨ lineFeed ∉ text := by
        by_contra hmem
        have hreturn : carriageReturn ∈ text := not_not.mp (not_or.mp hmem).1
        have hfeed : lineFeed ∈ text := not_not.mp (not_or.mp hmem).2
        exact hboth ⟨(hseparators _ hreturn).mpr isLineBreak_carriageReturn,
          (hseparators _ hfeed).mpr isLineBreak_lineFeed⟩
      rw [countCrlf_of_notMem hnone, Nat.sub_zero]
  have hsummary : (lineSummary text).1 = if endsOpen text then
      text.countP isLineBreak - countCrlf text + 1
      else text.countP isLineBreak - countCrlf text := by
    rw [← hcount, ← hsum]
    rfl
  rw [hsummary]
  split at hbreaks <;> rename_i hopen
  · have hfilled : splitLines text ≠ [] := by
      intro hnone
      rw [← map_line_segments, map_eq_nil_iff] at hnone
      have htext := flatMap_segments text
      rw [hnone] at htext
      rw [← htext] at hopen
      cases hopen
    have hpositive := length_pos_iff.mpr hfilled
    rw [if_pos hopen]
    omega
  · rw [if_neg hopen]
    omega

/-! ## Slices of the join -/

/-- The lines of the spans, joined. -/
def joinedSpans (text : Text) (spans : List Span) : Text :=
  [lineFeed].intercalate (spans.map (Span.of text))

section Slices

variable {start stop : ℕ}

theorem sliceSpans_false {text : Text} {spans : List Span}
    (hspans : ∀ span ∈ spans, span.Within text) (position : ℕ) :
    sliceSpans text start stop false position spans =
      sliceAt start stop position (spans.flatMap fun span => lineFeed :: Span.of text span) := by
  induction spans generalizing position with
  | nil => rw [sliceSpans, flatMap_nil, sliceAt, take_nil, drop_nil]
  | cons span rest ih =>
      have hwithin := hspans span mem_cons_self
      have hrest := ih fun other hother => hspans other (mem_cons_of_mem _ hother)
      have hfeed : (if (!false && decide (start ≤ position ∧ position < stop)) = true
          then [lineFeed] else []) = sliceAt start stop position [lineFeed] := by
        rw [sliceAt_singleton]
        simp
      have htail : (if stop ≤ position + 1 + (span.right - span.left) then []
          else sliceSpans text start stop false (position + 1 + (span.right - span.left)) rest) =
            sliceAt start stop (position + 1 + (span.right - span.left))
              (rest.flatMap fun span => lineFeed :: Span.of text span) := by
        rw [hrest]
        split
        · rename_i hstop
          rw [sliceAt, Nat.sub_eq_zero_of_le hstop, take_zero, drop_nil]
        · rfl
      have hjoin : ((span :: rest).flatMap fun span => lineFeed :: Span.of text span) =
          [lineFeed] ++ (Span.of text span ++
            rest.flatMap fun span => lineFeed :: Span.of text span) := rfl
      rw [hjoin, sliceAt_append, sliceAt_append, sliceAt_of hwithin, hwithin.length_of,
        length_singleton, ← hfeed, ← htail, ← append_assoc]
      rfl

theorem joinedSpans_cons (text : Text) (span : Span) (rest : List Span) :
    joinedSpans text (span :: rest) =
      Span.of text span ++ rest.flatMap fun span => lineFeed :: Span.of text span := by
  induction rest generalizing span with
  | nil => simp [joinedSpans]
  | cons next rest ih =>
      have hjoin : joinedSpans text (span :: next :: rest) =
          Span.of text span ++ [lineFeed] ++ joinedSpans text (next :: rest) := by
        simp [joinedSpans, intercalate_cons_cons]
      rw [hjoin, ih, flatMap_cons]
      simp

/-- `_slice_joined` is the slice of the joined lines. -/
theorem sliceJoined_eq {text : Text} {spans : List Span}
    (hspans : ∀ span ∈ spans, span.Within text) (start stop : ℕ) :
    sliceJoined text spans start stop = ((joinedSpans text spans).take stop).drop start := by
  cases spans with
  | nil => simp [sliceJoined, sliceSpans, joinedSpans]
  | cons span rest =>
      have hwithin := hspans span mem_cons_self
      have hrest : sliceSpans text start stop false (0 + (span.right - span.left)) rest =
          sliceAt start stop (0 + (span.right - span.left))
            (rest.flatMap fun span => lineFeed :: Span.of text span) :=
        sliceSpans_false (fun other hother => hspans other (mem_cons_of_mem _ hother)) _
      have htail : (if stop ≤ 0 + (span.right - span.left) then []
          else sliceSpans text start stop false (0 + (span.right - span.left)) rest) =
            sliceAt start stop (0 + (span.right - span.left))
              (rest.flatMap fun span => lineFeed :: Span.of text span) := by
        rw [hrest]
        split
        · rename_i hstop
          rw [sliceAt, Nat.sub_eq_zero_of_le hstop, take_zero, drop_nil]
        · rfl
      change _ = sliceAt start stop 0 _
      rw [joinedSpans_cons, sliceAt_append, sliceAt_of hwithin, hwithin.length_of, ← htail]
      rfl

end Slices

/-! ## The scan as a whole -/

theorem lineSpans_head (text : Text) (count : ℕ) :
    lineSpans text (lineSummary text).2 count false = (lineRanges text).take count := by
  have htext : text = [] ++ (segments text).flatMap Segment.text := (flatMap_segments text).symm
  exact headSpans_eq (separators_lineSummary text) (cut_segments text) htext le_rfl count

theorem lineSpans_tail (text : Text) (count : ℕ) :
    lineSpans text (lineSummary text).2 count true =
      (lineRanges text).drop ((splitLines text).length - count) := by
  have htext : text = (segments text).flatMap Segment.text ++ [] := by
    rw [append_nil, flatMap_segments]
  have hseen : ((segments text).flatMap Segment.text).length ≤ text.length := by
    rw [flatMap_segments]
  have htail := tailSpans_eq (separators_lineSummary text) (cut_segments text) htext hseen count
  rw [flatMap_segments] at htail
  change (tailSpans text count text.length _).reverse = _
  rw [htail, take_reverse, reverse_reverse, ← length_lineRanges]
  rfl

/-- The scan gives the number of the lines, the ranges of the first or last of them, and
slices of their join. -/
theorem lineScan_agrees (text : Text) :
    (lineSummary text).1 = (splitLines text).length ∧
      (lineRanges text).map (Span.of text) = splitLines text ∧
      (∀ count, lineSpans text (lineSummary text).2 count false =
        (lineRanges text).take count) ∧
      (∀ count, lineSpans text (lineSummary text).2 count true =
        (lineRanges text).drop ((splitLines text).length - count)) ∧
      ∀ spans : List Span, (∀ span ∈ spans, span.Within text) → ∀ start stop,
        sliceJoined text spans start stop =
          (([lineFeed].intercalate (spans.map (Span.of text))).take stop).drop start :=
  ⟨lineSummary_eq text, map_of_lineRanges text, lineSpans_head text, lineSpans_tail text,
    fun _ hspans => sliceJoined_eq hspans⟩

theorem lineScan_agrees_crlf :
    sliceJoined (lit "ab\r\nc") [⟨0, 2⟩, ⟨4, 5⟩] 1 4 = lit "b\nc" := by
  have hslice := (lineScan_agrees (lit "ab\r\nc")).2.2.2.2 [⟨0, 2⟩, ⟨4, 5⟩]
    (by
      intro span hspan
      have hcases : span = ⟨0, 2⟩ ∨ span = ⟨4, 5⟩ := by simpa using hspan
      cases hcases with
      | inl hfirst => exact hfirst ▸ ⟨by decide, by decide⟩
      | inr hsecond => exact hsecond ▸ ⟨by decide, by decide⟩) 1 4
  exact hslice

end ReuleauxCoder.Tools
