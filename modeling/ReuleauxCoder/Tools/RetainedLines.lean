import ReuleauxCoder.Tools.Excerpt

/-!
# How much is kept

The kept text is never longer than the output.  It never has more lines where it is the
beginning or the end; where it is both, it has one more for every line feed that is put in
or picked twice and not cut out again.
-/

namespace ReuleauxCoder.Tools

open PyText Boundaries Pieces List

/-! ## Texts whose only line break is the line feed -/

def OnlyFeeds (text : Text) : Prop :=
  ∀ c ∈ text, isLineBreak c = true → c = lineFeed

def feeds (text : Text) : ℕ :=
  text.count lineFeed

section Counts

variable {text part whole front back : Text}

theorem OnlyFeeds.mono (hwhole : OnlyFeeds whole) (hpart : ∀ c ∈ part, c ∈ whole) :
    OnlyFeeds part :=
  fun c hc => hwhole c (hpart c hc)

theorem countCrlf_of_onlyFeeds (htext : OnlyFeeds text) : countCrlf text = 0 := by
  apply countCrlf_of_notMem
  apply Or.inl
  intro hreturn
  have hfeed := htext carriageReturn hreturn isLineBreak_carriageReturn
  exact lineFeed_ne_carriageReturn hfeed.symm

theorem length_splitLines_of_onlyFeeds (htext : OnlyFeeds text) :
    (splitLines text).length = feeds text + if endsOpen text then 1 else 0 := by
  have hbreaks := countP_isLineBreak (cut_segments text)
  rw [flatMap_segments, ← length_map Segment.line, map_line_segments,
    countCrlf_of_onlyFeeds htext, Nat.add_zero] at hbreaks
  have hfeeds : text.countP isLineBreak = feeds text := by
    apply countP_congr
    intro c hc
    rw [beq_iff_eq]
    exact ⟨htext c hc, fun hfeed => hfeed ▸ isLineBreak_lineFeed⟩
  rw [← hbreaks, hfeeds]

theorem endsOpen_append (hback : back ≠ []) : endsOpen (front ++ back) = endsOpen back := by
  rw [endsOpen, endsOpen, getLast?_append_of_ne_nil _ hback]

theorem endsOpen_lineFeed (front back : Text) :
    endsOpen (front ++ lineFeed :: back) = endsOpen back := by
  rw [endsOpen_append (cons_ne_nil _ _)]
  cases back with
  | nil => decide
  | cons c rest => rfl

theorem feeds_append (front back : Text) : feeds (front ++ back) = feeds front + feeds back :=
  count_append

/-- Text behind a beginning that is not ended ends it, or is open itself. -/
theorem one_le_of_ne_nil (htext : text ≠ []) (honly : OnlyFeeds text) :
    1 ≤ feeds text + if endsOpen text then 1 else 0 := by
  obtain ⟨begun, c, rfl⟩ := (eq_nil_or_concat' text).resolve_left htext
  by_cases hbreak : isLineBreak c = true
  · have hfeed : c = lineFeed := honly c (by simp) hbreak
    have hcount : 0 < feeds (begun ++ [c]) :=
      count_pos_iff.mpr (hfeed ▸ mem_append_right _ (mem_singleton_self _))
    omega
  · have hopen : endsOpen (begun ++ [c]) = true := by
      rw [endsOpen, getLast?_concat, Option.any_some, decide_eq_true_iff,
        mem_lineSeparators]
      exact hbreak
    rw [if_pos hopen]
    exact Nat.le_add_left 1 _

theorem length_splitLines_prefix_le (hwhole : OnlyFeeds whole) (hpart : part <+: whole) :
    (splitLines part).length ≤ (splitLines whole).length := by
  have hcount := length_splitLines_of_onlyFeeds hwhole
  have hpartCount := length_splitLines_of_onlyFeeds (hwhole.mono fun c hc => hpart.subset hc)
  obtain ⟨rest, rfl⟩ := hpart
  by_cases hrest : rest = []
  · rw [hrest, append_nil]
  · have hone := one_le_of_ne_nil hrest (hwhole.mono fun c hc => mem_append_right _ hc)
    rw [endsOpen_append hrest, feeds_append] at hcount
    rw [hcount, hpartCount]
    split <;> omega

theorem length_splitLines_suffix_le (hwhole : OnlyFeeds whole) (hpart : part <:+ whole) :
    (splitLines part).length ≤ (splitLines whole).length := by
  have hcount := length_splitLines_of_onlyFeeds hwhole
  have hpartCount := length_splitLines_of_onlyFeeds (hwhole.mono fun c hc => hpart.subset hc)
  obtain ⟨front, rfl⟩ := hpart
  by_cases hnone : part = []
  · rw [hnone]
    exact Nat.zero_le _
  · rw [endsOpen_append hnone, feeds_append] at hcount
    omega

end Counts

/-! ## Joined lines -/

variable {c : CodePoint}

section Joined

variable {lines : List Text}

theorem mem_joinLines (hc : c ∈ joinLines lines) : c = lineFeed ∨ ∃ line ∈ lines, c ∈ line := by
  induction lines with
  | nil => cases hc
  | cons line rest ih =>
      cases rest with
      | nil =>
          rw [joinLines, intercalate_singleton] at hc
          exact .inr ⟨line, mem_cons_self, hc⟩
      | cons next others =>
          rw [joinLines, intercalate_cons_cons, append_assoc] at hc
          cases mem_append.mp hc with
          | inl hline => exact .inr ⟨line, mem_cons_self, hline⟩
          | inr hrest =>
              cases mem_cons.mp hrest with
              | inl hfeed => exact .inl hfeed
              | inr hothers =>
                  cases ih hothers with
                  | inl hfeed => exact .inl hfeed
                  | inr hlater =>
                      obtain ⟨other, hother, hmem⟩ := hlater
                      exact .inr ⟨other, mem_cons_of_mem _ hother, hmem⟩

theorem onlyFeeds_joinLines (hlines : ∀ line ∈ lines, Unbroken line) :
    OnlyFeeds (joinLines lines) := by
  intro c hc hbreak
  cases mem_joinLines hc with
  | inl hfeed => exact hfeed
  | inr hline =>
      obtain ⟨line, hline, hmem⟩ := hline
      rw [hlines line hline c hmem] at hbreak
      cases hbreak

theorem feeds_unbroken {line : Text} (hline : Unbroken line) : feeds line = 0 := by
  apply count_eq_zero.mpr
  intro hfeed
  have hbreak := hline _ hfeed
  rw [isLineBreak_lineFeed] at hbreak
  cases hbreak

theorem feeds_joinLines (hlines : ∀ line ∈ lines, Unbroken line) :
    feeds (joinLines lines) = lines.length - 1 := by
  induction lines with
  | nil => rfl
  | cons line rest ih =>
      have hline := feeds_unbroken (hlines line mem_cons_self)
      cases rest with
      | nil =>
          rw [joinLines, intercalate_singleton, hline]
          rfl
      | cons next others =>
          have hrest := ih fun other hother => hlines other (mem_cons_of_mem _ hother)
          have hsplit : joinLines (line :: next :: others) =
              line ++ ([lineFeed] ++ joinLines (next :: others)) := by
            rw [joinLines, intercalate_cons_cons, append_assoc]
            rfl
          have hfeed : feeds [lineFeed] = 1 := count_singleton_self
          rw [hsplit, feeds_append, feeds_append, hline, hrest, hfeed]
          simp only [length_cons]
          omega

/-- The joined lines are read as those lines, but for a last one that is empty. -/
theorem length_splitLines_joinLines (hlines : ∀ line ∈ lines, Unbroken line) :
    (splitLines (joinLines lines)).length =
      lines.length - 1 + if endsOpen (joinLines lines) then 1 else 0 := by
  rw [length_splitLines_of_onlyFeeds (onlyFeeds_joinLines hlines), feeds_joinLines hlines]

theorem length_splitLines_joinLines_le (hlines : ∀ line ∈ lines, Unbroken line) :
    (splitLines (joinLines lines)).length ≤ lines.length := by
  rw [length_splitLines_joinLines hlines]
  cases lines with
  | nil => decide
  | cons line rest =>
      rw [length_cons]
      split <;> omega

end Joined

/-! ## Against the text -/

/-- Every line but the last takes its ending, too. -/
theorem length_cut_ge {lines : List Segment} (hcut : Cut lines) :
    (joinLines (lines.map Segment.line)).length ≤ (lines.flatMap Segment.text).length ∧
      lines.length ≤ (lines.flatMap Segment.text).length := by
  induction hcut with
  | nil => exact ⟨Nat.le_refl _, Nat.le_refl _⟩
  | last hline hne =>
      have hpos := length_pos_of_ne_nil hne
      simp only [map_cons, map_nil, flatMap_cons, flatMap_nil, Segment.text,
        append_nil, length_singleton, joinLines, intercalate_singleton]
      omega
  | cons hline hending hapart hrest ih =>
      obtain ⟨begun, c, hended, hbreak⟩ := exists_last_of_isEnding hending
      obtain ⟨hjoined, hcount⟩ := ih
      rw [length_joinLines] at hjoined ⊢
      simp only [map_cons, flatMap_cons, Segment.text, length_append,
        length_cons, sum_cons, hended, length_nil, length_map] at *
      omega

theorem length_joinLines_splitLines_le (text : Text) :
    (joinLines (splitLines text)).length ≤ text.length := by
  have hcut := (length_cut_ge (cut_segments text)).1
  rwa [flatMap_segments, map_line_segments] at hcut

theorem length_splitLines_le (text : Text) : (splitLines text).length ≤ text.length := by
  have hcut := (length_cut_ge (cut_segments text)).2
  rwa [flatMap_segments, ← length_map Segment.line, map_line_segments] at hcut

/-! ## The lines that are kept -/

/-- The line feeds of the join that the cuts take out. -/
def feedsCutOut (joined : Text) (maxChars : ℕ) : ℕ :=
  feeds ((headCut joined maxChars).rtakeWhile isSpace) +
    feeds ((joined.drop (headShare maxChars)).take (joined.length - maxChars)) +
    feeds ((tailCut joined maxChars).takeWhile isSpace)

/-- The tail ends inside a line. -/
def tailOpen (joined : Text) (maxChars : ℕ) : Bool :=
  (tailCut joined maxChars).any (fun c => !isSpace c) && endsOpen joined

/-- No more lines are kept of the first and the last than there are. -/
def LinesFit (lines : List Text) (maxLines maxChars : ℕ) : Prop :=
  let picked := (firstLines lines maxLines).length + (lastLines lines maxLines).length
  let joined := pickedText lines maxLines
  if joined.length ≤ maxChars then picked ≤ lines.length + if endsOpen joined then 0 else 1
  else
    maxChars = 1 ∨
      picked + (if tailOpen joined maxChars then 1 else 0) ≤
        lines.length + feedsCutOut joined maxChars

section Kept

variable {lines : List Text} {maxLines maxChars : ℕ}

theorem length_splitLines_retainLines_le (hlines : ∀ line ∈ lines, Unbroken line)
    {strategy : ToolRetentionStrategy} (hstrategy : strategy ≠ .headTail) :
    (splitLines (retainLines lines maxLines maxChars strategy)).length ≤ lines.length := by
  have honly := onlyFeeds_joinLines hlines
  cases strategy with
  | head =>
      have hbegins : retainLines lines maxLines maxChars .head <+: joinLines lines :=
        (trimEnd_begins _).trans
          ((List.take_prefix _ _).trans (joinLines_begins (List.take_prefix _ _)))
      exact (length_splitLines_prefix_le honly hbegins).trans
        (length_splitLines_joinLines_le hlines)
  | tail =>
      have hends : retainLines lines maxLines maxChars .tail <:+ joinLines lines :=
        (trimStart_ends _).trans
          ((drop_suffix _ _).trans (joinLines_ends (drop_suffix _ _)))
      exact (length_splitLines_suffix_le honly hends).trans
        (length_splitLines_joinLines_le hlines)
  | headTail => exact absurd rfl hstrategy

theorem unbroken_picked (hlines : ∀ line ∈ lines, Unbroken line) :
    ∀ line ∈ firstLines lines maxLines ++ lastLines lines maxLines, Unbroken line := by
  intro line hline
  cases mem_append.mp hline with
  | inl hfirst => exact hlines line (firstLines_begins.subset hfirst)
  | inr hlast => exact hlines line (lastLines_ends.subset hlast)

theorem trimEnd_append_rtakeWhile (text : Text) :
    ToolOutcome.trimEnd text ++ text.rtakeWhile isSpace = text := by
  rw [ToolOutcome.trimEnd, List.rdropWhile, List.rtakeWhile, ← reverse_append,
    takeWhile_append_dropWhile, reverse_reverse]

theorem takeWhile_append_trimStart (text : Text) :
    text.takeWhile isSpace ++ trimStart text = text :=
  takeWhile_append_dropWhile

theorem trimStart_eq_nil_iff (text : Text) :
    trimStart text = [] ↔ text.any (fun c => !isSpace c) = false := by
  rw [trimStart, dropWhile_eq_nil_iff, any_eq_false]
  simp

variable {joined : Text}

theorem cut_parts (hmaxChars : 0 < maxChars) (hlong : maxChars < joined.length) :
    headCut joined maxChars ++
        ((joined.drop (headShare maxChars)).take (joined.length - maxChars) ++
          tailCut joined maxChars) = joined := by
  have hshares := headShare_add_tailShare hmaxChars
  have hplace : joined.length - tailShare maxChars =
      headShare maxChars + (joined.length - maxChars) := by
    omega
  rw [tailCut, hplace, ← drop_drop, take_append_drop, headCut, take_append_drop]

/-- Every line feed is kept, or taken out. -/
theorem feeds_cut (hmaxChars : 0 < maxChars) (hlong : maxChars < joined.length) :
    feeds (ToolOutcome.trimEnd (headCut joined maxChars)) +
        feeds (trimStart (tailCut joined maxChars)) + feedsCutOut joined maxChars =
      feeds joined := by
  have hhead := congrArg feeds (trimEnd_append_rtakeWhile (headCut joined maxChars))
  have htail := congrArg feeds (takeWhile_append_trimStart (tailCut joined maxChars))
  have hwhole := congrArg feeds (cut_parts hmaxChars hlong)
  rw [feeds_append] at hhead htail hwhole
  rw [feeds_append] at hwhole
  rw [feedsCutOut]
  omega

theorem endsOpen_trimStart_tailCut :
    endsOpen (trimStart (tailCut joined maxChars)) = tailOpen joined maxChars := by
  rw [tailOpen]
  by_cases hnone : trimStart (tailCut joined maxChars) = []
  · rw [hnone, (trimStart_eq_nil_iff _).mp hnone, Bool.false_and]
    rfl
  · have hany : (tailCut joined maxChars).any (fun c => !isSpace c) = true := by
      rw [← Bool.not_eq_false]
      exact fun hall => hnone ((trimStart_eq_nil_iff _).mpr hall)
    obtain ⟨front, hfront⟩ := (trimStart_ends _).trans (tailCut_ends joined maxChars)
    rw [hany, Bool.true_and]
    conv_rhs => rw [← hfront]
    exact (endsOpen_append hnone).symm

theorem length_firstLines_pos (hlong : 0 < (pickedText lines maxLines).length) :
    0 < (firstLines lines maxLines).length := by
  apply length_pos_of_ne_nil
  apply firstLines_ne_nil
  rintro rfl
  exact absurd hlong (by simp [pickedText, firstLines, lastLines, joinLines])

theorem onlyFeeds_cut (hjoined : OnlyFeeds joined) :
    OnlyFeeds (ToolOutcome.trimEnd (headCut joined maxChars) ++
      lineFeed :: trimStart (tailCut joined maxChars)) := by
  intro c hc hbreak
  have hhead := (trimEnd_begins _).trans (headCut_begins joined maxChars)
  have htail := (trimStart_ends _).trans (tailCut_ends joined maxChars)
  cases mem_append.mp hc with
  | inl hmem => exact hjoined c (hhead.subset hmem) hbreak
  | inr hrest =>
      cases mem_cons.mp hrest with
      | inl hfeed => exact hfeed
      | inr hmem => exact hjoined c (htail.subset hmem) hbreak

/-- The line count of two cuts with a line feed between them. -/
theorem length_splitLines_cut (hjoined : OnlyFeeds joined) (hmaxChars : 0 < maxChars)
    (hlong : maxChars < joined.length) :
    (splitLines (ToolOutcome.trimEnd (headCut joined maxChars) ++
        lineFeed :: trimStart (tailCut joined maxChars))).length + feedsCutOut joined maxChars =
      feeds joined + 1 + if tailOpen joined maxChars then 1 else 0 := by
  have hfeeds := feeds_cut hmaxChars hlong
  have hfeed (rest : Text) : feeds (lineFeed :: rest) = feeds rest + 1 := count_cons_self
  rw [length_splitLines_of_onlyFeeds (onlyFeeds_cut hjoined), feeds_append, hfeed,
    endsOpen_lineFeed, endsOpen_trimStart_tailCut]
  omega

/-- The line count of what is kept of both ends. -/
theorem length_splitLines_headTail_le_iff (hlines : ∀ line ∈ lines, Unbroken line)
    (hmaxChars : 0 < maxChars) :
    (splitLines (retainLines lines maxLines maxChars .headTail)).length ≤ lines.length ↔
      LinesFit lines maxLines maxChars := by
  have hpicked : ∀ line ∈ firstLines lines maxLines ++ lastLines lines maxLines,
      Unbroken line := unbroken_picked hlines
  have honly : OnlyFeeds (pickedText lines maxLines) := onlyFeeds_joinLines hpicked
  have hcount : feeds (pickedText lines maxLines) =
      (firstLines lines maxLines).length + (lastLines lines maxLines).length - 1 := by
    rw [pickedText, feeds_joinLines hpicked, length_append]
  by_cases hshort : (pickedText lines maxLines).length ≤ maxChars
  · have hopen : endsOpen (pickedText lines maxLines) = true →
        0 < (firstLines lines maxLines).length := by
      intro hopen
      apply length_firstLines_pos
      apply length_pos_of_ne_nil
      intro hnone
      rw [hnone] at hopen
      cases hopen
    rw [retainLines_uncut hshort, LinesFit, if_pos hshort, length_splitLines_of_onlyFeeds honly,
      hcount]
    cases hended : endsOpen (pickedText lines maxLines) with
    | true =>
        have hfirst := hopen hended
        simp only [if_true]
        omega
    | false =>
        simp only [Bool.false_eq_true, if_false]
        omega
  · have hlong := Nat.lt_of_not_ge hshort
    have hfirst : 0 < (firstLines lines maxLines).length :=
      length_firstLines_pos (Nat.zero_lt_of_lt hlong)
    rw [LinesFit, if_neg hshort]
    by_cases hone : maxChars = 1
    · have hkept : (ToolOutcome.trimEnd (headCut (pickedText lines maxLines) 1)).length ≤ 1 :=
        (trimEnd_begins _).length_le.trans (length_take_le _ _)
      have hall : (firstLines lines maxLines).length ≤ lines.length :=
        firstLines_begins.length_le
      rw [retainLines_head hlong hone, hone]
      refine iff_of_true ?_ (.inl rfl)
      exact (length_splitLines_le _).trans (hkept.trans (by omega))
    · have hcut := length_splitLines_cut honly hmaxChars hlong
      rw [retainLines_cut hlong (by omega)]
      simp only [hone, false_or]
      omega

theorem length_pickedText_le (hmany : maxLines < lines.length) :
    (pickedText lines maxLines).length ≤ (joinLines lines).length := by
  have hfirst : (firstLines lines maxLines).length ≤ headShare maxLines :=
    length_take_le _ _
  have hlast : (lastLines lines maxLines).length ≤ tailShare maxLines := by
    rw [lastLines, length_drop]
    omega
  have hshares : headShare maxLines + tailShare maxLines ≤ max 1 maxLines := by
    rw [tailShare, headShare]
    omega
  have hbegins : firstLines lines maxLines <+: lines := firstLines_begins
  have hends : lastLines lines maxLines <:+ lines := lastLines_ends
  obtain ⟨middle, hmiddle⟩ := exists_middle hbegins hends (by omega)
  rw [pickedText, length_joinLines, length_joinLines]
  conv_rhs => rw [hmiddle]
  simp only [map_append, sum_append, length_append]
  omega

/-- The separator is the only character that is put in. -/
theorem length_headTail_le (hmaxChars : 0 < maxChars) :
    (retainLines lines maxLines maxChars .headTail).length ≤
      min (pickedText lines maxLines).length (maxChars + 1) := by
  by_cases hshort : (pickedText lines maxLines).length ≤ maxChars
  · rw [retainLines_uncut hshort]
    omega
  · have hlong := Nat.lt_of_not_ge hshort
    have hcuts := length_cuts hmaxChars hlong
    by_cases hone : maxChars = 1
    · rw [retainLines_head hlong hone]
      omega
    · rw [retainLines_cut hlong (by omega), length_append, length_cons]
      omega

/-- What is kept of an output over a limit is not longer than the output. -/
theorem length_retainLines_le (text : Text) (strategy : ToolRetentionStrategy)
    (hmaxChars : 0 < maxChars)
    (hover : maxLines < (splitLines text).length ∨ maxChars < text.length) :
    (retainLines (splitLines text) maxLines maxChars strategy).length ≤ text.length := by
  have hjoined := length_joinLines_splitLines_le text
  cases strategy with
  | head =>
      have hhonest := honest_of_ne_headTail text maxLines maxChars
        (by decide : ToolRetentionStrategy.head ≠ .headTail)
      exact hhonest.excerpt.length_le.trans hjoined
  | tail =>
      have hhonest := honest_of_ne_headTail text maxLines maxChars
        (by decide : ToolRetentionStrategy.tail ≠ .headTail)
      exact hhonest.excerpt.length_le.trans hjoined
  | headTail =>
      have hkept : (retainLines (splitLines text) maxLines maxChars .headTail).length ≤
          min (pickedText (splitLines text) maxLines).length (maxChars + 1) :=
        length_headTail_le hmaxChars
      cases hover with
      | inl hmany =>
          have hpicked := length_pickedText_le hmany
          omega
      | inr hlong => omega

/-- Every character that is kept is one of a line, or a line feed. -/
theorem mem_retainLines {strategy : ToolRetentionStrategy} (hmaxChars : 0 < maxChars)
    (hc : c ∈ retainLines lines maxLines maxChars strategy) :
    c = lineFeed ∨ ∃ line ∈ lines, c ∈ line := by
  cases strategy with
  | head =>
      have hbegins := (trimEnd_begins _).trans (List.take_prefix maxChars
        (joinLines (lines.take maxLines)))
      apply mem_joinLines
      exact (joinLines_begins (List.take_prefix _ _)).subset (hbegins.subset hc)
  | tail =>
      have hends := (trimStart_ends _).trans (drop_suffix
        ((joinLines (lines.drop (lines.length - maxLines))).length - maxChars)
        (joinLines (lines.drop (lines.length - maxLines))))
      apply mem_joinLines
      exact (joinLines_ends (drop_suffix _ _)).subset (hends.subset hc)
  | headTail =>
      have hpicked : c ∈ pickedText lines maxLines → c = lineFeed ∨ ∃ line ∈ lines, c ∈ line := by
        intro hmem
        apply (mem_joinLines hmem).imp_right
        rintro ⟨line, hline, hin⟩
        cases mem_append.mp hline with
        | inl hfirst => exact ⟨line, firstLines_begins.subset hfirst, hin⟩
        | inr hlast => exact ⟨line, lastLines_ends.subset hlast, hin⟩
      have hhead := (trimEnd_begins _).trans (headCut_begins (pickedText lines maxLines) maxChars)
      have htail := (trimStart_ends _).trans (tailCut_ends (pickedText lines maxLines) maxChars)
      by_cases hshort : (pickedText lines maxLines).length ≤ maxChars
      · rw [retainLines_uncut hshort] at hc
        exact hpicked hc
      · have hlong := Nat.lt_of_not_ge hshort
        by_cases hone : maxChars = 1
        · rw [retainLines_head hlong hone] at hc
          exact hpicked (hhead.subset hc)
        · rw [retainLines_cut hlong (by omega)] at hc
          cases mem_append.mp hc with
          | inl hfirst => exact hpicked (hhead.subset hfirst)
          | inr hrest =>
              cases mem_cons.mp hrest with
              | inl hfeed => exact .inl hfeed
              | inr hlast => exact hpicked (htail.subset hlast)

end Kept

theorem mem_of_mem_splitLines {text line : Text} (hline : line ∈ splitLines text) (hc : c ∈ line) :
    c ∈ text := by
  rw [← map_line_segments] at hline
  obtain ⟨segment, hsegment, rfl⟩ := mem_map.mp hline
  rw [← flatMap_segments text]
  exact mem_flatMap.mpr ⟨segment, hsegment, mem_append_left _ hc⟩

end ReuleauxCoder.Tools
