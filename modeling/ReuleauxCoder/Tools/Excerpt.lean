import ReuleauxCoder.Library.Pieces
import ReuleauxCoder.Tools.LineScan

/-!
# What the kept output shows

What `_retain_text` keeps is a function of the lines: the first of them, the last of them,
or both, cut to the limit.  The first and the last lines are taken without regard to each
other, and the separator between the two cuts is not counted, so both can be too much.
-/

namespace ReuleauxCoder.Tools

open PyText Boundaries Pieces List

/-! ## Kept lines -/

/-- The larger half of a limit, which goes to the beginning. -/
def headShare (limit : ℕ) : ℕ :=
  max 1 ((limit + 1) / 2)

def tailShare (limit : ℕ) : ℕ :=
  limit - headShare limit

def firstLines (lines : List Text) (maxLines : ℕ) : List Text :=
  lines.take (headShare maxLines)

def lastLines (lines : List Text) (maxLines : ℕ) : List Text :=
  lines.drop (lines.length - tailShare maxLines)

/-- The first and the last lines, joined. -/
def pickedText (lines : List Text) (maxLines : ℕ) : Text :=
  joinLines (firstLines lines maxLines ++ lastLines lines maxLines)

def headCut (joined : Text) (maxChars : ℕ) : Text :=
  joined.take (headShare maxChars)

def tailCut (joined : Text) (maxChars : ℕ) : Text :=
  joined.drop (joined.length - tailShare maxChars)

/-- What is kept, said of the lines. -/
def retainLines (lines : List Text) (maxLines maxChars : ℕ) : ToolRetentionStrategy → Text
  | .head => ToolOutcome.trimEnd ((joinLines (lines.take maxLines)).take maxChars)
  | .tail =>
      let joined := joinLines (lines.drop (lines.length - maxLines))
      trimStart (joined.drop (joined.length - maxChars))
  | .headTail =>
      let joined := pickedText lines maxLines
      if joined.length ≤ maxChars then joined
      else if tailShare maxChars = 0 then ToolOutcome.trimEnd (headCut joined maxChars)
      else
        ToolOutcome.trimEnd (headCut joined maxChars) ++ [lineFeed] ++
          trimStart (tailCut joined maxChars)

section Spans

variable {text : Text} {spans : List Span}

section

variable (hspans : ∀ span ∈ spans, span.Within text)
include hspans

theorem joinedLength_eq :
    joinedLength spans = (joinedSpans text spans).length := by
  have hlengths : (spans.map fun span => span.right - span.left) =
      (spans.map (Span.of text)).map List.length := by
    rw [map_map]
    apply map_congr_left
    intro span hspan
    exact (hspans span hspan).length_of.symm
  rw [joinedLength, joinedSpans, length_intercalate, hlengths, length_singleton,
    length_map, Nat.one_mul]

theorem sliceJoined_whole :
    sliceJoined text spans 0 (joinedLength spans) = joinedSpans text spans := by
  rw [sliceJoined_eq hspans, joinedLength_eq hspans, take_length, drop_zero]

theorem sliceJoined_end (count : ℕ) :
    sliceJoined text spans (joinedLength spans - count) (joinedLength spans) =
      (joinedSpans text spans).drop ((joinedSpans text spans).length - count) := by
  rw [sliceJoined_eq hspans, joinedLength_eq hspans, take_length]

theorem sliceJoined_begin (count : ℕ) :
    sliceJoined text spans 0 count = (joinedSpans text spans).take count := by
  rw [sliceJoined_eq hspans, drop_zero]

end

theorem joinedSpans_take (text : Text) (count : ℕ) :
    joinedSpans text ((lineRanges text).take count) =
      joinLines ((splitLines text).take count) := by
  rw [joinedSpans, map_take, map_of_lineRanges]
  rfl

theorem joinedSpans_drop (text : Text) (count : ℕ) :
    joinedSpans text ((lineRanges text).drop count) =
      joinLines ((splitLines text).drop count) := by
  rw [joinedSpans, map_drop, map_of_lineRanges]
  rfl

end Spans

theorem retainText_headTail (text : Text) (maxLines maxChars : ℕ)
    (separators : List CodePoint) :
    retainText text maxLines maxChars .headTail separators =
      let spans := lineSpans text separators (headShare maxLines) false ++
        lineSpans text separators (tailShare maxLines) true
      if joinedLength spans ≤ maxChars then sliceJoined text spans 0 (joinedLength spans)
      else if tailShare maxChars = 0 then
        ToolOutcome.trimEnd (sliceJoined text spans 0 (headShare maxChars))
      else
        ToolOutcome.trimEnd (sliceJoined text spans 0 (headShare maxChars)) ++ [lineFeed] ++
          trimStart (sliceJoined text spans (joinedLength spans - tailShare maxChars)
            (joinedLength spans)) := by
  rfl

/-- What is kept of a text depends on its lines alone. -/
theorem retainText_eq (text : Text) (maxLines maxChars : ℕ) (strategy : ToolRetentionStrategy) :
    retainText text maxLines maxChars strategy (lineSummary text).2 =
      retainLines (splitLines text) maxLines maxChars strategy := by
  have hranges := within_lineRanges text
  cases strategy with
  | head =>
      have hspans : ∀ span ∈ (lineRanges text).take maxLines, span.Within text :=
        fun span hspan => hranges span (mem_of_mem_take hspan)
      simp only [retainText, retainLines, lineSpans_head]
      rw [sliceJoined_begin hspans, joinedSpans_take]
  | tail =>
      have hspans : ∀ span ∈ (lineRanges text).drop ((splitLines text).length - maxLines),
          span.Within text := fun span hspan => hranges span (mem_of_mem_drop hspan)
      simp only [retainText, retainLines, lineSpans_tail]
      rw [sliceJoined_end hspans, joinedSpans_drop]
  | headTail =>
      have hspans : ∀ span ∈ (lineRanges text).take (headShare maxLines) ++
          (lineRanges text).drop ((splitLines text).length - tailShare maxLines),
            span.Within text := by
        intro span hspan
        cases mem_append.mp hspan with
        | inl hfirst => exact hranges span (mem_of_mem_take hfirst)
        | inr hlast => exact hranges span (mem_of_mem_drop hlast)
      have hjoined : joinedSpans text ((lineRanges text).take (headShare maxLines) ++
          (lineRanges text).drop ((splitLines text).length - tailShare maxLines)) =
            pickedText (splitLines text) maxLines := by
        rw [joinedSpans, map_append, map_take, map_drop, map_of_lineRanges]
        rfl
      have hwhole := sliceJoined_whole hspans
      have hbegin := sliceJoined_begin hspans (headShare maxChars)
      have hend := sliceJoined_end hspans (tailShare maxChars)
      have hlength := joinedLength_eq hspans
      rw [hjoined] at hwhole hbegin hend hlength
      rw [hlength] at hwhole hend
      have hlines : lineSpans text (lineSummary text).2 (headShare maxLines) false ++
          lineSpans text (lineSummary text).2 (tailShare maxLines) true =
            (lineRanges text).take (headShare maxLines) ++
              (lineRanges text).drop ((splitLines text).length - tailShare maxLines) := by
        rw [lineSpans_head, lineSpans_tail]
      rw [retainText_headTail, hlines]
      dsimp only
      rw [hlength, hwhole, hbegin, hend]
      rfl

/-! ## Honest excerpts -/

/-- What `_retain_text` is for: a part of the whole, not more than it and in its order. -/
def Excerpt (whole kept : Text) : ToolRetentionStrategy → Prop
  | .head => kept <+: whole
  | .tail => kept <:+ whole
  | .headTail =>
      kept <+: whole ∨
        ∃ front middle back, whole = front ++ middle ++ back ∧ kept = front ++ lineFeed :: back

structure Honest (text kept : Text) (maxChars : ℕ) (strategy : ToolRetentionStrategy) :
    Prop where
  length_le : kept.length ≤ maxChars
  excerpt : Excerpt (joinLines (splitLines text)) kept strategy

/-- How much whitespace is removed where the join of the picked lines is cut. -/
def cutSpace (joined : Text) (maxChars : ℕ) : ℕ :=
  ((headCut joined maxChars).rtakeWhile isSpace).length +
    ((tailCut joined maxChars).takeWhile isSpace).length

/-- The first and the last lines have no line in common, or an empty one. -/
def Apart (lines : List Text) (maxLines : ℕ) : Prop :=
  let picked := (firstLines lines maxLines).length + (lastLines lines maxLines).length
  picked ≤ lines.length ∨
    picked = lines.length + 1 ∧ (firstLines lines maxLines).getLast? = some []

/-- The cut at the end of the head is in the first lines, or what is behind them is space. -/
def HeadWithin (lines : List Text) (maxLines maxChars : ℕ) : Prop :=
  ∀ c ∈ (headCut (pickedText lines maxLines) maxChars).drop
    (joinLines (firstLines lines maxLines)).length, isSpace c = true

def TailWithin (lines : List Text) (maxLines maxChars : ℕ) : Prop :=
  let cut := tailCut (pickedText lines maxLines) maxChars
  ∀ c ∈ cut.take (cut.length - (joinLines (lastLines lines maxLines)).length),
    isSpace c = true

/-- The two cuts show a beginning and an end of the lines. -/
def CutsApart (lines : List Text) (maxLines maxChars : ℕ) : Prop :=
  (firstLines lines maxLines).length + (lastLines lines maxLines).length = lines.length ∨
    HeadWithin lines maxLines maxChars ∧ TailWithin lines maxLines maxChars ∧
      maxChars ≤ (joinLines lines).length + cutSpace (pickedText lines maxLines) maxChars

/-- The picked lines are short enough, or whitespace at a cut makes room for the separator. -/
def Fits (lines : List Text) (maxLines maxChars : ℕ) : Prop :=
  let joined := pickedText lines maxLines
  joined.length ≤ maxChars ∨ maxChars = 1 ∨ 0 < cutSpace joined maxChars

/-- When the excerpt of the first and the last lines is honest. -/
def HonestWhen (lines : List Text) (maxLines maxChars : ℕ) : Prop :=
  if (pickedText lines maxLines).length ≤ maxChars then Apart lines maxLines
  else
    maxChars = 1 ∨
      0 < cutSpace (pickedText lines maxLines) maxChars ∧ CutsApart lines maxLines maxChars

/-! ## Beginnings and ends -/

theorem joinLines_append {left right : List Text} (hleft : left ≠ []) (hright : right ≠ []) :
    joinLines (left ++ right) = joinLines left ++ lineFeed :: joinLines right := by
  rw [joinLines, intercalate_append _ hleft hright, append_assoc]
  rfl

theorem joinLines_begins {first lines : List Text} (hfirst : first <+: lines) :
    joinLines first <+: joinLines lines := by
  obtain ⟨rest, rfl⟩ := hfirst
  exact intercalate_prefix _ first rest

theorem joinLines_ends {last lines : List Text} (hlast : last <:+ lines) :
    joinLines last <:+ joinLines lines := by
  obtain ⟨front, rfl⟩ := hlast
  cases last with
  | nil => exact nil_suffix
  | cons line rest =>
      cases front with
      | nil => exact suffix_rfl
      | cons other others =>
          rw [joinLines_append (cons_ne_nil _ _) (cons_ne_nil _ _)]
          exact ⟨joinLines (other :: others) ++ [lineFeed], by simp⟩

theorem trimEnd_append_space {space : Text} (hspace : ∀ c ∈ space, isSpace c = true)
    (text : Text) : ToolOutcome.trimEnd (text ++ space) = ToolOutcome.trimEnd text := by
  induction space using List.reverseRecOn with
  | nil => rw [append_nil]
  | append_singleton space c ih =>
      rw [ToolOutcome.trimEnd, ← append_assoc,
        rdropWhile_concat_pos _ _ _ (hspace c (by simp))]
      exact ih fun d hd => hspace d (by simp [hd])

theorem trimStart_space_append {space : Text} (hspace : ∀ c ∈ space, isSpace c = true)
    (text : Text) : trimStart (space ++ text) = trimStart text := by
  induction space with
  | nil => rfl
  | cons c space ih =>
      rw [trimStart, cons_append, dropWhile_cons_of_pos (hspace c (by simp))]
      exact ih fun d hd => hspace d (by simp [hd])

theorem trimEnd_begins (text : Text) : ToolOutcome.trimEnd text <+: text :=
  List.rdropWhile_prefix _ _

theorem trimStart_ends (text : Text) : trimStart text <:+ text :=
  dropWhile_suffix _

theorem length_trimEnd (text : Text) :
    (ToolOutcome.trimEnd text).length + (text.rtakeWhile isSpace).length = text.length := by
  have hparts := congrArg List.length (takeWhile_append_dropWhile
    (p := isSpace) (l := text.reverse))
  rw [length_append, length_reverse] at hparts
  rw [ToolOutcome.trimEnd, List.rdropWhile, List.rtakeWhile, length_reverse,
    length_reverse]
  omega

theorem length_trimStart (text : Text) :
    (text.takeWhile isSpace).length + (trimStart text).length = text.length := by
  rw [← length_append]
  exact congrArg List.length (takeWhile_append_dropWhile (p := isSpace) (l := text))

section Picked

variable {lines : List Text} {maxLines maxChars : ℕ}

theorem headShare_pos (limit : ℕ) : 0 < headShare limit :=
  Nat.lt_of_lt_of_le Nat.zero_lt_one (Nat.le_max_left _ _)

theorem headShare_add_tailShare {limit : ℕ} (hlimit : 0 < limit) :
    headShare limit + tailShare limit = limit := by
  rw [tailShare, headShare]
  omega

theorem tailShare_eq_zero {limit : ℕ} (hlimit : 0 < limit) :
    tailShare limit = 0 ↔ limit = 1 := by
  rw [tailShare, headShare]
  omega

theorem firstLines_begins : firstLines lines maxLines <+: lines :=
  List.take_prefix _ _

theorem lastLines_ends : lastLines lines maxLines <:+ lines :=
  drop_suffix _ _

theorem firstLines_ne_nil (hlines : lines ≠ []) : firstLines lines maxLines ≠ [] := by
  have hshare := headShare_pos maxLines
  rw [firstLines, Ne, take_eq_nil_iff]
  simp only [hlines, or_false]
  omega

theorem pickedText_of_last_eq_nil (hlast : lastLines lines maxLines = []) :
    pickedText lines maxLines = joinLines (firstLines lines maxLines) := by
  rw [pickedText, hlast, append_nil]

theorem pickedText_of_last_ne_nil (hlast : lastLines lines maxLines ≠ []) :
    pickedText lines maxLines = joinLines (firstLines lines maxLines) ++
      lineFeed :: joinLines (lastLines lines maxLines) := by
  have hlines : lines ≠ [] := by
    rintro rfl
    exact hlast (drop_nil)
  exact joinLines_append (firstLines_ne_nil hlines) hlast

theorem pickedText_of_all
    (hall : (firstLines lines maxLines).length + (lastLines lines maxLines).length =
      lines.length) :
    pickedText lines maxLines = joinLines lines := by
  obtain ⟨middle, hmiddle⟩ := exists_middle firstLines_begins lastLines_ends hall.le
  have hnone : middle = [] := by
    have hlength := congrArg List.length hmiddle
    rw [length_append, length_append] at hlength
    exact length_eq_zero_iff.mp (by omega)
  rw [hnone, append_nil] at hmiddle
  rw [pickedText, ← hmiddle]

/-- A line that is picked twice stands at the end of the first and at the begin of the last. -/
theorem empty_common
    (hlength : (firstLines lines maxLines).length + (lastLines lines maxLines).length =
      lines.length + 1)
    (hempty : (firstLines lines maxLines).getLast? = some []) :
    ∃ before behind, lines = before ++ [] :: behind ∧
      firstLines lines maxLines = before ++ [[]] ∧
      lastLines lines maxLines = [] :: behind := by
  obtain ⟨before, common, behind, hcommon, hall, hbefore, hbehind⟩ :=
    exists_common firstLines_begins lastLines_ends
      (Nat.lt_of_succ_le hlength.ge)
  have hsingle : common.length = 1 := by
    have hlines := congrArg List.length hall
    rw [hbefore, hbehind] at hlength
    simp only [length_append] at hlength hlines
    omega
  obtain ⟨line, rfl⟩ := length_eq_one_iff.mp hsingle
  rw [hbefore, getLast?_concat, Option.some_inj] at hempty
  refine ⟨before, behind, ?_, ?_, ?_⟩
  · rw [hall, hempty, append_assoc]
    rfl
  · rw [hbefore, hempty]
  · rw [hbehind, hempty]
    rfl

/-- An empty line between two parts can be counted to both. -/
theorem joinLines_empty (before behind : List Text) :
    joinLines (before ++ [] :: behind) =
      joinLines (before ++ [[]]) ++ joinLines ([] :: behind) := by
  cases behind with
  | nil => exact (append_nil _).symm
  | cons next rest =>
      have hempty : joinLines ([] :: next :: rest) = lineFeed :: joinLines (next :: rest) := rfl
      rw [hempty, ← joinLines_append (by simp) (cons_ne_nil _ _), append_assoc]
      rfl

/-- Lines that are apart make an excerpt. -/
theorem excerpt_of_apart (hapart : Apart lines maxLines) :
    Excerpt (joinLines lines) (pickedText lines maxLines) .headTail := by
  by_cases hlast : lastLines lines maxLines = []
  · rw [pickedText_of_last_eq_nil hlast]
    exact .inl (joinLines_begins firstLines_begins)
  · have hlines : lines ≠ [] := fun hnil => hlast (by rw [lastLines, hnil, drop_nil])
    have hfirst : firstLines lines maxLines ≠ [] := firstLines_ne_nil hlines
    have hpicked := pickedText_of_last_ne_nil hlast
    apply Or.inr
    cases hapart with
    | inl hwithin =>
        obtain ⟨middle, hmiddle⟩ := exists_middle firstLines_begins lastLines_ends hwithin
        by_cases hnone : middle = []
        · rw [hnone, append_nil] at hmiddle
          refine ⟨_, [lineFeed], _, ?_, hpicked⟩
          conv_lhs => rw [hmiddle, joinLines_append hfirst hlast]
          simp
        · refine ⟨_, lineFeed :: joinLines middle ++ [lineFeed], _, ?_, hpicked⟩
          conv_lhs =>
            rw [hmiddle, joinLines_append (by simp [hnone]) hlast,
              joinLines_append hfirst hnone]
          simp
    | inr hempty =>
        obtain ⟨before, behind, hall, hbefore, hbehind⟩ := empty_common hempty.1 hempty.2
        refine ⟨joinLines (firstLines lines maxLines), [], joinLines (lastLines lines maxLines),
          ?_, hpicked⟩
        rw [append_nil, hbefore, hbehind]
        conv_lhs => rw [hall]
        exact joinLines_empty before behind

/-- An excerpt has no room for a line that is shown twice, unless that line is empty. -/
theorem apart_of_excerpt
    (hexcerpt : Excerpt (joinLines lines) (pickedText lines maxLines) .headTail) :
    Apart lines maxLines := by
  by_cases hwithin : (firstLines lines maxLines).length + (lastLines lines maxLines).length ≤
      lines.length
  · exact .inl hwithin
  · obtain ⟨before, common, behind, hcommon, hall, hbefore, hbehind⟩ :=
      exists_common firstLines_begins lastLines_ends (Nat.lt_of_not_ge hwithin)
    have hroom : (pickedText lines maxLines).length ≤ (joinLines lines).length + 1 := by
      cases hexcerpt with
      | inl hbegins => exact Nat.le_succ_of_le hbegins.length_le
      | inr hpieces =>
          obtain ⟨front, middle, back, hwhole, hkept⟩ := hpieces
          rw [hwhole, hkept]
          simp only [length_append, length_cons]
          omega
    have hcount := length_pos_of_ne_nil hcommon
    rw [pickedText, hbefore, hbehind, length_joinLines, length_joinLines] at hroom
    conv_rhs at hroom => rw [hall]
    simp only [map_append, sum_append, length_append] at hroom
    have hsingle : common.length = 1 := by omega
    obtain ⟨line, rfl⟩ := length_eq_one_iff.mp hsingle
    have hempty : line = [] := by
      simp only [map_cons, map_nil, sum_cons, sum_nil] at hroom
      exact length_eq_zero_iff.mp (by omega)
    refine .inr ⟨?_, ?_⟩
    · rw [hbefore, hbehind]
      conv_rhs => rw [hall]
      simp only [length_append]
      omega
    · rw [hbefore, hempty]
      exact getLast?_concat

/-! ## Cuts -/

theorem firstLines_in_pickedText :
    joinLines (firstLines lines maxLines) <+: pickedText lines maxLines :=
  joinLines_begins (prefix_append _ _)

theorem lastLines_in_pickedText :
    joinLines (lastLines lines maxLines) <:+ pickedText lines maxLines :=
  joinLines_ends (suffix_append _ _)

theorem headCut_begins (joined : Text) (maxChars : ℕ) : headCut joined maxChars <+: joined :=
  List.take_prefix _ _

theorem tailCut_ends (joined : Text) (maxChars : ℕ) : tailCut joined maxChars <:+ joined :=
  drop_suffix _ _

theorem trimEnd_headCut_begins (hwithin : HeadWithin lines maxLines maxChars) :
    ToolOutcome.trimEnd (headCut (pickedText lines maxLines) maxChars) <+: joinLines lines := by
  let cut := headCut (pickedText lines maxLines) maxChars
  let first := joinLines (firstLines lines maxLines)
  have hfirst : cut.take first.length <+: first := by
    apply prefix_of_prefix_length_le _ firstLines_in_pickedText
    · exact length_take_le _ _
    · exact (List.take_prefix _ _).trans (headCut_begins _ _)
  calc ToolOutcome.trimEnd cut
      = ToolOutcome.trimEnd (cut.take first.length ++ cut.drop first.length) := by
        rw [take_append_drop]
    _ = ToolOutcome.trimEnd (cut.take first.length) := trimEnd_append_space hwithin _
    _ <+: cut.take first.length := trimEnd_begins _
    _ <+: first := hfirst
    _ <+: joinLines lines := joinLines_begins firstLines_begins

theorem trimStart_tailCut_ends (hwithin : TailWithin lines maxLines maxChars) :
    trimStart (tailCut (pickedText lines maxLines) maxChars) <:+ joinLines lines := by
  let cut := tailCut (pickedText lines maxLines) maxChars
  let last := joinLines (lastLines lines maxLines)
  have hlength : (cut.drop (cut.length - last.length)).length ≤ last.length := by
    rw [length_drop]
    omega
  have hlast : cut.drop (cut.length - last.length) <:+ last :=
    suffix_of_suffix_length_le ((drop_suffix _ _).trans (tailCut_ends _ _))
      lastLines_in_pickedText hlength
  have htrim : trimStart cut = trimStart (cut.drop (cut.length - last.length)) := by
    conv_lhs => rw [← take_append_drop (cut.length - last.length) cut]
    exact trimStart_space_append hwithin _
  change trimStart cut <:+ joinLines lines
  rw [htrim]
  exact (trimStart_ends _).trans (hlast.trans (joinLines_ends lastLines_ends))

/-- Where the limit is a single character there is no tail. -/
theorem headWithin_one (hlines : (pickedText lines maxLines).length ≠ 0) :
    HeadWithin lines maxLines 1 := by
  intro c hc
  by_cases hfirst : (joinLines (firstLines lines maxLines)).length = 0
  · rw [hfirst, drop_zero] at hc
    rw [length_eq_zero_iff] at hfirst
    by_cases hlast : lastLines lines maxLines = []
    · rw [pickedText_of_last_eq_nil hlast, hfirst] at hlines
      exact absurd rfl hlines
    · rw [headCut, pickedText_of_last_ne_nil hlast, hfirst] at hc
      have hfeed : c = lineFeed := mem_singleton.mp hc
      rw [hfeed]
      decide
  · have hshort : (headCut (pickedText lines maxLines) 1).length ≤ 1 :=
      length_take_le _ _
    rw [drop_eq_nil_of_le (by omega)] at hc
    exact absurd hc not_mem_nil

/-- What the two cuts and the whitespace at them come to. -/
theorem length_cuts (hmaxChars : 0 < maxChars)
    (hlong : maxChars < (pickedText lines maxLines).length) :
    (ToolOutcome.trimEnd (headCut (pickedText lines maxLines) maxChars)).length +
        (trimStart (tailCut (pickedText lines maxLines) maxChars)).length +
          cutSpace (pickedText lines maxLines) maxChars = maxChars := by
  have hhead := length_trimEnd (headCut (pickedText lines maxLines) maxChars)
  have htail := length_trimStart (tailCut (pickedText lines maxLines) maxChars)
  have hshares := headShare_add_tailShare hmaxChars
  rw [headCut, length_take, ← headCut] at hhead
  rw [tailCut, length_drop, ← tailCut] at htail
  rw [cutSpace]
  omega

theorem retainLines_uncut (hshort : (pickedText lines maxLines).length ≤ maxChars) :
    retainLines lines maxLines maxChars .headTail = pickedText lines maxLines :=
  if_pos hshort

theorem retainLines_head (hlong : maxChars < (pickedText lines maxLines).length)
    (hone : maxChars = 1) :
    retainLines lines maxLines maxChars .headTail =
      ToolOutcome.trimEnd (headCut (pickedText lines maxLines) maxChars) := by
  rw [retainLines, if_neg hlong.not_ge, if_pos ((tailShare_eq_zero (by omega)).mpr hone)]

theorem retainLines_cut (hlong : maxChars < (pickedText lines maxLines).length)
    (hmaxChars : 1 < maxChars) :
    retainLines lines maxLines maxChars .headTail =
      ToolOutcome.trimEnd (headCut (pickedText lines maxLines) maxChars) ++
        lineFeed :: trimStart (tailCut (pickedText lines maxLines) maxChars) := by
  have htail : tailShare maxChars ≠ 0 := fun hnone =>
    absurd ((tailShare_eq_zero (by omega)).mp hnone) (by omega)
  rw [retainLines, if_neg hlong.not_ge, if_neg htail, append_assoc]
  rfl

/-- The separator has room where nothing is cut, or where whitespace is removed. -/
theorem length_retainLines_le_iff (hmaxChars : 0 < maxChars) :
    (retainLines lines maxLines maxChars .headTail).length ≤ maxChars ↔
      Fits lines maxLines maxChars := by
  by_cases hshort : (pickedText lines maxLines).length ≤ maxChars
  · rw [retainLines_uncut hshort]
    exact iff_of_true hshort (.inl hshort)
  · have hlong := Nat.lt_of_not_ge hshort
    have hcuts := length_cuts hmaxChars hlong
    simp only [Fits, hshort, false_or]
    by_cases hone : maxChars = 1
    · rw [retainLines_head hlong hone]
      exact iff_of_true (by omega) (.inl hone)
    · rw [retainLines_cut hlong (by omega), length_append, length_cons]
      omega

/-- Cuts that are apart make an excerpt. -/
theorem excerpt_of_cutsApart (hmaxChars : 1 < maxChars)
    (hlong : maxChars < (pickedText lines maxLines).length)
    (hapart : CutsApart lines maxLines maxChars) :
    Excerpt (joinLines lines) (retainLines lines maxLines maxChars .headTail) .headTail := by
  let head := ToolOutcome.trimEnd (headCut (pickedText lines maxLines) maxChars)
  let tail := trimStart (tailCut (pickedText lines maxLines) maxChars)
  have hcuts : head.length + tail.length + cutSpace (pickedText lines maxLines) maxChars =
      maxChars := length_cuts (by omega) hlong
  have hends : head <+: joinLines lines ∧ tail <:+ joinLines lines ∧
      head.length + tail.length ≤ (joinLines lines).length := by
    cases hapart with
    | inl hall =>
        rw [← pickedText_of_all hall]
        refine ⟨(trimEnd_begins _).trans (headCut_begins _ _),
          (trimStart_ends _).trans (tailCut_ends _ _), ?_⟩
        omega
    | inr hwithin =>
        obtain ⟨hhead, htail, hroom⟩ := hwithin
        refine ⟨trimEnd_headCut_begins hhead, trimStart_tailCut_ends htail, ?_⟩
        omega
  obtain ⟨hhead, htail, hlength⟩ := hends
  obtain ⟨middle, hmiddle⟩ := exists_middle hhead htail hlength
  exact .inr ⟨head, middle, tail, hmiddle, retainLines_cut hlong hmaxChars⟩

theorem excerpt_of_honestWhen (hmaxChars : 0 < maxChars)
    (hwhen : HonestWhen lines maxLines maxChars) :
    Excerpt (joinLines lines) (retainLines lines maxLines maxChars .headTail) .headTail ∧
      Fits lines maxLines maxChars := by
  rw [HonestWhen] at hwhen
  split at hwhen
  next hshort =>
    rw [retainLines_uncut hshort]
    exact ⟨excerpt_of_apart hwhen, .inl hshort⟩
  next hshort =>
    have hlong := Nat.lt_of_not_ge hshort
    by_cases hone : maxChars = 1
    · have hwithin : HeadWithin lines maxLines maxChars := by
        rw [hone]
        exact headWithin_one (by omega)
      refine ⟨.inl ?_, .inr (.inl hone)⟩
      rw [retainLines_head hlong hone]
      exact trimEnd_headCut_begins hwithin
    · obtain ⟨hspace, hapart⟩ := hwhen.resolve_left hone
      exact ⟨excerpt_of_cutsApart (by omega) hlong hapart, .inr (.inr hspace)⟩

end Picked

/-- The beginning or the end alone is always an honest excerpt. -/
theorem honest_of_ne_headTail (text : Text) (maxLines maxChars : ℕ)
    {strategy : ToolRetentionStrategy} (hstrategy : strategy ≠ .headTail) :
    Honest text (retainLines (splitLines text) maxLines maxChars strategy) maxChars strategy := by
  cases strategy with
  | head =>
      have hbegins := trimEnd_begins
        ((joinLines ((splitLines text).take maxLines)).take maxChars)
      exact ⟨hbegins.length_le.trans (length_take_le _ _),
        hbegins.trans ((List.take_prefix _ _).trans (joinLines_begins (List.take_prefix _ _)))⟩
  | tail =>
      have hends := trimStart_ends
        ((joinLines ((splitLines text).drop ((splitLines text).length - maxLines))).drop
          ((joinLines ((splitLines text).drop ((splitLines text).length - maxLines))).length -
            maxChars))
      refine ⟨hends.length_le.trans ?_,
        hends.trans ((drop_suffix _ _).trans (joinLines_ends (drop_suffix _ _)))⟩
      rw [length_drop]
      omega
  | headTail => exact absurd rfl hstrategy

/-- The kept text is an honest excerpt for the beginning and for the end, and for both together
where the picked lines are apart and, if they are cut, whitespace makes room for the
separator.  It is too long exactly where the separator has no room, and where nothing is cut it
is an excerpt only if the picked lines are apart. -/
theorem retainText_honest (text : Text) (maxLines maxChars : ℕ) (hmaxChars : 0 < maxChars)
    (strategy : ToolRetentionStrategy) :
    let lines := splitLines text
    let kept := retainText text maxLines maxChars strategy (lineSummary text).2
    (strategy ≠ .headTail ∨ HonestWhen lines maxLines maxChars →
      Honest text kept maxChars strategy) ∧
    (strategy = .headTail →
      (kept.length ≤ maxChars ↔ Fits lines maxLines maxChars) ∧
      ((pickedText lines maxLines).length ≤ maxChars →
        (Honest text kept maxChars strategy ↔ Apart lines maxLines))) := by
  dsimp only
  rw [retainText_eq]
  refine ⟨fun hwhen => ?_, ?_⟩
  · by_cases hstrategy : strategy = .headTail
    · rw [hstrategy] at hwhen ⊢
      obtain ⟨hexcerpt, hfits⟩ :=
        excerpt_of_honestWhen hmaxChars (hwhen.resolve_left fun hne => hne rfl)
      exact ⟨(length_retainLines_le_iff hmaxChars).mpr hfits, hexcerpt⟩
    · exact honest_of_ne_headTail text maxLines maxChars hstrategy
  · rintro rfl
    refine ⟨length_retainLines_le_iff hmaxChars, fun hshort => ?_⟩
    rw [retainLines_uncut hshort]
    exact ⟨fun hhonest => apart_of_excerpt hhonest.excerpt,
      fun hapart => ⟨hshort, excerpt_of_apart hapart⟩⟩

theorem retainText_honest_cut :
    0 < 5 ∧ HonestWhen (splitLines (lit "ab  cd\nef")) 2 5 ∧
      Honest (lit "ab  cd\nef")
        (retainText (lit "ab  cd\nef") 2 5 .headTail (lineSummary (lit "ab  cd\nef")).2) 5
        .headTail := by
  have hwhen : HonestWhen (splitLines (lit "ab  cd\nef")) 2 5 :=
    .inr ⟨by decide, .inl (by decide)⟩
  exact ⟨by decide, hwhen, (retainText_honest _ 2 5 (by decide) .headTail).1 (.inr hwhen)⟩

/-- A long line that is cut becomes one character longer than the limit. -/
theorem retainText_too_long :
    retainText (lit "abcd") 1 3 .headTail (lineSummary (lit "abcd")).2 = lit "ab\nd" ∧
      ¬ Honest (lit "abcd")
        (retainText (lit "abcd") 1 3 .headTail (lineSummary (lit "abcd")).2) 3 .headTail := by
  have hkept : retainText (lit "abcd") 1 3 .headTail (lineSummary (lit "abcd")).2 =
      lit "ab\nd" := by
    rw [retainText_eq]
    decide
  refine ⟨hkept, fun hhonest => ?_⟩
  have hlength := hhonest.length_le
  rw [hkept] at hlength
  exact absurd hlength (by decide)

end ReuleauxCoder.Tools
