import ReuleauxCoder.Library.Lines
import ReuleauxCoder.Workspace.TextPageAgreement

/-!
# Pages are slices of the lines

The loop goes through the text once.  What it has read so far is a list of closed lines and the
beginning of the next, and that determines all its variables; so every way out of it hands out
the same part of `text.splitlines()`.
-/

namespace ReuleauxCoder.Workspace

open PyText List

/-- The lines that a page is to show. -/
def selectedLines (limits : PageLimits) (lines : List Text) : List Text :=
  (lines.drop (limits.offset - 1)).take limits.limit

def joinedLines (lines : List Text) : Text :=
  List.intercalate [lineFeed] lines

/-- A page of a file with these lines. -/
structure IsPage (limits : PageLimits) (lines : List Text) (page : TextPage) : Prop where
  truncated_iff : page.truncated = true ↔
    limits.maxChars < (joinedLines (selectedLines limits lines)).length
  whole : page.truncated = false → page.lines = selectedLines limits lines
  more : page.truncated = false →
    (page.hasMore = true ↔ limits.offset - 1 + limits.limit < lines.length)
  total : page.truncated = false →
    page.totalLines = if page.hasMore then none else some lines.length
  cut : page.truncated = true →
    joinedLines page.lines = (joinedLines (selectedLines limits lines)).take limits.maxChars

namespace RuneReader

variable (limits : PageLimits)

/-- The lines of the page so far, the open one included. -/
def shownLines (closed : List Text) (current : Text) : List Text :=
  closed.drop (limits.offset - 1) ++
    if limits.offset ≤ closed.length + 1 ∧ current ≠ [] then [current] else []

/-- The variables of the loop behind these lines; `returned` marks a carriage return. -/
def behind (closed : List Text) (current : Text) (returned : Bool) : RuneReader where
  lines := closed.drop (limits.offset - 1)
  current := if limits.offset ≤ closed.length + 1 then current else []
  line := closed.length + 1
  kept := (joinedLines (shownLines limits closed current)).length
  lineHasText := !current.isEmpty
  skipLF := returned
  selectedStarted := decide (limits.offset ≤ closed.length + 1) && !current.isEmpty

/-- What holds between two characters. -/
structure Between (closed : List Text) (current : Text) (returned : Bool) : Prop where
  fresh : returned = true → current = []
  within : closed.length + 1 ≤ limits.offset + limits.limit
  inside : current ≠ [] → closed.length + 1 < limits.offset + limits.limit
  kept : (joinedLines (shownLines limits closed current)).length ≤ limits.maxChars

variable {limits} {closed : List Text} {current : Text} {returned : Bool}

theorem splitLinesFrom_ne_nil {c : CodePoint} (hskip : (returned && decide (c = lineFeed)) = false)
    (rest : Text) : splitLinesFrom current returned (c :: rest) ≠ [] := by
  have hfilled : ∀ (line text : Text) (flag : Bool), line ≠ [] → flag = false →
      splitLinesFrom line flag text ≠ [] := by
    intro line text flag hline hflag
    induction text generalizing line flag with
    | nil => simp [splitLinesFrom, hline]
    | cons d others ih =>
        rw [splitLinesFrom, hflag, Bool.false_and, if_neg Bool.false_ne_true]
        split
        · exact cons_ne_nil _ _
        · exact ih _ _ (by simp) rfl
  rw [splitLinesFrom, hskip, if_neg Bool.false_ne_true]
  split
  · exact cons_ne_nil _ _
  · exact hfilled _ _ _ (by simp) rfl

/-! ## What the lines ahead leave alone -/

theorem selectedLines_append (hwithin : limits.offset - 1 + limits.limit ≤ closed.length)
    (ahead : List Text) :
    selectedLines limits (closed ++ ahead) = selectedLines limits closed := by
  rw [selectedLines, selectedLines, drop_append_of_le_length (by omega),
    take_append_of_le_length (by rw [length_drop]; omega)]

/-- What is to be shown where the open line is one of the page. -/
theorem selectedLines_open (hselected : limits.offset ≤ closed.length + 1)
    (hinside : closed.length + 1 < limits.offset + limits.limit) (line : Text)
    (ahead : List Text) :
    ∃ more, selectedLines limits (closed ++ line :: ahead) =
      closed.drop (limits.offset - 1) ++ line :: more := by
  have hroom : limits.limit - (closed.drop (limits.offset - 1)).length =
      limits.limit - (closed.drop (limits.offset - 1)).length - 1 + 1 := by
    rw [length_drop]
    omega
  rw [selectedLines, drop_append_of_le_length (by omega), take_append,
    take_of_length_le (by rw [length_drop]; omega), hroom, take_succ_cons]
  exact ⟨_, rfl⟩

/-- A line that has begun goes on to its end. -/
theorem splitLinesFrom_begun {line : Text} (hline : line ≠ []) (text : Text) :
    ∃ tail others, splitLinesFrom line false text = (line ++ tail) :: others := by
  induction text generalizing line with
  | nil => exact ⟨[], [], by simp [splitLinesFrom, hline]⟩
  | cons c rest ih =>
      rw [splitLinesFrom, Bool.false_and, if_neg Bool.false_ne_true]
      split
      · exact ⟨[], _, by rw [append_nil]⟩
      · obtain ⟨tail, others, hothers⟩ := ih (append_ne_nil_of_right_ne_nil line
          (cons_ne_nil c []))
        exact ⟨c :: tail, others, by rw [hothers, append_assoc, singleton_append]⟩

/-! ## The ways out -/

/-- A page that is cut holds as many characters as it may, with one more ahead. -/
theorem isPage_of_cut {shown lines : List Text}
    (hlength : (joinedLines shown).length = limits.maxChars)
    (hahead : ∃ c rest, joinedLines (selectedLines limits lines) =
      joinedLines shown ++ c :: rest) :
    IsPage limits lines ⟨shown, none, true, true⟩ := by
  obtain ⟨c, rest, hwhole⟩ := hahead
  constructor
  · rw [hwhole, length_append, length_cons]
    simp
    omega
  · intro huncut
    cases huncut
  · intro huncut
    cases huncut
  · intro huncut
    cases huncut
  · intro _
    rw [hwhole, ← hlength, take_left']
    rfl

theorem isPage_of_limit (hoffset : 1 ≤ limits.offset)
    (hbetween : Between limits closed [] returned)
    (hpast : limits.offset + limits.limit ≤ closed.length + 1) {ahead : List Text}
    (hahead : ahead ≠ []) :
    IsPage limits (closed ++ ahead) ⟨closed.drop (limits.offset - 1), none, true, false⟩ := by
  have hselected : selectedLines limits (closed ++ ahead) = closed.drop (limits.offset - 1) := by
    rw [selectedLines_append (by omega), selectedLines, take_of_length_le]
    have hwithin := hbetween.within
    rw [length_drop]
    omega
  have hkept := hbetween.kept
  have hlength := length_pos_of_ne_nil hahead
  constructor
  · rw [hselected]
    simpa [shownLines] using hkept
  · intro _
    exact hselected.symm
  · intro _
    rw [length_append]
    simp
    omega
  · intro _
    rfl
  · intro hcut
    cases hcut

/-- At the end of the text. -/
theorem isPage_finish (hoffset : 1 ≤ limits.offset)
    (hbetween : Between limits closed current returned) :
    IsPage limits (closed ++ splitLinesFrom current returned [])
      ((behind limits closed current returned).finish limits) := by
  have hselected : selectedLines limits (closed ++ splitLinesFrom current returned []) =
      shownLines limits closed current := by
    have hwithin := hbetween.within
    have hinside := hbetween.inside
    rw [splitLinesFrom, shownLines]
    by_cases hcurrent : current = []
    · simp [hcurrent, selectedLines]
      omega
    · have hline := hinside hcurrent
      rw [if_neg hcurrent, selectedLines, take_of_length_le (by simp; omega)]
      by_cases hopen : limits.offset ≤ closed.length + 1
      · rw [drop_append_of_le_length (by omega), if_pos ⟨hopen, hcurrent⟩]
      · rw [if_neg (fun hboth => hopen hboth.1), drop_of_length_le (by simp; omega),
          drop_of_length_le (by omega), append_nil]
  have hfinish : (behind limits closed current returned).finish limits =
      ⟨shownLines limits closed current,
        some (closed ++ splitLinesFrom current returned []).length, false, false⟩ := by
    rw [RuneReader.finish, behind, shownLines, splitLinesFrom]
    by_cases hcurrent : current = [] <;> by_cases hopen : limits.offset ≤ closed.length + 1 <;>
      simp [hcurrent, hopen]
  have hkept := hbetween.kept
  rw [hfinish]
  constructor
  · rw [hselected]
    simpa using hkept
  · intro _
    exact hselected.symm
  · intro _
    have hwithin := hbetween.within
    have hinside := hbetween.inside
    rw [splitLinesFrom]
    by_cases hcurrent : current = []
    · simp [hcurrent]
      omega
    · have hline := hinside hcurrent
      simp [hcurrent]
      omega
  · intro _
    rfl
  · intro hcut
    cases hcut

/-! ## One character -/

/-- The lines of the page so far, where the next line is open. -/
def openLines (limits : PageLimits) (closed : List Text) (current : Text) : List Text :=
  closed.drop (limits.offset - 1) ++
    if limits.offset ≤ closed.length + 1 then [current] else []

/-- The variables of the loop once the line is open. -/
def opened (limits : PageLimits) (closed : List Text) (current : Text) : RuneReader :=
  { behind limits closed current false with
    kept := (joinedLines (openLines limits closed current)).length
    selectedStarted := decide (limits.offset ≤ closed.length + 1) }

/-- An empty line takes the separator in front of it. -/
theorem length_openLines_nil (hselected : limits.offset ≤ closed.length + 1) :
    (joinedLines (openLines limits closed [])).length =
      (joinedLines (closed.drop (limits.offset - 1))).length +
        if closed.drop (limits.offset - 1) = [] then 0 else 1 := by
  rw [openLines, if_pos hselected]
  by_cases hfirst : closed.drop (limits.offset - 1) = []
  · rw [hfirst, if_pos rfl]
    rfl
  · rw [joinedLines, intercalate_concat _ hfirst, if_neg hfirst, joinedLines]
    simp

theorem length_shownLines_concat (hselected : limits.offset ≤ closed.length + 1) (current : Text)
    (c : CodePoint) :
    (joinedLines (shownLines limits closed (current ++ [c]))).length =
      (joinedLines (openLines limits closed current)).length + 1 := by
  rw [shownLines, openLines, if_pos ⟨hselected, by simp⟩, if_pos hselected]
  by_cases hfirst : closed.drop (limits.offset - 1) = []
  · simp [hfirst, joinedLines]
  · simp [joinedLines, intercalate_concat _ hfirst]
    omega

theorem openLine_behind :
    openLine limits { behind limits closed current returned with skipLF := false } =
      if limits.offset + limits.limit ≤ closed.length + 1 then
        .error ⟨closed.drop (limits.offset - 1), none, true, false⟩
      else if limits.offset ≤ closed.length + 1 ∧ current = [] ∧
          closed.drop (limits.offset - 1) ≠ [] ∧
          limits.maxChars < (joinedLines (closed.drop (limits.offset - 1))).length + 1 then
        .error ⟨closed.drop (limits.offset - 1), none, true, true⟩
      else .ok (opened limits closed current) := by
  have hlimit : limits.offset ≤ closed.length + 1 ∧
      limits.limit ≤ closed.length + 1 - limits.offset ↔
        limits.offset + limits.limit ≤ closed.length + 1 := by omega
  change (if limits.offset ≤ closed.length + 1 ∧
    limits.limit ≤ closed.length + 1 - limits.offset then _ else _) = _
  by_cases hpast : limits.offset + limits.limit ≤ closed.length + 1
  · rw [if_pos (hlimit.mpr hpast), if_pos hpast]
    rfl
  rw [if_neg (mt hlimit.mp hpast), if_neg hpast]
  by_cases hselected : limits.offset ≤ closed.length + 1
  · by_cases hcurrent : current = []
    · have hkept := length_openLines_nil hselected
      by_cases hfirst : closed.drop (limits.offset - 1) = []
      · rw [if_pos hfirst] at hkept
        simp [behind, opened, shownLines, hselected, hcurrent, hfirst, hkept]
      · rw [if_neg hfirst] at hkept
        by_cases hroom : limits.maxChars <
            (joinedLines (closed.drop (limits.offset - 1))).length + 1
        · simp [behind, shownLines, hselected, hcurrent, hfirst, hroom]
        · simp [behind, opened, shownLines, hselected, hcurrent, hfirst, hroom, hkept]
    · simp [behind, opened, shownLines, openLines, hselected, hcurrent]
  · simp [behind, opened, shownLines, openLines, hselected]

theorem putRune_break {c : CodePoint} (hbreak : isLineBreak c = true) :
    putRune limits (opened limits closed current) c =
      .ok (behind limits (closed ++ [current]) [] (decide (c = carriageReturn))) := by
  rw [putRune, if_pos hbreak]
  by_cases hselected : limits.offset ≤ closed.length + 1
  · have hdrop : (closed ++ [current]).drop (limits.offset - 1) =
        closed.drop (limits.offset - 1) ++ [current] :=
      drop_append_of_le_length (by omega)
    simp [opened, behind, shownLines, openLines, hselected, hdrop]
  · have hdrop : (closed ++ [current]).drop (limits.offset - 1) = [] :=
      drop_of_length_le (by simp; omega)
    have hnone : closed.drop (limits.offset - 1) = [] := drop_of_length_le (by omega)
    simp [opened, behind, shownLines, openLines, hselected, hdrop, hnone]

theorem putRune_other {c : CodePoint} (hbreak : isLineBreak c = false) :
    putRune limits (opened limits closed current) c =
      if limits.offset ≤ closed.length + 1 ∧
          limits.maxChars ≤ (joinedLines (openLines limits closed current)).length then
        .error ⟨openLines limits closed current, none, true, true⟩
      else .ok (behind limits closed (current ++ [c]) false) := by
  rw [putRune, if_neg (Bool.eq_false_iff.mp hbreak)]
  by_cases hselected : limits.offset ≤ closed.length + 1
  · have hgrown := length_shownLines_concat hselected current c
    by_cases hfull : limits.maxChars ≤ (joinedLines (openLines limits closed current)).length
    · simp [opened, behind, openLines, hselected] at hfull ⊢
      simp [hfull]
    · simp [opened, behind, hselected, hfull, hgrown]
  · simp [opened, behind, shownLines, openLines, hselected]

theorem opened_kept (hbetween : Between limits closed current returned)
    (hroom : ¬ (limits.offset ≤ closed.length + 1 ∧ current = [] ∧
      closed.drop (limits.offset - 1) ≠ [] ∧
      limits.maxChars < (joinedLines (closed.drop (limits.offset - 1))).length + 1)) :
    (joinedLines (openLines limits closed current)).length ≤ limits.maxChars := by
  have hkept := hbetween.kept
  by_cases hselected : limits.offset ≤ closed.length + 1
  · by_cases hcurrent : current = []
    · rw [hcurrent, shownLines] at hkept
      rw [hcurrent, length_openLines_nil hselected]
      by_cases hfirst : closed.drop (limits.offset - 1) = []
      · simp [hfirst, joinedLines]
      · rw [if_neg hfirst]
        by_contra hfull
        exact hroom ⟨hselected, hcurrent, hfirst, Nat.lt_of_not_le hfull⟩
    · rw [shownLines, if_pos ⟨hselected, hcurrent⟩] at hkept
      rwa [openLines, if_pos hselected]
  · rw [shownLines, if_neg (fun hboth => hselected hboth.1)] at hkept
    rwa [openLines, if_neg hselected]

/-- The text ahead is cut in the open line. -/
theorem isPage_of_full (hselected : limits.offset ≤ closed.length + 1)
    (hinside : closed.length + 1 < limits.offset + limits.limit)
    (hfull : (joinedLines (openLines limits closed current)).length = limits.maxChars)
    (c : CodePoint) (rest : Text) :
    IsPage limits (closed ++ splitLinesFrom (current ++ [c]) false rest)
      ⟨openLines limits closed current, none, true, true⟩ := by
  obtain ⟨tail, others, hothers⟩ := splitLinesFrom_begun
    (append_ne_nil_of_right_ne_nil current (cons_ne_nil c [])) rest
  obtain ⟨more, hmore⟩ := selectedLines_open hselected hinside (current ++ [c] ++ tail) others
  apply isPage_of_cut hfull
  have hstarts : joinedLines (closed.drop (limits.offset - 1) ++ [current ++ [c] ++ tail]) =
      joinedLines (openLines limits closed current) ++ c :: tail := by
    rw [openLines, if_pos hselected]
    by_cases hfirst : closed.drop (limits.offset - 1) = []
    · simp [hfirst, joinedLines]
    · simp [joinedLines, intercalate_concat _ hfirst]
  obtain ⟨behind, hbehind⟩ := intercalate_prefix [lineFeed]
    (closed.drop (limits.offset - 1) ++ [current ++ [c] ++ tail]) more
  rw [hothers, hmore, ← singleton_append, ← append_assoc, joinedLines, ← hbehind]
  rw [joinedLines] at hstarts
  exact ⟨c, tail ++ behind, by rw [hstarts, append_assoc, cons_append]⟩

/-- The page ends in front of a separator. -/
theorem isPage_of_separator (hbetween : Between limits closed [] returned)
    (hselected : limits.offset ≤ closed.length + 1)
    (hinside : closed.length + 1 < limits.offset + limits.limit)
    (hfirst : closed.drop (limits.offset - 1) ≠ [])
    (hroom : limits.maxChars < (joinedLines (closed.drop (limits.offset - 1))).length + 1)
    {ahead : List Text} (hahead : ahead ≠ []) :
    IsPage limits (closed ++ ahead) ⟨closed.drop (limits.offset - 1), none, true, true⟩ := by
  obtain ⟨line, others, rfl⟩ := exists_cons_of_ne_nil hahead
  obtain ⟨more, hmore⟩ := selectedLines_open hselected hinside line others
  have hkept := hbetween.kept
  rw [shownLines, if_neg (fun hboth => hboth.2 rfl), append_nil] at hkept
  apply isPage_of_cut (by omega)
  exact ⟨lineFeed, joinedLines (line :: more), by
    rw [hmore, joinedLines, intercalate_append _ hfirst (cons_ne_nil _ _), append_assoc]
    rfl⟩

theorem Between.skipped (hbetween : Between limits closed [] returned) :
    Between limits closed [] false where
  fresh _ := rfl
  within := hbetween.within
  inside hfilled := absurd rfl hfilled
  kept := hbetween.kept

theorem between_closed (hinside : closed.length + 1 < limits.offset + limits.limit)
    (hopened : (joinedLines (openLines limits closed current)).length ≤ limits.maxChars) :
    Between limits (closed ++ [current]) [] returned where
  fresh _ := rfl
  within := by
    rw [length_append, length_singleton]
    omega
  inside hfilled := absurd rfl hfilled
  kept := by
    have hsame : shownLines limits (closed ++ [current]) [] = openLines limits closed current := by
      rw [shownLines, openLines, if_neg (fun hboth => hboth.2 rfl), append_nil]
      by_cases hselected : limits.offset ≤ closed.length + 1
      · rw [if_pos hselected, drop_append_of_le_length (by omega)]
      · rw [if_neg hselected, drop_of_length_le (by simp; omega),
          drop_of_length_le (by omega), append_nil]
    rw [hsame]
    exact hopened

theorem between_put (hinside : closed.length + 1 < limits.offset + limits.limit)
    {c : CodePoint}
    (hroom : ¬ (limits.offset ≤ closed.length + 1 ∧
      limits.maxChars ≤ (joinedLines (openLines limits closed current)).length)) :
    Between limits closed (current ++ [c]) false where
  fresh hreturned := absurd hreturned Bool.false_ne_true
  within := hinside.le
  inside _ := hinside
  kept := by
    by_cases hselected : limits.offset ≤ closed.length + 1
    · have hgrown := length_shownLines_concat hselected current c
      have hless := Nat.lt_of_not_le fun hfull => hroom ⟨hselected, hfull⟩
      omega
    · rw [shownLines, if_neg (fun hboth => hselected hboth.1), drop_of_length_le (by omega)]
      exact Nat.zero_le _

/-- The invariant carries through the text ahead: each character leaves or keeps it. -/
theorem isPage_behind (hoffset : 1 ≤ limits.offset) (text : Text)
    (hbetween : Between limits closed current returned) :
    IsPage limits (closed ++ splitLinesFrom current returned text)
      (pageOf (RuneReader.finish limits)
        (text.foldlM (readRune limits) (behind limits closed current returned))) := by
  induction text generalizing closed current returned with
  | nil => exact isPage_finish hoffset hbetween
  | cons c rest ih =>
      rw [foldlM_cons, readRune]
      cases hskip : returned && decide (c = lineFeed) with
      | true =>
          have hcurrent := hbetween.fresh (Bool.and_eq_true_iff.mp hskip).1
          subst hcurrent
          rw [if_pos (show ((behind limits closed [] returned).skipLF &&
            decide (c = lineFeed)) = true from hskip), splitLinesFrom, if_pos hskip]
          exact ih hbetween.skipped
      | false =>
          have hahead : splitLinesFrom current returned (c :: rest) ≠ [] :=
            splitLinesFrom_ne_nil hskip rest
          rw [if_neg (show ¬ ((behind limits closed current returned).skipLF &&
            decide (c = lineFeed)) = true from Bool.eq_false_iff.mp hskip), openLine_behind]
          by_cases hpast : limits.offset + limits.limit ≤ closed.length + 1
          · have hcurrent : current = [] := by
              by_contra hfilled
              exact absurd hpast (Nat.not_le.mpr (hbetween.inside hfilled))
            subst hcurrent
            rw [if_pos hpast]
            exact isPage_of_limit hoffset hbetween hpast hahead
          have hinside := Nat.lt_of_not_le hpast
          rw [if_neg hpast]
          by_cases hroom : limits.offset ≤ closed.length + 1 ∧ current = [] ∧
            closed.drop (limits.offset - 1) ≠ [] ∧
            limits.maxChars < (joinedLines (closed.drop (limits.offset - 1))).length + 1
          · rw [if_pos hroom]
            obtain ⟨hselected, rfl, hfirst, hfull⟩ := hroom
            exact isPage_of_separator hbetween hselected hinside hfirst hfull hahead
          have hopened := opened_kept hbetween hroom
          rw [if_neg hroom, splitLinesFrom, hskip, if_neg Bool.false_ne_true]
          change IsPage _ _ (pageOf _ (putRune limits (opened limits closed current) c >>=
            fun reader => rest.foldlM (readRune limits) reader))
          cases hbreak : isLineBreak c with
          | true =>
              rw [putRune_break hbreak, if_pos rfl, ← singleton_append, ← append_assoc]
              exact ih (between_closed hinside hopened)
          | false =>
              rw [putRune_other hbreak, if_neg Bool.false_ne_true]
              by_cases hfull : limits.offset ≤ closed.length + 1 ∧
                limits.maxChars ≤ (joinedLines (openLines limits closed current)).length
              · rw [if_pos hfull]
                exact isPage_of_full hfull.1 hinside (le_antisymm hopened hfull.2) c rest
              · rw [if_neg hfull]
                exact ih (between_put hinside hfull)

end RuneReader

/-- Whatever chunks the stream hands out, a page shows the lines of the text, from the offset on
and within the limits. -/
theorem readLocalPage_isPage {limits : PageLimits} (hoffset : 1 ≤ limits.offset)
    (hlimit : 1 ≤ limits.limit) {chunks : List Text} (hchunks : ∀ chunk ∈ chunks, chunk ≠ []) :
    IsPage limits (splitLines chunks.flatten) (readLocalPage limits chunks) := by
  have hbetween : RuneReader.Between limits [] [] false := by
    constructor
    · intro _
      rfl
    · rw [length_nil]
      omega
    · intro hfilled
      exact absurd rfl hfilled
    · simp [RuneReader.shownLines, joinedLines]
  have hstart : RuneReader.behind limits [] [] false = {} := by
    simp [RuneReader.behind, RuneReader.shownLines, joinedLines]
  have hpage := RuneReader.isPage_behind hoffset chunks.flatten hbetween
  rw [hstart] at hpage
  rw [readLocalPage_eq_readRunes hoffset hlimit hchunks]
  exact hpage

theorem readLocalPage_isPage_crlf :
    IsPage ⟨2, 1, 10⟩ (splitLines (lit "ab\r\ncd\ne")) ⟨[lit "cd"], none, true, false⟩ := by
  have hpage : readLocalPage ⟨2, 1, 10⟩ [lit "ab\r", lit "\ncd\ne"] =
      ⟨[lit "cd"], none, true, false⟩ := by decide
  have hchunks : ∀ chunk ∈ [lit "ab\r", lit "\ncd\ne"], chunk ≠ [] := by decide
  rw [← hpage]
  exact readLocalPage_isPage (by decide) (by decide) hchunks

end ReuleauxCoder.Workspace
