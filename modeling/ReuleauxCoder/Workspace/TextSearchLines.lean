import ReuleauxCoder.Library.ByteLiterals
import ReuleauxCoder.Workspace.PageLines
import ReuleauxCoder.Workspace.TextSearch

/-!
# Lines of a search

The search reads a file in lines that end in a line feed and splits each of them on its own.
A line feed is a line break and no part of another character, so this gives the lines of the
whole file, and the numbers of the search are those of a page.
-/

namespace ReuleauxCoder.Workspace.Local

open PyText PyJson List
open scoped ByteLiterals

/-! ## Lines of the reads -/

/-- Every read but the last ends in a line feed. -/
inductive Fed : List (List Byte) → Prop
  | nil : Fed []
  | last (raw : List Byte) : Fed [raw]
  | cons (raw : List Byte) {rest : List (List Byte)} (hrest : Fed rest) :
      Fed ((raw ++ [10]) :: rest)

theorem fed_rawLinesFrom (raw content : List Byte) : Fed (rawLinesFrom raw content) := by
  induction content generalizing raw with
  | nil =>
      rw [rawLinesFrom]
      split
      · exact .nil
      · exact .last raw
  | cons b rest ih =>
      rw [rawLinesFrom]
      split
      · rename_i hfeed
        rw [hfeed]
        exact .cons raw (ih [])
      · exact ih (raw ++ [b])

theorem flatten_rawLinesFrom (raw content : List Byte) :
    (rawLinesFrom raw content).flatten = raw ++ content := by
  induction content generalizing raw with
  | nil =>
      rw [rawLinesFrom]
      split
      · rename_i hempty
        rw [hempty]
        rfl
      · simp
  | cons b rest ih =>
      rw [rawLinesFrom]
      split
      · rw [flatten_cons, ih]
        simp
      · rw [ih]
        simp

theorem flatten_rawLines (content : List Byte) : (rawLines content).flatten = content :=
  flatten_rawLinesFrom [] content

theorem Fed.initial {taken reads : List (List Byte)} (hreads : Fed reads)
    (htaken : taken <+: reads) : Fed taken := by
  induction hreads generalizing taken with
  | nil =>
      rw [prefix_nil.mp htaken]
      exact .nil
  | last raw =>
      cases taken with
      | nil => exact .nil
      | cons head tail =>
          obtain ⟨rfl, htail⟩ := cons_prefix_cons.mp htaken
          rw [prefix_nil.mp htail]
          exact .last head
  | cons raw hrest ih =>
      cases taken with
      | nil => exact .nil
      | cons head tail =>
          obtain ⟨rfl, htail⟩ := cons_prefix_cons.mp htaken
          exact .cons raw (ih htail)

/-- The lines of a file are those of its reads. -/
theorem Fed.splitLines_flatten {reads : List (List Byte)} (hreads : Fed reads) :
    splitLines (decode reads.flatten) = reads.flatMap linesOf := by
  have hascii : (10 : Byte).val < 0x80 := by decide
  induction hreads with
  | nil => rfl
  | last raw => simp [linesOf]
  | cons raw hrest ih =>
      rename_i rest
      calc
        splitLines (decode ((raw ++ [10]) :: rest).flatten)
            = splitLines (decode raw ++ lineFeed :: decode rest.flatten) := by
          rw [flatten_cons, append_assoc, singleton_append,
            decode_append_ascii raw hascii]
          rfl
        _ = splitLines (decode raw ++ [lineFeed]) ++ splitLines (decode rest.flatten) :=
          splitLinesFrom_lineFeed_append [] false (decode raw) (decode rest.flatten)
        _ = linesOf (raw ++ [10]) ++ rest.flatMap linesOf := by
          rw [ih, linesOf, decode_append_ascii raw hascii]
          rfl
        _ = ((raw ++ [10]) :: rest).flatMap linesOf := rfl

/-- The lines of the first reads are the first lines of the file. -/
theorem splitLines_begins {content : List Byte} {taken : List (List Byte)}
    (htaken : taken <+: rawLines content) :
    splitLines (decode taken.flatten) <+: splitLines (decode content) := by
  have hfed := fed_rawLinesFrom [] content
  obtain ⟨more, hmore⟩ := htaken
  have hwhole : splitLines (decode content) = (taken ++ more).flatMap linesOf := by
    rw [← flatten_rawLines content, ← hmore]
    exact (hmore ▸ hfed : Fed (taken ++ more)).splitLines_flatten
  rw [hwhole, (hfed.initial ⟨more, hmore⟩).splitLines_flatten, flatMap_append]
  exact prefix_append _ _

section Matches

variable {request : SearchRequest} {outside : Outside} {path : Text}

theorem matchesFrom_append (lineNumber : ℕ) (lines others : List Text) :
    matchesFrom request outside path lineNumber (lines ++ others) =
      matchesFrom request outside path lineNumber lines ++
        matchesFrom request outside path (lineNumber + lines.length) others := by
  induction lines generalizing lineNumber with
  | nil => rfl
  | cons line rest ih =>
      have hnumber : lineNumber + 1 + rest.length = lineNumber + (line :: rest).length := by
        rw [length_cons, Nat.add_assoc, Nat.add_comm 1]
      rw [cons_append, matchesFrom, matchesFrom, ih, hnumber]
      split <;> rfl

theorem mem_matchesFrom {lineNumber : ℕ} {lines : List Text} {found : SearchMatch}
    (hfound : found ∈ matchesFrom request outside path lineNumber lines) :
    ∃ index line, lines[index]? = some line ∧ outside.pattern line = true ∧
      found = matchOf request path (lineNumber + index + 1) line := by
  induction lines generalizing lineNumber with
  | nil => cases hfound
  | cons line rest ih =>
      have hlater : found ∈ matchesFrom request outside path (lineNumber + 1) rest →
          ∃ index other, (line :: rest)[index]? = some other ∧ outside.pattern other = true ∧
            found = matchOf request path (lineNumber + index + 1) other := by
        intro hrest
        obtain ⟨index, other, hindex, hpattern, heq⟩ := ih hrest
        refine ⟨index + 1, other, hindex, hpattern, ?_⟩
        rw [heq, Nat.add_right_comm lineNumber 1 index, Nat.add_assoc lineNumber index 1]
      rw [matchesFrom] at hfound
      split at hfound
      · rename_i hpattern
        cases hfound with
        | head => exact ⟨0, line, rfl, hpattern, rfl⟩
        | tail _ hrest => exact hlater hrest
      · exact hlater hfound

end Matches

/-- The line of a file with this number, which a page shows under it. -/
structure IsLine (content : List Byte) (lineNumber : ℕ) (line : Text) : Prop where
  positive : 1 ≤ lineNumber
  numbered : (splitLines (decode content))[lineNumber - 1]? = some line
  page : ∀ (maxChars : ℕ) (chunks : List Text), (∀ chunk ∈ chunks, chunk ≠ []) →
    chunks.flatten = decode content → line.length ≤ maxChars →
      (readLocalPage ⟨lineNumber, 1, maxChars⟩ chunks).lines = [line]

theorem isLine_of_numbered {content : List Byte} {index : ℕ} {line : Text}
    (hindex : (splitLines (decode content))[index]? = some line) :
    IsLine content (index + 1) line := by
  constructor
  · exact Nat.succ_pos index
  · exact hindex
  · intro maxChars chunks hchunks hcontent hlength
    have hbetween : RuneReader.Between ⟨index + 1, 1, maxChars⟩ [] [] false := by
      constructor
      · intro _
        rfl
      · exact Nat.le_add_left 1 (index + 1)
      · intro hfilled
        exact absurd rfl hfilled
      · simp [RuneReader.shownLines, joinedLines]
    have hstart : RuneReader.behind ⟨index + 1, 1, maxChars⟩ [] [] false = {} := by
      simp [RuneReader.behind, RuneReader.shownLines, joinedLines]
    have hoffset : 1 ≤ (PageLimits.mk (index + 1) 1 maxChars).offset := Nat.succ_pos index
    have hpage := RuneReader.isPage_behind hoffset chunks.flatten hbetween
    rw [hstart] at hpage
    change IsPage _ (splitLines chunks.flatten)
      (readRunes ⟨index + 1, 1, maxChars⟩ chunks.flatten) at hpage
    rw [hcontent] at hpage
    have hselected : selectedLines ⟨index + 1, 1, maxChars⟩ (splitLines (decode content)) =
        [line] := by
      rw [selectedLines, Nat.add_sub_cancel, take_one, head?_drop, hindex]
      rfl
    have huncut : (readRunes ⟨index + 1, 1, maxChars⟩ (decode content)).truncated =
        false := by
      rw [Bool.eq_false_iff]
      intro hcut
      have hlong := hpage.truncated_iff.mp hcut
      rw [hselected, joinedLines, intercalate_singleton] at hlong
      exact absurd hlength (Nat.not_le.mpr hlong)
    rw [readLocalPage_eq_readRunes hoffset le_rfl hchunks, hcontent,
      hpage.whole huncut, hselected]

end ReuleauxCoder.Workspace.Local
