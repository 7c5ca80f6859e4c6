import ReuleauxCoder.Library.Endings
import ReuleauxCoder.Workspace.Patch

/-!
# What a patch does to the other lines

`_apply_hunks` splits the file into lines and joins them again with one line break, so
that a line outside the hunks keeps its own ending only where that is the line break of
the file.  The intended text is put together from the lines and their endings as the file
has them, and the two are compared.
-/

namespace ReuleauxCoder.Workspace

open PyText PyJson Check List

/-- `newline` of `_apply_hunks`. -/
def newlineOf (content : Text) : Text :=
  if [carriageReturn, lineFeed] <:+: content then lit "\r\n" else lit "\n"

/-- `suffix` of `_apply_hunks`. -/
def suffixOf (content : Text) : Text :=
  if content.getLast?.any fun c => c = lineFeed || c = carriageReturn then newlineOf content
  else []

/-! ## The intended text -/

/-- A line of the patched file: one outside the hunks, as the file has it, or one that a
hunk puts there. -/
inductive Piece where
  | kept (segment : Segment)
  | fresh (line : Text)
  deriving DecidableEq

def Piece.line : Piece → Text
  | .kept segment => segment.line
  | .fresh line => line

def Piece.segment (newline : Text) : Piece → Segment
  | .kept segment => segment
  | .fresh line => ⟨line, newline⟩

/-- Each hunk's old lines are replaced by its new ones, in the one place behind the
previous hunk where they occur. -/
def replaceHunks (path : Text) : List Hunk → List Segment → Except PatchError (List Piece)
  | [], rest => .ok (rest.map Piece.kept)
  | hunk :: hunks, rest =>
      match occurrences (rest.map Segment.line) hunk.old 0 with
      | [start] => do
          let after ← replaceHunks path hunks (rest.drop (start + hunk.old.length))
          return (rest.take start).map Piece.kept ++ hunk.new.map Piece.fresh ++ after
      | [] => .error (.notFound path)
      | _ => .error (.notUnique path)

/-- New lines end as the lines of the file do; `final` is what stands behind a new line
that is the last one. -/
def fitted (newline final : Text) : List Piece → List Segment
  | [] => []
  | [.kept segment] => [segment]
  | [.fresh line] => [⟨line, final⟩]
  | piece :: next :: rest => piece.segment newline :: fitted newline final (next :: rest)

/-- The file ends in a line break after the patch where it did so before. -/
def finalOf (content : Text) : Text :=
  if content.getLast?.any isLineBreak then newlineOf content else []

/-- The lines of the patched file as they should be. -/
def patchedLines (content : Text) (pieces : List Piece) : List Segment :=
  fitted (newlineOf content) (finalOf content) pieces

/-- The content with each hunk's lines replaced and every other character kept. -/
def patchedText (content : Text) (pieces : List Piece) : Text :=
  (patchedLines content pieces).flatMap Segment.text

/-! ## The lines that `_apply_hunks` joins -/

theorem occurrences_append (front lines old : List Text) :
    occurrences (front ++ lines) old front.length =
      (occurrences lines old 0).map (front.length + ·) := by
  have hcount : (front ++ lines).length + 1 - old.length - front.length =
      lines.length + 1 - old.length - 0 := by
    rw [length_append]
    omega
  have hrange : ∀ count, List.range' front.length count =
      (List.range' 0 count).map (front.length + ·) := by
    intro count
    rw [map_add_range', Nat.add_zero]
  rw [occurrences, occurrences, hcount, hrange, filter_map]
  congr 1
  apply filter_congr
  intro index _
  rw [Function.comp_apply, drop_append, drop_eq_nil_of_le (Nat.le_add_right _ _),
    nil_append, Nat.add_sub_cancel_left]

variable {lines : List Text} {hunks : List Hunk} {path : Text}

/-- The place of a hunk is where its first line is. -/
theorem le_of_occurrences {old : List Text} {start : ℕ}
    (hplaces : occurrences lines old 0 = [start]) : start + old.length ≤ lines.length := by
  have hmem : start ∈ occurrences lines old 0 := by
    rw [hplaces]
    exact mem_singleton_self start
  rw [occurrences, mem_filter, mem_range'] at hmem
  omega

theorem replaceHunks_placed {hunk : Hunk} {rest : List Segment} {start : ℕ}
    (hplaces : occurrences (rest.map Segment.line) hunk.old 0 = [start]) :
    replaceHunks path (hunk :: hunks) rest =
      (replaceHunks path hunks (rest.drop (start + hunk.old.length))).map fun after =>
        (rest.take start).map Piece.kept ++ hunk.new.map Piece.fresh ++ after := by
  rw [replaceHunks, hplaces]
  show (replaceHunks path hunks (rest.drop (start + hunk.old.length)) >>= _) = _
  cases replaceHunks path hunks (rest.drop (start + hunk.old.length)) with
  | error error => rfl
  | ok after => rfl

theorem foldlM_applyHunk (path : Text) (hunks : List Hunk) (front : List Text)
    (rest : List Segment) :
    (hunks.foldlM (applyHunk path) (front ++ rest.map Segment.line, front.length)).map Prod.fst =
      (replaceHunks path hunks rest).map fun pieces => front ++ pieces.map Piece.line := by
  induction hunks generalizing front rest with
  | nil =>
      have hlines : (rest.map Piece.kept).map Piece.line = rest.map Segment.line := by
        rw [map_map]
        rfl
      rw [replaceHunks, foldlM_nil]
      exact congrArg Except.ok (congrArg (front ++ ·) hlines.symm)
  | cons hunk hunks ih =>
      rw [foldlM_cons, applyHunk, occurrences_append]
      rcases hplaces : occurrences (rest.map Segment.line) hunk.old 0 with
        _ | ⟨start, _ | ⟨second, others⟩⟩
      · rw [replaceHunks, hplaces]
        rfl
      · have hstart : start ≤ rest.length := by
          have hle := le_of_occurrences hplaces
          rw [length_map] at hle
          omega
        have hbefore : (front ++ rest.map Segment.line).take (front.length + start) =
            front ++ (rest.take start).map Segment.line := by
          rw [take_length_add_append, map_take]
        have hbehind : (front ++ rest.map Segment.line).drop
              (front.length + start + hunk.old.length) =
            (rest.drop (start + hunk.old.length)).map Segment.line := by
          rw [Nat.add_assoc, drop_length_add_append, map_drop]
        have hcursor : front.length + start + hunk.new.length =
            (front ++ (rest.take start).map Segment.line ++ hunk.new).length := by
          rw [length_append, length_append, length_map, length_take,
            Nat.min_eq_left hstart]
        have hnew : (hunk.new.map Piece.fresh).map Piece.line = hunk.new := by
          rw [map_map]
          exact map_id _
        have hkept : ((rest.take start).map Piece.kept).map Piece.line =
            (rest.take start).map Segment.line := by
          rw [map_map]
          rfl
        show (hunks.foldlM (applyHunk path) (_, _)).map Prod.fst = _
        rw [hbefore, hbehind, hcursor, ih, replaceHunks_placed hplaces]
        cases replaceHunks path hunks (rest.drop (start + hunk.old.length)) with
        | error error => rfl
        | ok after =>
            apply congrArg Except.ok
            simp only [map_append, hkept, hnew, append_assoc]
      · rw [replaceHunks, hplaces]
        rfl

/-- `_apply_hunks` joins the lines that are kept and those that are new. -/
theorem applyHunks_eq (content path : Text) (hunks : List Hunk) :
    applyHunks content hunks path = (replaceHunks path hunks (segments content)).map fun pieces =>
      (newlineOf content).intercalate (pieces.map Piece.line) ++ suffixOf content := by
  have hlines := foldlM_applyHunk path hunks [] (segments content)
  simp only [nil_append, map_line_segments, length_nil] at hlines
  rw [applyHunks]
  cases hfold : hunks.foldlM (applyHunk path) (splitLines content, 0) with
  | error error =>
      rw [hfold] at hlines
      cases hreplace : replaceHunks path hunks (segments content) with
      | error other =>
          rw [hreplace] at hlines
          cases hlines
          rfl
      | ok pieces =>
          rw [hreplace] at hlines
          cases hlines
  | ok reached =>
      rw [hfold] at hlines
      cases hreplace : replaceHunks path hunks (segments content) with
      | error other =>
          rw [hreplace] at hlines
          cases hlines
      | ok pieces =>
          rw [hreplace] at hlines
          have hfirst : reached.1 = pieces.map Piece.line := Except.ok.inj hlines
          rw [Except.map, ← hfirst]
          rfl

/-! ## The pieces of a patched file -/

/-- What is known of the pieces: a kept line has the ending of a line, and one that is
not the last is not without it. -/
structure Fits (pieces : List Piece) : Prop where
  unbroken : ∀ piece ∈ pieces, Unbroken piece.line
  ending : ∀ segment, Piece.kept segment ∈ pieces →
    segment.ending = [] ∨ IsEnding segment.ending
  closed : ∀ segment, Piece.kept segment ∈ pieces.dropLast → segment.ending ≠ []

theorem fits_kept {rest : List Segment} (hended : Ended rest) : Fits (rest.map Piece.kept) where
  unbroken piece hmem := by
    obtain ⟨segment, hsegment, rfl⟩ := mem_map.mp hmem
    exact hended.unbroken segment hsegment
  ending segment hmem := by
    obtain ⟨other, hother, heq⟩ := mem_map.mp hmem
    cases heq
    exact hended.ending segment hother
  closed segment hmem := by
    rw [← map_dropLast] at hmem
    obtain ⟨other, hother, heq⟩ := mem_map.mp hmem
    cases heq
    exact hended.closed segment hother

variable {pieces : List Piece}

theorem Fits.fresh_append (hlines : ∀ line ∈ lines, Unbroken line) (hfits : Fits pieces) :
    Fits (lines.map Piece.fresh ++ pieces) where
  unbroken piece hmem := by
    cases mem_append.mp hmem with
    | inl hnew =>
        obtain ⟨line, hline, rfl⟩ := mem_map.mp hnew
        exact hlines line hline
    | inr hold => exact hfits.unbroken piece hold
  ending segment hmem := by
    cases mem_append.mp hmem with
    | inl hnew =>
        obtain ⟨line, -, heq⟩ := mem_map.mp hnew
        cases heq
    | inr hold => exact hfits.ending segment hold
  closed segment hmem := by
    by_cases hnone : pieces = []
    · rw [hnone, append_nil] at hmem
      obtain ⟨line, -, heq⟩ := mem_map.mp (mem_of_mem_dropLast hmem)
      cases heq
    · rw [dropLast_append_of_ne_nil hnone] at hmem
      cases mem_append.mp hmem with
      | inl hnew =>
          obtain ⟨line, -, heq⟩ := mem_map.mp hnew
          cases heq
      | inr hold => exact hfits.closed segment hold

/-- Lines of the file that are followed by another one have an ending. -/
theorem Fits.kept_append {rest : List Segment} (hended : Ended rest) {start : ℕ}
    (hstart : start < rest.length) (hfits : Fits pieces) :
    Fits ((rest.take start).map Piece.kept ++ pieces) where
  unbroken piece hmem := by
    cases mem_append.mp hmem with
    | inl hkept =>
        obtain ⟨segment, hsegment, rfl⟩ := mem_map.mp hkept
        exact hended.unbroken segment (mem_of_mem_take hsegment)
    | inr hlater => exact hfits.unbroken piece hlater
  ending segment hmem := by
    cases mem_append.mp hmem with
    | inl hkept =>
        obtain ⟨other, hother, heq⟩ := mem_map.mp hkept
        cases heq
        exact hended.ending segment (mem_of_mem_take hother)
    | inr hlater => exact hfits.ending segment hlater
  closed segment hmem := by
    have hkept : Piece.kept segment ∈ (rest.take start).map Piece.kept → segment.ending ≠ [] := by
      intro hmem
      obtain ⟨other, hother, heq⟩ := mem_map.mp hmem
      cases heq
      apply hended.closed segment
      rw [dropLast_eq_take]
      exact take_subset_take_left rest (by omega) hother
    by_cases hnone : pieces = []
    · rw [hnone, append_nil] at hmem
      exact hkept (mem_of_mem_dropLast hmem)
    · rw [dropLast_append_of_ne_nil hnone] at hmem
      cases mem_append.mp hmem with
      | inl hold => exact hkept hold
      | inr hlater => exact hfits.closed segment hlater

/-- A hunk that has old lines is never placed behind the last line. -/
theorem fits_replaceHunks {rest : List Segment} (hended : Ended rest)
    (hold : ∀ hunk ∈ hunks, hunk.old ≠ []) (hnew : ∀ hunk ∈ hunks, ∀ line ∈ hunk.new, Unbroken line)
    (hreplace : replaceHunks path hunks rest = .ok pieces) : Fits pieces := by
  induction hunks generalizing rest pieces with
  | nil =>
      cases hreplace
      exact fits_kept hended
  | cons hunk hunks ih =>
      rcases hplaces : occurrences (rest.map Segment.line) hunk.old 0 with
        _ | ⟨start, _ | ⟨second, others⟩⟩
      · rw [replaceHunks, hplaces] at hreplace
        cases hreplace
      · rw [replaceHunks_placed hplaces, map_eq_ok] at hreplace
        obtain ⟨after, hafter, rfl⟩ := hreplace
        have hle := le_of_occurrences hplaces
        rw [length_map] at hle
        have hlength := length_pos_iff.mpr (hold hunk mem_cons_self)
        have hfits := ih (hended.drop _)
          (fun other hother => hold other (mem_cons_of_mem hunk hother))
          (fun other hother => hnew other (mem_cons_of_mem hunk hother)) hafter
        rw [append_assoc]
        exact Fits.kept_append hended (by omega)
          (Fits.fresh_append (hnew hunk mem_cons_self) hfits)
      · rw [replaceHunks, hplaces] at hreplace
        cases hreplace

/-! ## The endings of the patched lines -/

theorem map_line_fitted (newline final : Text) (pieces : List Piece) :
    (fitted newline final pieces).map Segment.line = pieces.map Piece.line := by
  fun_induction fitted newline final pieces with
  | case1 => rfl
  | case2 segment => rfl
  | case3 line => rfl
  | case4 piece next rest ih =>
      rw [map_cons, map_cons, ih]
      cases piece <;> rfl

theorem ended_fitted {newline final : Text} (hfits : Fits pieces) (hnewline : IsEnding newline)
    (hfinal : final = [] ∨ IsEnding final) : Ended (fitted newline final pieces) := by
  fun_induction fitted newline final pieces with
  | case1 => exact Ended.nil
  | case2 segment =>
      exact Ended.last (hfits.unbroken _ mem_cons_self)
        (hfits.ending segment mem_cons_self)
  | case3 line => exact Ended.last (hfits.unbroken _ mem_cons_self) hfinal
  | case4 piece next rest ih =>
      have hfirst : piece ∈ (piece :: next :: rest).dropLast := by
        rw [dropLast_cons_cons]
        exact mem_cons_self
      have hrest : Fits (next :: rest) := {
        unbroken := fun other hother => hfits.unbroken other (mem_cons_of_mem piece hother)
        ending := fun other hother => hfits.ending other (mem_cons_of_mem piece hother)
        closed := fun other hother => hfits.closed other (by
          rw [dropLast_cons_cons]
          exact mem_cons_of_mem piece hother) }
      cases piece with
      | kept segment =>
          exact Ended.cons (hfits.unbroken _ mem_cons_self)
            ((hfits.ending segment mem_cons_self).resolve_left
              (hfits.closed segment hfirst)) (ih hrest)
      | fresh line =>
          exact Ended.cons (hfits.unbroken _ mem_cons_self) hnewline (ih hrest)

/-- Every line outside the hunks that another line follows ends in the line break of the
file, and what stands behind the last line is what `_apply_hunks` puts there. -/
def KeepsEndings (content : Text) (pieces : List Piece) : Prop :=
  (∀ segment, Piece.kept segment ∈ pieces.dropLast → segment.ending = newlineOf content) ∧
    match pieces.getLast? with
    | none => suffixOf content = []
    | some (.kept segment) => segment.ending = suffixOf content
    | some (.fresh _) => finalOf content = suffixOf content

theorem uniform_patchedLines (content : Text) (pieces : List Piece) :
    Uniform (newlineOf content) (suffixOf content) (patchedLines content pieces) ↔
      KeepsEndings content pieces := by
  unfold patchedLines
  fun_induction fitted (newlineOf content) (finalOf content) pieces with
  | case1 =>
      constructor
      · intro huniform
        exact ⟨by simp, huniform.2.symm⟩
      · intro hkeeps
        exact ⟨by simp, hkeeps.2.symm⟩
  | case2 segment => simp [Uniform, KeepsEndings]
  | case3 line => simp [Uniform, KeepsEndings]
  | case4 piece next rest ih =>
      have hne : fitted (newlineOf content) (finalOf content) (next :: rest) ≠ [] := by
        intro hnone
        have hlines := map_line_fitted (newlineOf content) (finalOf content) (next :: rest)
        rw [hnone] at hlines
        cases hlines
      obtain ⟨head, tail, heq⟩ := exists_cons_of_ne_nil hne
      rw [heq, uniform_cons_cons, ← heq, ih, KeepsEndings, KeepsEndings, dropLast_cons_cons,
        getLast?_cons_cons, ← and_assoc]
      apply and_congr_left'
      constructor
      · rintro ⟨hfirst, hlater⟩ segment hmem
        cases mem_cons.mp hmem with
        | inl hkept =>
            rw [← hkept] at hfirst
            exact hfirst
        | inr hmore => exact hlater segment hmore
      · intro hall
        constructor
        · cases piece with
          | kept segment => exact hall segment mem_cons_self
          | fresh line => rfl
        · intro segment hmem
          exact hall segment (mem_cons_of_mem piece hmem)

theorem newlineOf_eq (content : Text) :
    newlineOf content = [lineFeed] ∨ newlineOf content = crlf := by
  unfold newlineOf
  split
  · exact Or.inr rfl
  · exact Or.inl rfl

theorem isEnding_newlineOf (content : Text) : IsEnding (newlineOf content) := by
  cases newlineOf_eq content with
  | inl hfeed => exact Or.inr ⟨lineFeed, isLineBreak_lineFeed, hfeed⟩
  | inr hcrlf => exact Or.inl hcrlf

/-! ## The new lines of an accepted patch -/

theorem unbroken_drop {line : Text} (hline : Unbroken line) (count : ℕ) :
    Unbroken (line.drop count) := by
  intro c hc
  exact hline c (mem_of_mem_drop hc)

section

variable (hlines : ∀ line ∈ lines, Unbroken line)
include hlines

theorem unbroken_parseAdded {added rest : List Text}
    (hparse : parseAdded path lines = .ok (added, rest)) :
    (∀ line ∈ added, Unbroken line) ∧ ∀ line ∈ rest, Unbroken line := by
  induction lines generalizing added rest with
  | nil =>
      cases hparse
      simp
  | cons line lines ih =>
      rw [parseAdded] at hparse
      split at hparse
      · cases hparse
        exact ⟨by simp, hlines⟩
      · split at hparse
        · simp only [bind_eq_ok, pure_eq_ok] at hparse
          obtain ⟨⟨more, left⟩, hmore, heq⟩ := hparse
          cases heq
          obtain ⟨hnew, hrest⟩ :=
            ih (fun other hother => hlines other (mem_cons_of_mem line hother)) hmore
          constructor
          · exact forall_mem_cons.mpr
              ⟨unbroken_drop (hlines line mem_cons_self) 1, hnew⟩
          · exact hrest
        · cases hparse

theorem unbroken_parseHunkLines {rest : List Text} {hunk : Hunk}
    (hparse : parseHunkLines path lines = .ok (hunk, rest)) :
    (∀ line ∈ hunk.new, Unbroken line) ∧ ∀ line ∈ rest, Unbroken line := by
  induction lines generalizing hunk rest with
  | nil =>
      cases hparse
      simp
  | cons line lines ih =>
      rw [parseHunkLines] at hparse
      split at hparse
      · cases hparse
        exact ⟨by simp, hlines⟩
      · split at hparse
        · simp only [bind_eq_ok, pure_eq_ok] at hparse
          obtain ⟨⟨more, left⟩, hmore, heq⟩ := hparse
          cases heq
          obtain ⟨hnew, hrest⟩ :=
            ih (fun other hother => hlines other (mem_cons_of_mem line hother)) hmore
          constructor
          · show ∀ other ∈ (if startsWith "-" line then more.new else line.drop 1 :: more.new), _
            split
            · exact hnew
            · exact forall_mem_cons.mpr
                ⟨unbroken_drop (hlines line mem_cons_self) 1, hnew⟩
          · exact hrest
        · cases hparse

theorem unbroken_parseHunks {total fuel : ℕ} {rest : List Text}
    (hparse : parseHunks path total fuel lines = .ok (hunks, rest)) :
    (∀ hunk ∈ hunks, ∀ line ∈ hunk.new, Unbroken line) ∧ ∀ line ∈ rest, Unbroken line := by
  induction fuel generalizing lines hunks rest with
  | zero =>
      cases lines with
      | nil =>
          cases hparse
          simp
      | cons line lines =>
          cases hparse
          exact ⟨by simp, hlines⟩
  | succ fuel ih =>
      cases lines with
      | nil =>
          cases hparse
          simp
      | cons line lines =>
          rw [parseHunks] at hparse
          split at hparse
          · cases hparse
            exact ⟨by simp, hlines⟩
          · simp only [bind_eq_ok, exists_unit, require_eq_ok, pure_eq_ok] at hparse
            obtain ⟨-, ⟨hunk, left⟩, hhunk, -, -, ⟨others, after⟩, hothers, heq⟩ := hparse
            cases heq
            obtain ⟨hnew, hleft⟩ := unbroken_parseHunkLines
              (fun other hother => hlines other (mem_cons_of_mem line hother)) hhunk
            obtain ⟨hmore, hrest⟩ := ih hleft hothers
            exact ⟨forall_mem_cons.mpr ⟨hnew, hmore⟩, hrest⟩

theorem unbroken_parseBody {add : Bool} {total : ℕ} {rest : List Text}
    (hparse : parseBody path add total lines = .ok (hunks, rest)) :
    (∀ hunk ∈ hunks, ∀ line ∈ hunk.new, Unbroken line) ∧ ∀ line ∈ rest, Unbroken line := by
  rw [parseBody] at hparse
  split at hparse
  · simp only [bind_eq_ok, pure_eq_ok] at hparse
    obtain ⟨⟨added, left⟩, hadded, heq⟩ := hparse
    cases heq
    obtain ⟨hnew, hrest⟩ := unbroken_parseAdded hlines hadded
    exact ⟨by simpa using hnew, hrest⟩
  · simp only [bind_eq_ok, exists_unit, require_eq_ok, pure_eq_ok] at hparse
    obtain ⟨⟨read, left⟩, hread, -, heq⟩ := hparse
    cases heq
    exact unbroken_parseHunks hlines hread

theorem unbroken_parseFiles {total fuel : ℕ} {files result : List PatchFile}
    (hfiles : ∀ file ∈ files, ∀ hunk ∈ file.hunks, ∀ line ∈ hunk.new, Unbroken line)
    (hparse : parseFiles total fuel files lines = .ok result) :
    ∀ file ∈ result, ∀ hunk ∈ file.hunks, ∀ line ∈ hunk.new, Unbroken line := by
  induction fuel generalizing files lines with
  | zero => cases lines <;> cases hparse <;> exact hfiles
  | succ fuel ih =>
      cases lines with
      | nil =>
          cases hparse
          exact hfiles
      | cons header lines =>
          rw [parseFiles] at hparse
          simp only [bind_eq_ok, exists_unit, require_eq_ok] at hparse
          obtain ⟨-, -, -, ⟨hunks, rest⟩, hbody, -, -, hrest⟩ := hparse
          obtain ⟨hnew, hleft⟩ := unbroken_parseBody
            (fun line hline => hlines line (mem_cons_of_mem header hline)) hbody
          apply ih hleft _ hrest
          intro file hmem
          cases mem_append.mp hmem with
          | inl hold => exact hfiles file hold
          | inr hadded =>
              rw [mem_singleton.mp hadded]
              exact hnew

end

theorem unbroken_parsePatch {patch : Text} {files : List PatchFile}
    (hparse : parsePatch patch = .ok files) :
    ∀ file ∈ files, ∀ hunk ∈ file.hunks, ∀ line ∈ hunk.new, Unbroken line := by
  simp only [parsePatch, bind_eq_ok, exists_unit, require_eq_ok] at hparse
  apply unbroken_parseFiles (fun line hline => ?_) (by simp) hparse.2.2
  have hline : line ∈ splitLines patch := mem_of_mem_drop (mem_of_mem_dropLast hline)
  exact unbroken_of_mem_splitLines hline

/-! ## The text of `_apply_hunks` -/

/-- A patch that applies gives the content with its hunks' lines replaced, and every
character outside them as it was, exactly where those lines end in the line break of the
file.  A carriage return and a line feed that meet where the lines between them are
deleted make the only other case. -/
theorem applyHunks_patched_iff {patch content result : Text} {files : List PatchFile}
    {file : PatchFile} (hparse : parsePatch patch = .ok files) (hfile : file ∈ files)
    (hupdate : file.add = false)
    (happly : applyHunks content file.hunks file.path = .ok result) :
    ∃ pieces, replaceHunks file.path file.hunks (segments content) = .ok pieces ∧
      (result = patchedText content pieces ↔
        KeepsEndings content pieces ∨ newlineOf content = crlf ∧ suffixOf content = [] ∧
          Merged (patchedLines content pieces)) := by
  rw [applyHunks_eq, map_eq_ok] at happly
  obtain ⟨pieces, hreplace, rfl⟩ := happly
  refine ⟨pieces, hreplace, ?_⟩
  have hwell := (parsePatch_accepted hparse).1.wellFormed file hfile
  have hfits : Fits pieces := fits_replaceHunks (ended_segments content)
    (fun hunk hhunk => ((hwell.updated hupdate).2 hunk hhunk).1)
    (unbroken_parsePatch hparse file hfile) hreplace
  have hfinal : finalOf content = [] ∨ IsEnding (finalOf content) := by
    unfold finalOf
    split
    · exact Or.inr (isEnding_newlineOf content)
    · exact Or.inl rfl
  have hended : Ended (patchedLines content pieces) :=
    ended_fitted hfits (isEnding_newlineOf content) hfinal
  have hlines : (patchedLines content pieces).map Segment.line = pieces.map Piece.line :=
    map_line_fitted _ _ _
  rw [← uniform_patchedLines, ← flatMap_text_eq_iff hended (newlineOf_eq content), hlines,
    patchedText]
  exact eq_comm

/-- A patch that changes one line of a file. -/
def lastLinePatch : Text :=
  lit "*** Begin Patch\n*** Update File: f\n@@\n-c\n+d\n*** End Patch\n"

def lastLineFile : PatchFile :=
  { path := lit "f", add := false, hunks := [⟨[lit "c"], [lit "d"]⟩] }

theorem parsePatch_lastLine : parsePatch lastLinePatch = .ok [lastLineFile] := by
  decide +kernel

theorem applyHunks_patched_iff_lastLine :
    ∃ pieces,
      replaceHunks (lit "f") lastLineFile.hunks (segments (lit "a\nb\nc\n")) = .ok pieces ∧
      (lit "a\nb\nd\n" = patchedText (lit "a\nb\nc\n") pieces ↔
        KeepsEndings (lit "a\nb\nc\n") pieces ∨
          newlineOf (lit "a\nb\nc\n") = crlf ∧ suffixOf (lit "a\nb\nc\n") = [] ∧
            Merged (patchedLines (lit "a\nb\nc\n") pieces)) :=
  applyHunks_patched_iff parsePatch_lastLine mem_cons_self rfl (by decide +kernel)

/-- One `"\r\n"` in the first line of a file makes the second line, which the hunk does not
touch, lose its line feed. -/
theorem applyHunks_rewrites_outside :
    ∃ patch files file content result pieces, parsePatch patch = .ok files ∧ file ∈ files ∧
      file.add = false ∧ applyHunks content file.hunks file.path = .ok result ∧
      replaceHunks file.path file.hunks (segments content) = .ok pieces ∧
      result = lit "a\r\nb\r\nd\r\n" ∧ patchedText content pieces = lit "a\r\nb\nd\r\n" ∧
      result ≠ patchedText content pieces :=
  ⟨lastLinePatch, [lastLineFile], lastLineFile, lit "a\r\nb\nc\n", lit "a\r\nb\r\nd\r\n",
    [.kept ⟨lit "a", crlf⟩, .kept ⟨lit "b", lit "\n"⟩, .fresh (lit "d")], parsePatch_lastLine,
    mem_cons_self, rfl, by decide +kernel, by decide +kernel, rfl, by decide +kernel,
    by decide +kernel⟩

end ReuleauxCoder.Workspace
