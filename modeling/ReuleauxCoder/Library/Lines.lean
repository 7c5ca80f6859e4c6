import ReuleauxCoder.Library.LineBreaks

/-!
# Lines put together

`separator.join(lines)` and the lines of what it makes.
-/

namespace PyText

open List

section Joined

variable {α : Type*} (separator : List α)

theorem intercalate_append {left right : List (List α)} (hleft : left ≠ []) (hright : right ≠ []) :
    separator.intercalate (left ++ right) =
      separator.intercalate left ++ separator ++ separator.intercalate right := by
  induction left with
  | nil => exact absurd rfl hleft
  | cons line rest ih =>
      cases rest with
      | nil =>
          rw [singleton_append, intercalate_cons_of_ne_nil hright,
            intercalate_singleton]
      | cons next others =>
          rw [cons_append, intercalate_cons_of_ne_nil (by simp), ih (by simp),
            intercalate_cons_cons]
          simp only [append_assoc]

theorem intercalate_concat {lines : List (List α)} (hlines : lines ≠ []) (line : List α) :
    separator.intercalate (lines ++ [line]) = separator.intercalate lines ++ separator ++ line := by
  rw [intercalate_append separator hlines (cons_ne_nil _ _), intercalate_singleton]

/-- The first lines make the beginning of the whole. -/
theorem intercalate_prefix (left right : List (List α)) :
    separator.intercalate left <+: separator.intercalate (left ++ right) := by
  cases left with
  | nil => exact List.nil_prefix
  | cons line rest =>
      cases right with
      | nil =>
          rw [append_nil]
      | cons next others =>
          rw [intercalate_append separator (cons_ne_nil _ _) (cons_ne_nil _ _),
            append_assoc]
          exact prefix_append _ _

theorem length_intercalate (lines : List (List α)) :
    (separator.intercalate lines).length =
      (lines.map List.length).sum + separator.length * (lines.length - 1) := by
  induction lines with
  | nil => rfl
  | cons line rest ih =>
      cases rest with
      | nil => simp
      | cons next others =>
          rw [intercalate_cons_cons, length_append, length_append, ih]
          simp only [map_cons, sum_cons, length_cons, Nat.add_sub_cancel]
          rw [Nat.mul_succ]
          omega

end Joined

/-- `"\n".join(lines)`. -/
def joinLines (lines : List Text) : Text :=
  [lineFeed].intercalate lines

theorem length_joinLines (lines : List Text) :
    (joinLines lines).length = (lines.map List.length).sum + (lines.length - 1) := by
  rw [joinLines, length_intercalate, length_singleton, Nat.one_mul]

/-! ## Lines of joined text -/

/-- Text inside one line. -/
def Unbroken (text : Text) : Prop :=
  ∀ c ∈ text, isLineBreak c = false

theorem isLineBreak_carriageReturn : isLineBreak carriageReturn = true := by
  decide

theorem isLineBreak_lineFeed : isLineBreak lineFeed = true := by
  decide

theorem splitLinesFrom_cons {c : CodePoint} (hc : isLineBreak c = false) (line : Text)
    (returned : Bool) (rest : Text) :
    splitLinesFrom line returned (c :: rest) = splitLinesFrom (line ++ [c]) false rest := by
  have hfeed : c ≠ lineFeed := by
    rintro rfl
    rw [isLineBreak_lineFeed] at hc
    cases hc
  rw [splitLinesFrom, decide_eq_false hfeed, Bool.and_false, if_neg Bool.false_ne_true, hc,
    if_neg Bool.false_ne_true]

theorem splitLinesFrom_lineFeed (line rest : Text) :
    splitLinesFrom line false (lineFeed :: rest) = line :: splitLines rest := by
  rw [splitLinesFrom, Bool.false_and, if_neg Bool.false_ne_true, if_pos isLineBreak_lineFeed]
  rfl

theorem splitLinesFrom_unbroken {text : Text} (htext : Unbroken text) (line rest : Text) :
    splitLinesFrom line false (text ++ rest) = splitLinesFrom (line ++ text) false rest := by
  induction text generalizing line with
  | nil => rw [nil_append, append_nil]
  | cons c text ih =>
      rw [cons_append, splitLinesFrom_cons (htext c mem_cons_self),
        ih fun other hother => htext other (mem_cons_of_mem c hother), append_assoc,
        singleton_append]

/-- The lines of a text have no line breaks. -/
theorem unbroken_of_mem_splitLinesFrom {line : Text} (hline : Unbroken line) (returned : Bool)
    (text : Text) : ∀ other ∈ splitLinesFrom line returned text, Unbroken other := by
  induction text generalizing line returned with
  | nil =>
      intro other hother
      rw [splitLinesFrom] at hother
      split at hother
      · cases hother
      · exact mem_singleton.mp hother ▸ hline
  | cons c rest ih =>
      have hempty : Unbroken [] := fun _ hmem => by cases hmem
      intro other hother
      rw [splitLinesFrom] at hother
      split at hother
      · exact ih hempty _ other hother
      split at hother
      · cases mem_cons.mp hother with
        | inl hfirst => exact hfirst ▸ hline
        | inr hlater => exact ih hempty _ other hlater
      · rename_i hc
        apply ih _ _ other hother
        intro d hd
        cases mem_append.mp hd with
        | inl hold => exact hline d hold
        | inr hnew =>
            rw [mem_singleton.mp hnew]
            exact Bool.eq_false_of_not_eq_true hc

theorem unbroken_of_mem_splitLines {text line : Text} (hline : line ∈ splitLines text) :
    Unbroken line :=
  unbroken_of_mem_splitLinesFrom (fun _ hmem => by cases hmem) false text line hline

/-- A line feed behind a character of a line closes that line. -/
theorem splitLinesFrom_closed {c : CodePoint} (hc : isLineBreak c = false) (line : Text)
    (returned : Bool) (text rest : Text) :
    splitLinesFrom line returned (text ++ c :: lineFeed :: rest) =
      splitLinesFrom line returned (text ++ [c]) ++ splitLines rest := by
  induction text generalizing line returned with
  | nil =>
      rw [nil_append, nil_append, splitLinesFrom_cons hc, splitLinesFrom_cons hc,
        splitLinesFrom_lineFeed, splitLinesFrom, if_neg (by simp), singleton_append]
  | cons d text ih =>
      rw [cons_append, cons_append, splitLinesFrom, splitLinesFrom]
      split
      · exact ih [] false
      split
      · rw [ih, cons_append]
      · exact ih _ false

/-- A line feed ends a line, whatever stands behind it. -/
theorem splitLinesFrom_lineFeed_append (line : Text) (returned : Bool) (text rest : Text) :
    splitLinesFrom line returned (text ++ lineFeed :: rest) =
      splitLinesFrom line returned (text ++ [lineFeed]) ++ splitLines rest := by
  induction text generalizing line returned with
  | nil =>
      cases returned with
      | true =>
          rw [nil_append, nil_append, splitLinesFrom, splitLinesFrom, Bool.true_and,
            decide_eq_true rfl, if_pos rfl, if_pos rfl, splitLinesFrom, if_pos rfl,
            nil_append]
          rfl
      | false =>
          rw [nil_append, nil_append, splitLinesFrom_lineFeed, splitLinesFrom_lineFeed]
          rfl
  | cons c text ih =>
      rw [cons_append, cons_append, splitLinesFrom, splitLinesFrom]
      split
      · exact ih [] false
      split
      · rw [ih, cons_append]
      · exact ih _ false

/-- Joined lines with a line feed behind them are read back as they are. -/
theorem splitLines_intercalate_lineFeed {lines : List Text} (hne : lines ≠ [])
    (hlines : ∀ line ∈ lines, Unbroken line) (rest : Text) :
    splitLines ([lineFeed].intercalate lines ++ lineFeed :: rest) = lines ++ splitLines rest := by
  induction lines with
  | nil => exact absurd rfl hne
  | cons line others ih =>
      have hline := hlines line mem_cons_self
      cases others with
      | nil =>
          rw [intercalate_singleton, splitLines, splitLinesFrom_unbroken hline,
            nil_append, splitLinesFrom_lineFeed, singleton_append]
      | cons next more =>
          rw [intercalate_cons_cons, append_assoc, append_assoc, splitLines,
            splitLinesFrom_unbroken hline, nil_append, singleton_append,
            splitLinesFrom_lineFeed, ih (cons_ne_nil _ _)
              fun other hother => hlines other (mem_cons_of_mem line hother)]
          rfl

/-- At the end of a text an empty line is not seen. -/
theorem splitLines_intercalate_concat {lines : List Text} (hlines : ∀ line ∈ lines, Unbroken line)
    {line : Text} (hline : Unbroken line) :
    splitLines ([lineFeed].intercalate (lines ++ [line])) =
      lines ++ if line = [] then [] else [line] := by
  have hlast : splitLines line = if line = [] then [] else [line] := by
    have hread := splitLinesFrom_unbroken hline [] []
    rw [append_nil, nil_append] at hread
    exact hread
  by_cases hne : lines = []
  · rw [hne, nil_append, intercalate_singleton, hlast, nil_append]
  · rw [intercalate_concat _ hne, append_assoc, singleton_append,
      splitLines_intercalate_lineFeed hne hlines, hlast]

end PyText
