import Mathlib

/-!
# Rows under two limits

Rows with keys are kept in order, and rows are dropped at the front until the rest is within a
limit on the number of rows and a limit on their weight.  Somebody else who is told of each row
that is added, changed and dropped has the same rows.
-/

namespace Retained

open List

variable {Row Key : Type*} (key : Row → Key) (weight : Row → ℕ)

theorem getElem?_concat_eq_some {rows : List Row} {row other : Row} {index : ℕ} :
    (rows ++ [row])[index]? = some other ↔
      rows[index]? = some other ∨ index = rows.length ∧ row = other := by
  rw [getElem?_append]
  split
  · rename_i hlt
    exact (or_iff_left fun hlast => Nat.ne_of_lt hlt hlast.1).symm
  · rename_i hge
    rw [getElem?_singleton, getElem?_eq_none (Nat.le_of_not_lt hge)]
    simp only [Option.ite_none_right_eq_some, Option.some.injEq, reduceCtorEq, false_or]
    refine and_congr_left fun _ => ?_
    omega

/-! ## Trimming -/

def total (rows : List Row) : ℕ :=
  (rows.map weight).sum

/-- Rows are within both limits. -/
def Within (maxRows maxWeight : ℕ) (rows : List Row) : Prop :=
  rows.length ≤ maxRows ∧ total weight rows ≤ maxWeight

/-- The rows that are dropped at the front, and those that are kept. -/
def trim (maxRows maxWeight : ℕ) : List Row → List Row × List Row
  | [] => ([], [])
  | row :: rest =>
      if maxRows < (row :: rest).length ∨ maxWeight < total weight (row :: rest) then
        (row :: (trim maxRows maxWeight rest).1, (trim maxRows maxWeight rest).2)
      else ([], row :: rest)

example : trim id 1 9 [3, 4] = ([3], [4]) := by simp [trim, total]

variable {weight} {maxRows maxWeight : ℕ}

theorem total_cons (row : Row) (rows : List Row) :
    total weight (row :: rows) = weight row + total weight rows := by
  rw [total, map_cons, sum_cons, total]

theorem total_append (front back : List Row) :
    total weight (front ++ back) = total weight front + total weight back := by
  rw [total, map_append, sum_append, total, total]

theorem total_set {rows : List Row} {index : ℕ} {previous : Row}
    (hprevious : rows[index]? = some previous) (row : Row) :
    total weight (rows.set index row) + weight previous = total weight rows + weight row := by
  induction rows generalizing index with
  | nil => cases hprevious
  | cons first rest ih =>
      cases index with
      | zero =>
          cases hprevious
          rw [set_cons_zero, total_cons, total_cons]
          omega
      | succ index =>
          rw [getElem?_cons_succ] at hprevious
          rw [set_cons_succ, total_cons, total_cons]
          have hrest := ih hprevious
          omega

theorem trim_append (weight : Row → ℕ) (maxRows maxWeight : ℕ) (rows : List Row) :
    (trim weight maxRows maxWeight rows).1 ++ (trim weight maxRows maxWeight rows).2 = rows := by
  induction rows with
  | nil => rfl
  | cons row rest ih =>
      rw [trim]
      split
      · rw [cons_append, ih]
      · rfl

theorem trim_within (weight : Row → ℕ) (maxRows maxWeight : ℕ) (rows : List Row) :
    Within weight maxRows maxWeight (trim weight maxRows maxWeight rows).2 := by
  induction rows with
  | nil => exact ⟨Nat.zero_le _, Nat.zero_le _⟩
  | cons row rest ih =>
      rw [trim]
      split
      · exact ih
      · rename_i hfits
        exact ⟨Nat.le_of_not_lt fun hlong => hfits (.inl hlong),
          Nat.le_of_not_lt fun hheavy => hfits (.inr hheavy)⟩

theorem trim_of_within {rows : List Row} (hwithin : Within weight maxRows maxWeight rows) :
    trim weight maxRows maxWeight rows = ([], rows) := by
  cases rows with
  | nil => rfl
  | cons row rest =>
      rw [trim, if_neg]
      intro hover
      cases hover with
      | inl hlong => exact absurd hwithin.1 (Nat.not_le.mpr hlong)
      | inr hheavy => exact absurd hwithin.2 (Nat.not_le.mpr hheavy)

theorem trim_suffix (rows : List Row) : (trim weight maxRows maxWeight rows).2 <:+ rows :=
  ⟨_, trim_append weight maxRows maxWeight rows⟩

/-! ## A replica -/

/-- What somebody else is told. -/
inductive Change (Row : Type*) where
  | append (row : Row)
  | update (row : Row)
  | drop (row : Row)

variable [DecidableEq Key]

def Change.apply (rows : List Row) : Change Row → List Row
  | .append row => rows ++ [row]
  | .update row => rows.map fun other => if key other = key row then row else other
  | .drop row => rows.filter fun other => key other ≠ key row

def replay (rows : List Row) (changes : List (Change Row)) : List Row :=
  changes.foldl (Change.apply key) rows

variable {key}

theorem replay_append (rows : List Row) (first second : List (Change Row)) :
    replay key rows (first ++ second) = replay key (replay key rows first) second :=
  foldl_append

/-- A changed row takes the place of the row with its key. -/
theorem apply_update {rows : List Row} (hkeys : (rows.map key).Nodup) {index : ℕ}
    {previous row : Row} (hprevious : rows[index]? = some previous)
    (hkey : key row = key previous) :
    Change.apply key rows (.update row) = rows.set index row := by
  induction rows generalizing index with
  | nil => cases hprevious
  | cons first rest ih =>
      rw [map_cons, nodup_cons] at hkeys
      rw [Change.apply, map_cons]
      cases index with
      | zero =>
          cases hprevious
          have hothers : rest.map (fun other => if key other = key row then row else other) =
              rest := by
            conv => rhs; rw [← map_id rest]
            apply map_congr_left
            intro other hother
            apply if_neg
            intro hsame
            apply hkeys.1
            rw [← hkey, ← hsame]
            exact mem_map_of_mem hother
          rw [if_pos hkey.symm, hothers, set_cons_zero]
      | succ index =>
          rw [getElem?_cons_succ] at hprevious
          have hfirst : key first ≠ key row := by
            intro hsame
            apply hkeys.1
            rw [hsame, hkey]
            exact mem_map_of_mem (mem_of_getElem? hprevious)
          rw [if_neg hfirst, set_cons_succ]
          exact congrArg _ (ih hkeys.2 hprevious)

/-- Told of the rows that were dropped at the front, a replica has the rest. -/
theorem replay_drop (dropped kept : List Row)
    (hkeys : ((dropped ++ kept).map key).Nodup) :
    replay key (dropped ++ kept) (dropped.map .drop) = kept := by
  induction dropped with
  | nil => rfl
  | cons row rest ih =>
      rw [cons_append, map_cons, nodup_cons] at hkeys
      have hothers : Change.apply key (row :: (rest ++ kept)) (.drop row) = rest ++ kept := by
        rw [Change.apply, filter_cons_of_neg (by simp)]
        apply filter_eq_self.mpr
        intro other hother
        rw [decide_eq_true_iff]
        intro hsame
        apply hkeys.1
        rw [← hsame]
        exact mem_map_of_mem hother
      rw [cons_append, map_cons, replay, foldl_cons, hothers]
      exact ih hkeys.2

/-- Told of a new row and of what was dropped for it, a replica has the rows that are kept. -/
theorem replay_trim {rows : List Row} {row : Row} (hkeys : ((rows ++ [row]).map key).Nodup) :
    replay key rows (.append row ::
        (trim weight maxRows maxWeight (rows ++ [row])).1.map .drop) =
      (trim weight maxRows maxWeight (rows ++ [row])).2 := by
  have hrows := trim_append weight maxRows maxWeight (rows ++ [row])
  change replay key (rows ++ [row]) _ = _
  rw [← hrows] at hkeys
  have hkept := replay_drop _ _ hkeys
  rwa [hrows] at hkept

end Retained
