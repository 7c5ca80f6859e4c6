import ReuleauxCoder.Library.Pieces

/-!
# Where a pattern occurs

A pattern is compared with a list symbol by symbol.  A list that is stored in chunks can
be searched chunk by chunk, when each chunk is searched together with the symbols before
it that an occurrence may begin in.
-/

namespace Occurrences

open List

variable {α : Type*}

section Compared

variable (same : α → α → Bool)

/-- The pattern stands at the beginning of the list. -/
def begins : List α → List α → Bool
  | [], _ => true
  | _ :: _, [] => false
  | wanted :: pattern, symbol :: list => same wanted symbol && begins pattern list

/-- The first place of the pattern. -/
def find? (pattern : List α) : List α → Option ℕ
  | [] => if begins same pattern [] then some 0 else none
  | symbol :: list =>
      if begins same pattern (symbol :: list) then some 0
      else (find? pattern list).map (· + 1)

/-- The pattern stands at `place`. -/
def Occurs (pattern list : List α) (place : ℕ) : Prop :=
  begins same pattern (list.drop place) = true

def Contains (pattern list : List α) : Prop :=
  ∃ place, Occurs same pattern list place

/-- How often a pattern that is not empty is found, where what is found does not overlap;
so many symbols belong to the last one. -/
def countApartFrom (pattern : List α) : ℕ → List α → ℕ
  | _, [] => 0
  | skip + 1, _ :: list => countApartFrom pattern skip list
  | 0, symbol :: list =>
      if begins same pattern (symbol :: list) then
        countApartFrom pattern (pattern.length - 1) list + 1
      else countApartFrom pattern 0 list

def countApart (pattern list : List α) : ℕ :=
  countApartFrom same pattern 0 list

end Compared

variable {same : α → α → Bool} {pattern list : List α}

instance (place : ℕ) : Decidable (Occurs same pattern list place) :=
  inferInstanceAs (Decidable (_ = _))

theorem length_le_of_begins (hbegins : begins same pattern list = true) :
    pattern.length ≤ list.length := by
  induction pattern generalizing list with
  | nil => exact Nat.zero_le _
  | cons wanted pattern ih =>
      cases list with
      | nil => cases hbegins
      | cons symbol list =>
          rw [begins, Bool.and_eq_true] at hbegins
          exact Nat.succ_le_succ (ih hbegins.2)

/-- Only so many symbols are compared as the pattern has. -/
theorem begins_take {count : ℕ} (hcount : pattern.length ≤ count) :
    begins same pattern (list.take count) = begins same pattern list := by
  induction pattern generalizing list count with
  | nil => rw [begins, begins]
  | cons wanted pattern ih =>
      obtain ⟨count, rfl⟩ := Nat.exists_eq_succ_of_ne_zero (Nat.ne_of_gt (Nat.lt_of_lt_of_le
        (Nat.succ_pos _) hcount))
      cases list with
      | nil => rfl
      | cons symbol list =>
          rw [take_succ_cons, begins, begins, ih (Nat.le_of_succ_le_succ hcount)]

theorem find?_eq_some {place : ℕ} (hfind : find? same pattern list = some place) :
    Occurs same pattern list place := by
  induction list generalizing place with
  | nil =>
      rw [find?] at hfind
      split at hfind
      · rename_i hbegins
        cases hfind
        exact hbegins
      · cases hfind
  | cons symbol list ih =>
      rw [find?] at hfind
      split at hfind
      · rename_i hbegins
        cases hfind
        exact hbegins
      · obtain ⟨earlier, hearlier, rfl⟩ := Option.map_eq_some_iff.mp hfind
        exact ih hearlier

/-- With equality, what begins with a pattern is the pattern and what follows. -/
theorem append_drop_of_begins [DecidableEq α] (hbegins : begins (· == ·) pattern list = true) :
    list = pattern ++ list.drop pattern.length := by
  induction pattern generalizing list with
  | nil => rfl
  | cons wanted pattern ih =>
      cases list with
      | nil => cases hbegins
      | cons symbol list =>
          rw [begins, Bool.and_eq_true, beq_iff_eq] at hbegins
          rw [hbegins.1, length_cons, drop_succ_cons, cons_append,
            ← ih hbegins.2]

theorem not_occurs_of_find?_eq_none (hfind : find? same pattern list = none) (place : ℕ) :
    ¬ Occurs same pattern list place := by
  induction list generalizing place with
  | nil =>
      rw [find?] at hfind
      split at hfind
      · cases hfind
      · rename_i hbegins
        rw [Occurs, drop_nil]
        exact hbegins
  | cons symbol list ih =>
      rw [find?] at hfind
      split at hfind
      · cases hfind
      · rename_i hbegins
        cases place with
        | zero => exact hbegins
        | succ place => exact ih (Option.map_eq_none_iff.mp hfind) place

theorem find?_isSome_iff : (find? same pattern list).isSome = true ↔
    Contains same pattern list := by
  constructor
  · intro hsome
    obtain ⟨place, hplace⟩ := Option.isSome_iff_exists.mp hsome
    exact ⟨place, find?_eq_some hplace⟩
  · rintro ⟨place, hplace⟩
    rw [Option.isSome_iff_ne_none]
    intro hnone
    exact not_occurs_of_find?_eq_none hnone place hplace

theorem Occurs.length_le (hne : pattern ≠ []) {place : ℕ} (hoccurs : Occurs same pattern list place) :
    place + pattern.length ≤ list.length := by
  have hlength := length_le_of_begins hoccurs
  have hpositive := length_pos_iff.mpr hne
  rw [length_drop] at hlength
  omega

/-- An occurrence in a window is one that the window does not cut. -/
theorem occurs_window_iff (hne : pattern ≠ []) (start count place : ℕ) :
    Occurs same pattern ((list.drop start).take count) place ↔
      Occurs same pattern list (start + place) ∧ place + pattern.length ≤ count := by
  have hwindow : ((list.drop start).take count).drop place =
      (list.drop (start + place)).take (count - place) := by
    rw [drop_take, drop_drop]
  have hpositive := length_pos_iff.mpr hne
  rw [Occurs, hwindow]
  constructor
  · intro hbegins
    have hlength := (length_le_of_begins hbegins).trans (length_take_le _ _)
    rw [begins_take hlength] at hbegins
    exact ⟨hbegins, by omega⟩
  · rintro ⟨hoccurs, hfits⟩
    rw [begins_take (by omega)]
    exact hoccurs

theorem contains_window_iff (hne : pattern ≠ []) (start count : ℕ) :
    Contains same pattern ((list.drop start).take count) ↔
      ∃ place, start ≤ place ∧ Occurs same pattern list place ∧
        place + pattern.length ≤ start + count := by
  constructor
  · rintro ⟨place, hplace⟩
    obtain ⟨hoccurs, hfits⟩ := (occurs_window_iff hne start count place).mp hplace
    exact ⟨start + place, Nat.le_add_right _ _, hoccurs, by omega⟩
  · rintro ⟨place, hstart, hoccurs, hfits⟩
    refine ⟨place - start, (occurs_window_iff hne start count _).mpr ⟨?_, by omega⟩⟩
    rwa [Nat.add_sub_cancel' hstart]

/-! ## Chunk by chunk -/

/-- The last symbols of a chunk that an occurrence may begin in, if it ends in the next. -/
def lead (pattern : List α) (chunk : List α) : List α :=
  chunk.drop (chunk.length - (pattern.length - 1))

/-- A chunk behind a whole one, together with what leads to it, is a window. -/
theorem lead_append {size : ℕ} (hsize : pattern.length ≤ size) {index : ℕ}
    (hindex : index * size < list.length) (hpositive : 0 < index) :
    lead pattern ((list.drop ((index - 1) * size)).take size) ++
        (list.drop (index * size)).take size =
      (list.drop (index * size - (pattern.length - 1))).take (pattern.length - 1 + size) ∧
    (lead pattern ((list.drop ((index - 1) * size)).take size)).length =
      pattern.length - 1 := by
  have hbefore : (index - 1) * size + size = index * size := by
    rw [← Nat.succ_mul, Nat.succ_eq_add_one, Nat.sub_add_cancel hpositive]
  have hwhole : ((list.drop ((index - 1) * size)).take size).length = size := by
    rw [length_take, length_drop]
    omega
  have hlead : lead pattern ((list.drop ((index - 1) * size)).take size) =
      (list.drop (index * size - (pattern.length - 1))).take (pattern.length - 1) := by
    rw [lead, hwhole, drop_take, drop_drop]
    congr 1
    · omega
    · congr 1
      omega
  constructor
  · rw [hlead, take_add, drop_drop]
    congr 3
    omega
  · rw [hlead, length_take, length_drop]
    omega

/-- Every occurrence is found with the chunk that it ends in. -/
theorem exists_index_of_occurs {size : ℕ} (hne : pattern ≠ []) (hsize : pattern.length ≤ size)
    {place : ℕ} (hoccurs : Occurs same pattern list place) :
    ∃ index, index * size < list.length ∧ index * size - (pattern.length - 1) ≤ place ∧
      place + pattern.length ≤ index * size + size := by
  have hpositive := length_pos_iff.mpr hne
  have hlength := hoccurs.length_le hne
  refine ⟨(place + pattern.length - 1) / size, ?_, ?_, ?_⟩
  · exact (Nat.div_mul_le_self _ _).trans_lt (by omega)
  · have hbelow := Nat.div_mul_le_self (place + pattern.length - 1) size
    omega
  · have habove := Nat.lt_div_mul_add (a := place + pattern.length - 1) (b := size)
      (hpositive.trans_le hsize)
    omega

end Occurrences
