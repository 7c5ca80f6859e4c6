import Mathlib

/-!
# Ends of weighted lists

Elements have weights, and a limit cuts a list down to the longest suffix, or to the longest
prefix, that weighs no more.  Cutting may be done again after more has been appended, and a
binary search finds the place of a cut.
-/

namespace Weighted

open List

variable {α : Type*} (weight : α → ℕ)

def total (items : List α) : ℕ :=
  (items.map weight).sum

/-- The longest suffix within a limit. -/
def suffixWithin (limit : ℕ) : List α → List α
  | [] => []
  | item :: rest =>
      if total weight (item :: rest) ≤ limit then item :: rest else suffixWithin limit rest

/-- The longest prefix within a limit. -/
def prefixWithin : ℕ → List α → List α
  | _, [] => []
  | limit, item :: rest =>
      if weight item ≤ limit then item :: prefixWithin (limit - weight item) rest else []

example : suffixWithin id 1 [2, 1] = [1] ∧ prefixWithin id 1 [1, 2] = [1] := by
  simp [suffixWithin, prefixWithin, total]

variable {weight} {limit : ℕ} {items front back : List α}

@[simp]
theorem total_nil : total weight [] = 0 := rfl

@[simp]
theorem total_cons (item : α) (rest : List α) :
    total weight (item :: rest) = weight item + total weight rest := by
  simp [total]

@[simp]
theorem total_append (front back : List α) :
    total weight (front ++ back) = total weight front + total weight back := by
  simp [total]

theorem length_le_total (hpositive : ∀ item, 1 ≤ weight item) (items : List α) :
    items.length ≤ total weight items := by
  induction items with
  | nil => simp
  | cons item rest ih =>
      have hitem := hpositive item
      simp only [length_cons, total_cons]
      omega

/-! ## Suffixes -/

theorem suffixWithin_of_le (hle : total weight items ≤ limit) :
    suffixWithin weight limit items = items := by
  cases items with
  | nil => rfl
  | cons item rest => rw [suffixWithin, if_pos hle]

theorem suffixWithin_cons_of_lt {item : α} {rest : List α}
    (hlt : limit < total weight (item :: rest)) :
    suffixWithin weight limit (item :: rest) = suffixWithin weight limit rest := by
  rw [suffixWithin, if_neg (not_le.mpr hlt)]

theorem suffixWithin_suffix (limit : ℕ) (items : List α) :
    suffixWithin weight limit items <:+ items := by
  induction items with
  | nil => exact suffix_rfl
  | cons item rest ih =>
      rw [suffixWithin]
      split
      · exact suffix_rfl
      · exact ih.trans (suffix_cons item rest)

theorem total_suffixWithin_le (limit : ℕ) (items : List α) :
    total weight (suffixWithin weight limit items) ≤ limit := by
  induction items with
  | nil => simp [suffixWithin]
  | cons item rest ih =>
      rw [suffixWithin]
      split
      · assumption
      · exact ih

theorem suffix_suffixWithin {part : List α} (hpart : part <:+ items)
    (hle : total weight part ≤ limit) : part <:+ suffixWithin weight limit items := by
  induction items with
  | nil => exact hpart
  | cons item rest ih =>
      rw [suffixWithin]
      split
      · exact hpart
      · rename_i hheavy
        rcases suffix_cons_iff.mp hpart with rfl | hrest
        · exact absurd hle hheavy
        · exact ih hrest

/-- A back that already has the limit's weight keeps nothing of the front. -/
theorem suffixWithin_append_of_ge (hpositive : ∀ item, 1 ≤ weight item)
    (hge : limit ≤ total weight back) :
    suffixWithin weight limit (front ++ back) = suffixWithin weight limit back := by
  induction front with
  | nil => rfl
  | cons item rest ih =>
      have hitem := hpositive item
      rw [cons_append, suffixWithin_cons_of_lt, ih]
      rw [total_cons, total_append]
      omega

theorem suffixWithin_append_of_le (hle : total weight back ≤ limit) :
    suffixWithin weight limit (front ++ back) =
      suffixWithin weight (limit - total weight back) front ++ back := by
  induction front with
  | nil => simp [suffixWithin, suffixWithin_of_le hle]
  | cons item rest ih =>
      rw [cons_append, suffixWithin, suffixWithin]
      by_cases hfits : total weight (item :: (rest ++ back)) ≤ limit
      · have hfront : total weight (item :: rest) ≤ limit - total weight back := by
          simp only [total_cons, total_append] at hfits ⊢
          omega
        rw [if_pos hfits, if_pos hfront, cons_append]
      · have hfront : ¬total weight (item :: rest) ≤ limit - total weight back := by
          simp only [total_cons, total_append] at hfits ⊢
          omega
        rw [if_neg hfits, if_neg hfront, ih]

/-- What was cut off is never wanted again. -/
theorem suffixWithin_append_suffixWithin (limit : ℕ) (items back : List α) :
    suffixWithin weight limit (suffixWithin weight limit items ++ back) =
      suffixWithin weight limit (items ++ back) := by
  induction items with
  | nil => rfl
  | cons item rest ih =>
      by_cases hle : total weight (item :: rest) ≤ limit
      · rw [suffixWithin_of_le hle]
      · have hlt := not_le.mp hle
        rw [suffixWithin_cons_of_lt hlt, ih, cons_append, suffixWithin_cons_of_lt]
        rw [← cons_append, total_append]
        omega

theorem drop_eq_suffixWithin {start : ℕ} (hle : total weight (items.drop start) ≤ limit)
    (hleast : ∀ place < start, limit < total weight (items.drop place)) :
    items.drop start = suffixWithin weight limit items := by
  induction items generalizing start with
  | nil => simp [suffixWithin]
  | cons item rest ih =>
      cases start with
      | zero => rw [drop_zero, suffixWithin_of_le (by simpa using hle)]
      | succ start =>
          have hheavy := hleast 0 (Nat.succ_pos start)
          rw [drop_zero] at hheavy
          rw [suffixWithin_cons_of_lt hheavy, drop_succ_cons]
          exact ih hle fun place hplace => hleast (place + 1) (Nat.succ_lt_succ hplace)

/-! ## Prefixes -/

theorem prefixWithin_of_le (hle : total weight items ≤ limit) :
    prefixWithin weight limit items = items := by
  induction items generalizing limit with
  | nil => rfl
  | cons item rest ih =>
      rw [total_cons] at hle
      rw [prefixWithin, if_pos (by omega), ih (by omega)]

theorem prefixWithin_prefix (limit : ℕ) (items : List α) :
    prefixWithin weight limit items <+: items := by
  induction items generalizing limit with
  | nil => exact prefix_rfl
  | cons item rest ih =>
      rw [prefixWithin]
      split
      · exact cons_prefix_cons.mpr ⟨rfl, ih _⟩
      · exact List.nil_prefix

theorem prefixWithin_ne_nil {bound : ℕ} (hbound : ∀ item, weight item ≤ bound)
    (hlimit : bound ≤ limit) (hne : items ≠ []) : prefixWithin weight limit items ≠ [] := by
  cases items with
  | nil => exact absurd rfl hne
  | cons item rest =>
      rw [prefixWithin, if_pos ((hbound item).trans hlimit)]
      exact cons_ne_nil _ _

theorem take_eq_prefixWithin {stop : ℕ} (hle : total weight (items.take stop) ≤ limit)
    (hgreatest : ∀ place, stop < place → place ≤ items.length →
      limit < total weight (items.take place)) :
    items.take stop = prefixWithin weight limit items := by
  induction items generalizing stop limit with
  | nil => simp [prefixWithin]
  | cons item rest ih =>
      cases stop with
      | zero =>
          have hheavy := hgreatest 1 Nat.one_pos (by simp)
          simp only [take_succ_cons, take_zero, total_cons, total_nil] at hheavy
          rw [prefixWithin, if_neg (by omega), take_zero]
      | succ stop =>
          simp only [take_succ_cons, total_cons] at hle
          rw [prefixWithin, if_pos (by omega), take_succ_cons]
          congr 1
          refine ih (by omega) fun place hplace hlength => ?_
          have hheavy := hgreatest (place + 1) (Nat.succ_lt_succ hplace)
            (Nat.succ_le_succ hlength)
          simp only [take_succ_cons, total_cons] at hheavy
          omega

theorem total_drop_anti (items : List α) {left right : ℕ} (hle : left ≤ right) :
    total weight (items.drop right) ≤ total weight (items.drop left) := by
  obtain ⟨more, rfl⟩ := Nat.exists_eq_add_of_le hle
  have hsplit := take_append_drop more (items.drop left)
  rw [drop_drop] at hsplit
  rw [← hsplit, total_append]
  exact Nat.le_add_left _ _

theorem total_take_mono (items : List α) {left right : ℕ} (hle : left ≤ right) :
    total weight (items.take left) ≤ total weight (items.take right) := by
  have hsplit := take_append_drop left (items.take right)
  rw [take_take, min_eq_left hle] at hsplit
  rw [← hsplit, total_append]
  exact Nat.le_add_right _ _

end Weighted

namespace Bisection

/-- The least place from which a property holds, between two bounds. -/
def leftmost (holds : ℕ → Bool) : ℕ → ℕ → ℕ → ℕ
  | 0, low, _ => low
  | fuel + 1, low, high =>
      if low < high then
        let middle := (low + high) / 2
        if holds middle then leftmost holds fuel low middle
        else leftmost holds fuel (middle + 1) high
      else low

/-- The greatest place up to which a property holds, between two bounds. -/
def rightmost (holds : ℕ → Bool) : ℕ → ℕ → ℕ → ℕ
  | 0, low, _ => low
  | fuel + 1, low, high =>
      if low < high then
        let middle := (low + high + 1) / 2
        if holds middle then rightmost holds fuel middle high
        else rightmost holds fuel low (middle - 1)
      else low

variable {holds : ℕ → Bool} {fuel low high : ℕ}

theorem leftmost_spec (hmono : ∀ {left right}, left ≤ right → holds left → holds right)
    (hfuel : high - low ≤ fuel) (hle : low ≤ high) (hholds : holds high)
    (hbelow : ∀ place < low, ¬holds place) :
    holds (leftmost holds fuel low high) ∧
      ∀ place < leftmost holds fuel low high, ¬holds place := by
  induction fuel generalizing low high with
  | zero =>
      have hsame : low = high := by omega
      subst hsame
      exact ⟨hholds, hbelow⟩
  | succ fuel ih =>
      rw [leftmost]
      split
      · rename_i hlt
        dsimp only
        split
        · rename_i hmiddle
          exact ih (by omega) (by omega) hmiddle hbelow
        · rename_i hmiddle
          refine ih (by omega) (by omega) hholds fun place hplace hother => ?_
          exact hmiddle (hmono (by omega) hother)
      · have hsame : low = high := by omega
        subst hsame
        exact ⟨hholds, hbelow⟩

theorem rightmost_spec (hanti : ∀ {left right}, left ≤ right → holds right → holds left)
    (hfuel : high - low ≤ fuel) (hle : low ≤ high) (hholds : holds low)
    (habove : ∀ place, high < place → ¬holds place) :
    holds (rightmost holds fuel low high) ∧
      ∀ place, rightmost holds fuel low high < place → ¬holds place := by
  induction fuel generalizing low high with
  | zero =>
      have hsame : low = high := by omega
      subst hsame
      exact ⟨hholds, habove⟩
  | succ fuel ih =>
      rw [rightmost]
      split
      · rename_i hlt
        dsimp only
        split
        · rename_i hmiddle
          exact ih (by omega) (by omega) hmiddle habove
        · rename_i hmiddle
          refine ih (by omega) (by omega) hholds fun place hplace hother => ?_
          exact hmiddle (hanti (by omega) hother)
      · have hsame : low = high := by omega
        subst hsame
        exact ⟨hholds, habove⟩

end Bisection
