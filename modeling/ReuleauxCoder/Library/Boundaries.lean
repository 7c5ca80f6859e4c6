import Mathlib

/-!
# Positions of symbols, cached

A scan over a list asks again and again where the next of several symbols stands.  The
answer for one symbol stays right until the scan has gone past it, so it is kept and looked
up again only then.  The scan finds the same positions as one that looks up every time.
-/

namespace Boundaries

open List

variable {α : Type*} [DecidableEq α]

/-- The first position of the symbol from `position` on. -/
def findFrom (symbol : α) (list : List α) (position : ℕ) : Option ℕ :=
  ((list.drop position).findIdx? fun other => other = symbol).map (position + ·)

/-- The last position of the symbol before `stop`. -/
def findBefore (symbol : α) (list : List α) : ℕ → Option ℕ
  | 0 => none
  | stop + 1 =>
      if list[stop]? = some symbol then some stop else findBefore symbol list stop

section Lookup

variable {symbol : α} {list : List α} {position stop index : ℕ}

theorem findFrom_eq_none_iff :
    findFrom symbol list position = none ↔
      ∀ other, position ≤ other → list[other]? ≠ some symbol := by
  rw [findFrom, Option.map_eq_none_iff, findIdx?_eq_none_iff]
  constructor
  · intro hnone other hother hsome
    have hmem : symbol ∈ list.drop position := by
      apply mem_of_getElem? (i := other - position)
      rw [getElem?_drop, Nat.add_sub_cancel' hother, hsome]
    simpa using hnone symbol hmem
  · intro hnone other hmem
    obtain ⟨place, hplace⟩ := getElem?_of_mem hmem
    rw [getElem?_drop] at hplace
    apply decide_eq_false
    rintro rfl
    exact hnone (position + place) (Nat.le_add_right _ _) hplace

theorem findFrom_eq_some_iff :
    findFrom symbol list position = some index ↔
      position ≤ index ∧ list[index]? = some symbol ∧
        ∀ other, position ≤ other → other < index → list[other]? ≠ some symbol := by
  rw [findFrom, Option.map_eq_some_iff]
  constructor
  · rintro ⟨place, hplace, rfl⟩
    rw [findIdx?_eq_some_iff_getElem] at hplace
    obtain ⟨hlt, hhere, hbefore⟩ := hplace
    refine ⟨Nat.le_add_right _ _, ?_, ?_⟩
    · rw [← getElem?_drop, getElem?_eq_getElem hlt]
      exact congrArg some (of_decide_eq_true hhere)
    · intro other hother hlow hsome
      have hless : other - position < place := by omega
      have hmiss := hbefore (other - position) hless
      apply hmiss
      apply decide_eq_true
      apply Option.some.inj
      rw [← getElem?_eq_getElem, getElem?_drop, Nat.add_sub_cancel' hother, hsome]
  · rintro ⟨hle, hhere, hbefore⟩
    refine ⟨index - position, ?_, Nat.add_sub_cancel' hle⟩
    rw [findIdx?_eq_some_iff_getElem]
    have hdrop : (list.drop position)[index - position]? = some symbol := by
      rw [getElem?_drop, Nat.add_sub_cancel' hle, hhere]
    obtain ⟨hlt, heq⟩ := List.getElem?_eq_some_iff.mp hdrop
    refine ⟨hlt, decide_eq_true heq, ?_⟩
    intro other hother hmiss
    have hsome : list[position + other]? = some symbol := by
      rw [← getElem?_drop, getElem?_eq_getElem (hother.trans hlt)]
      exact congrArg some (of_decide_eq_true hmiss)
    exact hbefore (position + other) (Nat.le_add_right _ _) (by omega) hsome

theorem findBefore_eq_none_iff :
    findBefore symbol list stop = none ↔ ∀ other, other < stop → list[other]? ≠ some symbol := by
  induction stop with
  | zero => simp [findBefore]
  | succ stop ih =>
      rw [findBefore]
      split
      · rename_i hhere
        simp only [reduceCtorEq, false_iff, not_forall, not_not]
        exact ⟨stop, Nat.lt_succ_self stop, hhere⟩
      · rename_i hmiss
        rw [ih]
        constructor
        · intro hnone other hother
          cases Nat.lt_succ_iff_lt_or_eq.mp hother with
          | inl hlow => exact hnone other hlow
          | inr hlast => exact hlast ▸ hmiss
        · intro hnone other hother
          exact hnone other (Nat.lt_succ_of_lt hother)

theorem findBefore_eq_some_iff :
    findBefore symbol list stop = some index ↔
      index < stop ∧ list[index]? = some symbol ∧
        ∀ other, index < other → other < stop → list[other]? ≠ some symbol := by
  induction stop with
  | zero => simp [findBefore]
  | succ stop ih =>
      rw [findBefore]
      split
      · rename_i hhere
        constructor
        · intro hsome
          cases hsome
          exact ⟨Nat.lt_succ_self index, hhere, fun other hlow hhigh => by omega⟩
        · rintro ⟨hlt, -, hafter⟩
          have heq : index = stop := by
            by_contra hne
            exact hafter stop (by omega) (Nat.lt_succ_self stop) hhere
          rw [heq]
      · rename_i hmiss
        rw [ih]
        constructor
        · rintro ⟨hlt, hhere, hafter⟩
          refine ⟨Nat.lt_succ_of_lt hlt, hhere, ?_⟩
          intro other hlow hhigh
          cases Nat.lt_succ_iff_lt_or_eq.mp hhigh with
          | inl hbelow => exact hafter other hlow hbelow
          | inr hlast => exact hlast ▸ hmiss
        · rintro ⟨hlt, hhere, hafter⟩
          have hne : index ≠ stop := by
            rintro rfl
            exact hmiss hhere
          refine ⟨by omega, hhere, ?_⟩
          intro other hlow hhigh
          exact hafter other hlow (Nat.lt_succ_of_lt hhigh)

/-- A position that is not passed yet is found again. -/
theorem findFrom_of_le {later : ℕ} (hlater : position ≤ later) (hindex : later ≤ index)
    (hfound : findFrom symbol list position = some index) :
    findFrom symbol list later = some index := by
  obtain ⟨-, hhere, hbefore⟩ := findFrom_eq_some_iff.mp hfound
  apply findFrom_eq_some_iff.mpr
  exact ⟨hindex, hhere, fun other hlow hhigh => hbefore other (hlater.trans hlow) hhigh⟩

theorem findFrom_none_of_le {later : ℕ} (hlater : position ≤ later)
    (hnone : findFrom symbol list position = none) : findFrom symbol list later = none := by
  apply findFrom_eq_none_iff.mpr
  intro other hother
  exact findFrom_eq_none_iff.mp hnone other (hlater.trans hother)

theorem findBefore_of_le {earlier : ℕ} (hearlier : earlier ≤ stop) (hindex : index < earlier)
    (hfound : findBefore symbol list stop = some index) :
    findBefore symbol list earlier = some index := by
  obtain ⟨-, hhere, hafter⟩ := findBefore_eq_some_iff.mp hfound
  apply findBefore_eq_some_iff.mpr
  exact ⟨hindex, hhere, fun other hlow hhigh => hafter other hlow (hhigh.trans_le hearlier)⟩

theorem findBefore_none_of_le {earlier : ℕ} (hearlier : earlier ≤ stop)
    (hnone : findBefore symbol list stop = none) : findBefore symbol list earlier = none := by
  apply findBefore_eq_none_iff.mpr
  intro other hother
  exact findBefore_eq_none_iff.mp hnone other (hother.trans_le hearlier)

end Lookup

/-! ## The cache -/

/-- What is kept of each symbol: where it was found last. -/
abbrev Cache (α : Type*) :=
  List (α × Option ℕ)

def forwardFrom (symbols : List α) (list : List α) (position : ℕ) : Cache α :=
  symbols.map fun symbol => (symbol, findFrom symbol list position)

def backwardFrom (symbols : List α) (list : List α) (stop : ℕ) : Cache α :=
  symbols.map fun symbol => (symbol, findBefore symbol list stop)

/-- The symbols that the scan has gone past are looked up again. -/
def forward (list : List α) (position : ℕ) (cache : Cache α) : Cache α :=
  cache.map fun entry =>
    match entry.2 with
    | some index =>
        if index < position then (entry.1, findFrom entry.1 list position) else entry
    | none => entry

/-- The symbols that the scan has gone back before are looked up again. -/
def backward (list : List α) (stop : ℕ) (cache : Cache α) : Cache α :=
  cache.map fun entry =>
    match entry.2 with
    | some index => if stop ≤ index then (entry.1, findBefore entry.1 list stop) else entry
    | none => entry

variable {symbols list : List α} {position stop : ℕ}

theorem forward_forwardFrom {later : ℕ} (hlater : position ≤ later) :
    forward list later (forwardFrom symbols list position) = forwardFrom symbols list later := by
  rw [forward, forwardFrom, forwardFrom, map_map]
  apply map_congr_left
  intro symbol _
  rw [Function.comp_apply]
  cases hfound : findFrom symbol list position with
  | none => exact congrArg _ (findFrom_none_of_le hlater hfound).symm
  | some index =>
      change (if index < later then _ else _) = _
      split
      · rfl
      · rename_i hpast
        rw [findFrom_of_le hlater (Nat.le_of_not_lt hpast) hfound]

theorem backward_backwardFrom {earlier : ℕ} (hearlier : earlier ≤ stop) :
    backward list earlier (backwardFrom symbols list stop) =
      backwardFrom symbols list earlier := by
  rw [backward, backwardFrom, backwardFrom, map_map]
  apply map_congr_left
  intro symbol _
  rw [Function.comp_apply]
  cases hfound : findBefore symbol list stop with
  | none => exact congrArg _ (findBefore_none_of_le hearlier hfound).symm
  | some index =>
      change (if earlier ≤ index then _ else _) = _
      split
      · rfl
      · rename_i hpast
        rw [findBefore_of_le hearlier (Nat.lt_of_not_le hpast) hfound]

/-- The nearest position that is kept, or `fallback`. -/
def nearest (fallback : ℕ) (cache : Cache α) : ℕ :=
  (cache.filterMap Prod.snd).min?.getD fallback

/-- The position behind the farthest one that is kept, or the beginning. -/
def behindFarthest (cache : Cache α) : ℕ :=
  (cache.map fun entry => entry.2.elim 0 Nat.succ).max?.getD 0

theorem nearest_forwardFrom {index fallback : ℕ} (hindex : position ≤ index)
    (hhere : ∃ symbol ∈ symbols, list[index]? = some symbol)
    (hbefore : ∀ other, position ≤ other → other < index →
      ∀ symbol ∈ symbols, list[other]? ≠ some symbol) :
    nearest fallback (forwardFrom symbols list position) = index := by
  obtain ⟨symbol, hsymbol, hfound⟩ := hhere
  have hmin : ((forwardFrom symbols list position).filterMap Prod.snd).min? = some index := by
    rw [min?_eq_some_iff]
    constructor
    · rw [forwardFrom, mem_filterMap]
      refine ⟨(symbol, findFrom symbol list position), mem_map_of_mem hsymbol, ?_⟩
      apply findFrom_eq_some_iff.mpr
      exact ⟨hindex, hfound, fun other hlow hhigh => hbefore other hlow hhigh symbol hsymbol⟩
    · intro other hother
      rw [forwardFrom, mem_filterMap] at hother
      obtain ⟨entry, hentry, hsome⟩ := hother
      obtain ⟨another, hanother, rfl⟩ := mem_map.mp hentry
      obtain ⟨hlow, hthere, -⟩ := findFrom_eq_some_iff.mp hsome
      by_contra hless
      exact hbefore other hlow (Nat.lt_of_not_le hless) another hanother hthere
  rw [nearest, hmin]
  rfl

theorem nearest_forwardFrom_none {fallback : ℕ}
    (hnone : ∀ other, position ≤ other → ∀ symbol ∈ symbols, list[other]? ≠ some symbol) :
    nearest fallback (forwardFrom symbols list position) = fallback := by
  have hempty : (forwardFrom symbols list position).filterMap Prod.snd = [] := by
    rw [filterMap_eq_nil_iff]
    intro entry hentry
    obtain ⟨symbol, hsymbol, rfl⟩ := mem_map.mp hentry
    apply findFrom_eq_none_iff.mpr
    intro other hother
    exact hnone other hother symbol hsymbol
  rw [nearest, hempty]
  rfl

theorem behindFarthest_backwardFrom {index : ℕ} (hindex : index < stop)
    (hhere : ∃ symbol ∈ symbols, list[index]? = some symbol)
    (hafter : ∀ other, index < other → other < stop →
      ∀ symbol ∈ symbols, list[other]? ≠ some symbol) :
    behindFarthest (backwardFrom symbols list stop) = index + 1 := by
  obtain ⟨symbol, hsymbol, hfound⟩ := hhere
  have hmax : ((backwardFrom symbols list stop).map fun entry =>
      entry.2.elim 0 Nat.succ).max? = some (index + 1) := by
    rw [max?_eq_some_iff]
    constructor
    · rw [mem_map]
      refine ⟨(symbol, findBefore symbol list stop), mem_map_of_mem hsymbol, ?_⟩
      have hsome : findBefore symbol list stop = some index := by
        apply findBefore_eq_some_iff.mpr
        exact ⟨hindex, hfound, fun other hlow hhigh => hafter other hlow hhigh symbol hsymbol⟩
      rw [hsome]
      rfl
    · intro other hother
      obtain ⟨entry, hentry, rfl⟩ := mem_map.mp hother
      obtain ⟨another, hanother, rfl⟩ := mem_map.mp hentry
      cases hsome : findBefore another list stop with
      | none => exact Nat.zero_le _
      | some place =>
          obtain ⟨hhigh, hthere, -⟩ := findBefore_eq_some_iff.mp hsome
          apply Nat.succ_le_succ
          by_contra hless
          exact hafter place (Nat.lt_of_not_le hless) hhigh another hanother hthere
  rw [behindFarthest, hmax]
  rfl

theorem behindFarthest_backwardFrom_none
    (hnone : ∀ other, other < stop → ∀ symbol ∈ symbols, list[other]? ≠ some symbol) :
    behindFarthest (backwardFrom symbols list stop) = 0 := by
  rw [behindFarthest]
  cases hmax : ((backwardFrom symbols list stop).map fun entry =>
      entry.2.elim 0 Nat.succ).max? with
  | none => rfl
  | some highest =>
      obtain ⟨hmem, -⟩ := max?_eq_some_iff.mp hmax
      obtain ⟨entry, hentry, hheight⟩ := mem_map.mp hmem
      obtain ⟨symbol, hsymbol, rfl⟩ := mem_map.mp hentry
      have hempty : findBefore symbol list stop = none := by
        apply findBefore_eq_none_iff.mpr
        intro other hother
        exact hnone other hother symbol hsymbol
      rw [hempty] at hheight
      exact hheight.symm

end Boundaries
