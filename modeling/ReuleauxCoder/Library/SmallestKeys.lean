import Mathlib

/-!
# Tallies of the smallest keys

Occurrences of keys are counted, in a bounded number of counters: the smallest keys that
have occurred have one each, and everything else is a single number.  A key may have to
make room for a smaller one; its count then moves to the others.  As counters only grow
up to a cap, and a key that has lost its counter never gets it back, the tally depends on
how often each key has occurred and not on the order.
-/

namespace SmallestKeys

open List

variable {κ : Type*} [LinearOrder κ]

structure Tally (κ : Type*) where
  counts : List (κ × ℕ) := []
  overflow : ℕ := 0

/-- An operation: an occurrence of a key, or of something that has no counter. -/
abbrev Operation (κ : Type*) := Option κ × ℕ

def largest (counts : List (κ × ℕ)) : Option (κ × ℕ) :=
  counts.foldl (fun best entry =>
    match best with
    | none => some entry
    | some best => if best.1 < entry.1 then some entry else some best) none

namespace Tally

def keys (tally : Tally κ) : List κ :=
  tally.counts.map Prod.fst

def addOverflow (cap : ℕ) (tally : Tally κ) (count : ℕ) : Tally κ :=
  { tally with overflow := min (tally.overflow + count) cap }

def add (room cap : ℕ) (tally : Tally κ) (key : κ) (count : ℕ) : Tally κ :=
  if tally.counts.any fun entry => entry.1 = key then
    { tally with
      counts := tally.counts.map fun entry =>
        if entry.1 = key then (key, min (entry.2 + count) cap) else entry }
  else if tally.counts.length < room then
    { tally with counts := tally.counts ++ [(key, count)] }
  else
    match largest tally.counts with
    | none => tally.addOverflow cap count
    | some last =>
        if key < last.1 then
          let kept := tally.counts.filter fun entry => entry.1 ≠ last.1
          addOverflow cap { tally with counts := kept ++ [(key, count)] } last.2
        else tally.addOverflow cap count

/-- Counts are cut to the cap before they are added. -/
def apply (room cap : ℕ) (tally : Tally κ) : Operation κ → Tally κ
  | (none, count) => tally.addOverflow cap (min count cap)
  | (some key, count) => tally.add room cap key (min count cap)

def run (room cap : ℕ) (operations : List (Operation κ)) : Tally κ :=
  operations.foldl (apply room cap) {}

end Tally

/-! ## The largest key -/

theorem foldl_largest (counts : List (κ × ℕ)) (best : κ × ℕ) :
    ∃ last, counts.foldl (fun best entry =>
        match best with
        | none => some entry
        | some best => if best.1 < entry.1 then some entry else some best) (some best) =
          some last ∧ (last = best ∨ last ∈ counts) ∧ best.1 ≤ last.1 ∧
        ∀ entry ∈ counts, entry.1 ≤ last.1 := by
  induction counts generalizing best with
  | nil => exact ⟨best, rfl, .inl rfl, le_rfl, fun entry hentry => absurd hentry (by simp)⟩
  | cons first rest ih =>
      by_cases hless : best.1 < first.1
      · obtain ⟨last, hlast, hmem, hfirst, hrest⟩ := ih first
        refine ⟨last, ?_, ?_, hless.le.trans hfirst, ?_⟩
        · rw [foldl_cons]
          simp only [if_pos hless]
          exact hlast
        · rcases hmem with rfl | hmem
          · exact .inr (mem_cons_self ..)
          · exact .inr (mem_cons_of_mem _ hmem)
        · intro entry hentry
          rcases mem_cons.mp hentry with rfl | hentry
          · exact hfirst
          · exact hrest entry hentry
      · obtain ⟨last, hlast, hmem, hbest, hrest⟩ := ih best
        refine ⟨last, ?_, ?_, hbest, ?_⟩
        · rw [foldl_cons]
          simp only [if_neg hless]
          exact hlast
        · rcases hmem with rfl | hmem
          · exact .inl rfl
          · exact .inr (mem_cons_of_mem _ hmem)
        · intro entry hentry
          rcases mem_cons.mp hentry with rfl | hentry
          · exact (not_lt.mp hless).trans hbest
          · exact hrest entry hentry

theorem largest_eq_none {counts : List (κ × ℕ)} (hnone : largest counts = none) :
    counts = [] := by
  cases counts with
  | nil => rfl
  | cons first rest =>
      obtain ⟨last, hlast, -⟩ := foldl_largest rest first
      rw [largest, foldl_cons] at hnone
      exact absurd (hlast.symm.trans hnone) (by simp)

theorem largest_eq_some {counts : List (κ × ℕ)} {last : κ × ℕ}
    (hlargest : largest counts = some last) :
    last ∈ counts ∧ ∀ entry ∈ counts, entry.1 ≤ last.1 := by
  cases counts with
  | nil => cases hlargest
  | cons first rest =>
      obtain ⟨other, hother, hmem, hfirst, hrest⟩ := foldl_largest rest first
      rw [largest, foldl_cons] at hlargest
      obtain rfl : other = last := Option.some.inj (hother.symm.trans hlargest)
      constructor
      · rcases hmem with rfl | hmem
        · exact mem_cons_self ..
        · exact mem_cons_of_mem _ hmem
      · intro entry hentry
        rcases mem_cons.mp hentry with rfl | hentry
        · exact hfirst
        · exact hrest entry hentry

/-! ## What has occurred -/

/-- How often a key has occurred. -/
def amount (operations : Multiset (Operation κ)) (key : κ) : ℕ :=
  (operations.map fun operation => if operation.1 = some key then operation.2 else 0).sum

/-- How much has occurred besides some keys. -/
def others (operations : Multiset (Operation κ)) (keys : Finset κ) : ℕ :=
  (operations.map fun operation =>
    if ∃ key ∈ keys, operation.1 = some key then 0 else operation.2).sum

/-- The keys that have occurred. -/
def recorded (operations : Multiset (Operation κ)) : Finset κ :=
  (operations.filterMap Prod.fst).toFinset

/-- The smallest keys that have occurred. -/
def smallest (room : ℕ) (operations : Multiset (Operation κ)) : List κ :=
  ((recorded operations).sort).take room

/-- How much has occurred besides the smallest keys. -/
def besides (room : ℕ) (operations : Multiset (Operation κ)) : ℕ :=
  others operations (smallest room operations).toFinset

variable (operations : Multiset (Operation κ)) (operation : Operation κ)

@[simp]
theorem amount_cons (key : κ) : amount (operation ::ₘ operations) key =
    (if operation.1 = some key then operation.2 else 0) + amount operations key := by
  simp [amount]

@[simp]
theorem others_cons (keys : Finset κ) : others (operation ::ₘ operations) keys =
    (if ∃ key ∈ keys, operation.1 = some key then 0 else operation.2) +
      others operations keys := by
  simp [others]

theorem mem_recorded {key : κ} :
    key ∈ recorded operations ↔ ∃ operation ∈ operations, operation.1 = some key := by
  simp [recorded, Multiset.mem_filterMap]

@[simp]
theorem recorded_cons_none (count : ℕ) :
    recorded ((none, count) ::ₘ operations) = recorded operations := by
  simp [recorded]

@[simp]
theorem recorded_cons_some (key : κ) (count : ℕ) :
    recorded ((some key, count) ::ₘ operations) = insert key (recorded operations) := by
  ext other
  simp [mem_recorded, eq_comm]

variable {operations}

/-- An occurrence of a key is part of its amount. -/
theorem le_amount {operation : Operation κ} {key : κ} (hmem : operation ∈ operations)
    (hkey : operation.1 = some key) : operation.2 ≤ amount operations key := by
  have hterm : operation.2 ∈ operations.map fun operation =>
      if operation.1 = some key then operation.2 else 0 :=
    Multiset.mem_map.mpr ⟨operation, hmem, if_pos hkey⟩
  exact Multiset.single_le_sum (fun _ _ => Nat.zero_le _) _ hterm

theorem amount_eq_zero {key : κ} (hnew : key ∉ recorded operations) :
    amount operations key = 0 := by
  rw [mem_recorded, not_exists] at hnew
  rw [amount, Multiset.sum_eq_zero_iff]
  intro count hcount
  obtain ⟨operation, hmem, rfl⟩ := Multiset.mem_map.mp hcount
  rw [if_neg fun heq => hnew operation ⟨hmem, heq⟩]

/-- A key that has not occurred is none of the others. -/
theorem others_insert {key : κ} (hnew : key ∉ recorded operations) (keys : Finset κ) :
    others operations (insert key keys) = others operations keys := by
  rw [mem_recorded, not_exists] at hnew
  rw [others, others]
  congr 1
  apply Multiset.map_congr rfl
  intro operation hmem
  have hother : operation.1 ≠ some key := fun heq => hnew operation ⟨hmem, heq⟩
  simp [hother]

/-- A key that loses its counter is one of the others. -/
theorem others_erase {key : κ} {keys : Finset κ} (hmem : key ∈ keys) :
    others operations (keys.erase key) = others operations keys + amount operations key := by
  rw [others, others, amount, ← Multiset.sum_map_add]
  congr 1
  apply Multiset.map_congr rfl
  intro operation _
  by_cases hkey : operation.1 = some key
  · have hgone : ¬ ∃ other ∈ keys.erase key, operation.1 = some other := by
      rintro ⟨other, hother, heq⟩
      rw [hkey, Option.some.injEq] at heq
      exact (Finset.mem_erase.mp hother).1 heq.symm
    rw [if_neg hgone, if_pos ⟨key, hmem, hkey⟩, if_pos hkey, Nat.zero_add]
  · have hiff : (∃ other ∈ keys.erase key, operation.1 = some other) ↔
        ∃ other ∈ keys, operation.1 = some other := by
      constructor
      · rintro ⟨other, hother, heq⟩
        exact ⟨other, Finset.mem_of_mem_erase hother, heq⟩
      · rintro ⟨other, hother, heq⟩
        exact ⟨other, Finset.mem_erase.mpr ⟨fun hsame => hkey (hsame ▸ heq), hother⟩, heq⟩
    rw [if_neg hkey, Nat.add_zero]
    simp only [hiff]

/-! ## One operation -/

namespace Tally

variable {room cap : ℕ}

/-- What `add` does with a key. -/
inductive Added (room cap : ℕ) (tally : Tally κ) (key : κ) (count : ℕ) : Tally κ → Prop
  | counted (hknown : key ∈ tally.keys) : Added room cap tally key count
      { tally with
        counts := tally.counts.map fun entry =>
          if entry.1 = key then (key, min (entry.2 + count) cap) else entry }
  | appended (hnew : key ∉ tally.keys) (hroom : tally.counts.length < room) :
      Added room cap tally key count { tally with counts := tally.counts ++ [(key, count)] }
  | replaced (hnew : key ∉ tally.keys) (hfull : room ≤ tally.counts.length) (last : κ × ℕ)
      (hlast : last ∈ tally.counts) (hlargest : ∀ entry ∈ tally.counts, entry.1 ≤ last.1)
      (hless : key < last.1) : Added room cap tally key count
      ⟨(tally.counts.filter fun entry => entry.1 ≠ last.1) ++ [(key, count)],
        min (tally.overflow + last.2) cap⟩
  | refused (hnew : key ∉ tally.keys) (hfull : room ≤ tally.counts.length)
      (hlarge : ∀ entry ∈ tally.counts, entry.1 < key) : Added room cap tally key count
      (tally.addOverflow cap count)

theorem any_eq_true {tally : Tally κ} {key : κ} :
    (tally.counts.any fun entry => entry.1 = key) = true ↔ key ∈ tally.keys := by
  simp [keys]

theorem add_cases (room cap : ℕ) (tally : Tally κ) (key : κ) (count : ℕ) :
    Added room cap tally key count (tally.add room cap key count) := by
  unfold add
  by_cases hknown : key ∈ tally.keys
  · rw [if_pos (any_eq_true.mpr hknown)]
    exact .counted hknown
  rw [if_neg (mt any_eq_true.mp hknown)]
  by_cases hroom : tally.counts.length < room
  · rw [if_pos hroom]
    exact .appended hknown hroom
  rw [if_neg hroom]
  split
  · rename_i hnone
    refine .refused hknown (not_lt.mp hroom) fun entry hentry => ?_
    rw [largest_eq_none hnone] at hentry
    exact absurd hentry not_mem_nil
  · rename_i last hlast
    obtain ⟨hmem, hlargest⟩ := largest_eq_some hlast
    split
    · rename_i hless
      exact .replaced hknown (not_lt.mp hroom) last hmem hlargest hless
    · rename_i hge
      refine .refused hknown (not_lt.mp hroom) fun entry hentry => ?_
      have hle := (hlargest entry hentry).trans (not_lt.mp hge)
      refine lt_of_le_of_ne hle fun hsame => hknown ?_
      rw [← hsame]
      exact mem_map_of_mem hentry

/-- The tally of a collection of operations. -/
structure Holds (room cap : ℕ) (operations : Multiset (Operation κ)) (tally : Tally κ) :
    Prop where
  distinct : tally.keys.Nodup
  subset : ∀ key ∈ tally.keys, key ∈ recorded operations
  bounded : tally.keys.length = min room (recorded operations).card
  smaller : ∀ key ∈ recorded operations, key ∉ tally.keys → ∀ other ∈ tally.keys, other < key
  counted : ∀ entry ∈ tally.counts, entry.2 = min (amount operations entry.1) cap
  overflow : tally.overflow = min (others operations tally.keys.toFinset) cap

theorem Holds.empty (room cap : ℕ) : Holds room cap (0 : Multiset (Operation κ)) {} where
  distinct := nodup_nil
  subset := fun key hkey => absurd hkey not_mem_nil
  bounded := by simp [keys, recorded]
  smaller := fun key _ _ other hother => absurd hother not_mem_nil
  counted := fun entry hentry => absurd hentry not_mem_nil
  overflow := by simp [others]

/-- While there is room, every key that has occurred has a counter. -/
theorem Holds.mem_of_room {operations : Multiset (Operation κ)} {tally : Tally κ}
    (hholds : Holds room cap operations tally) (hroom : tally.counts.length < room) {key : κ}
    (hkey : key ∈ recorded operations) : key ∈ tally.keys := by
  have hcard : (recorded operations).card ≤ tally.keys.toFinset.card := by
    rw [toFinset_card_of_nodup hholds.distinct, hholds.bounded]
    have hlength := hholds.bounded
    rw [keys, length_map] at hlength
    omega
  have hsubset : tally.keys.toFinset ⊆ recorded operations := fun other hother =>
    hholds.subset other (mem_toFinset.mp hother)
  have hall := Finset.eq_of_subset_of_card_le hsubset hcard
  rw [← hall] at hkey
  exact mem_toFinset.mp hkey

theorem min_min_add (left right cap : ℕ) :
    min (min left cap + min right cap) cap = min (left + right) cap := by
  omega

theorem Holds.omit {operations : Multiset (Operation κ)} {tally : Tally κ}
    (hholds : Holds room cap operations tally) (count : ℕ) :
    Holds room cap ((none, count) ::ₘ operations) (tally.addOverflow cap (min count cap)) where
  distinct := hholds.distinct
  subset := by
    rw [recorded_cons_none]
    exact hholds.subset
  bounded := by
    rw [recorded_cons_none]
    exact hholds.bounded
  smaller := by
    rw [recorded_cons_none]
    exact hholds.smaller
  counted := by
    intro entry hentry
    rw [amount_cons, if_neg (by simp), Nat.zero_add]
    exact hholds.counted entry hentry
  overflow := by
    rw [others_cons, if_neg (by simp)]
    change min (tally.overflow + min count cap) cap =
      min (count + others operations tally.keys.toFinset) cap
    rw [hholds.overflow, min_min_add, Nat.add_comm]

theorem keys_counted (tally : Tally κ) (key : κ) (count cap : ℕ) :
    (tally.counts.map fun entry =>
      if entry.1 = key then (key, min (entry.2 + count) cap) else entry).map Prod.fst =
        tally.keys := by
  rw [map_map, keys]
  apply map_congr_left
  intro entry _
  simp only [Function.comp]
  split
  · rename_i hkey
    exact hkey.symm
  · rfl

theorem Holds.count {operations : Multiset (Operation κ)} {tally : Tally κ}
    (hholds : Holds room cap operations tally) {key : κ} (hknown : key ∈ tally.keys)
    (count : ℕ) : Holds room cap ((some key, count) ::ₘ operations)
      { tally with
        counts := tally.counts.map fun entry =>
          if entry.1 = key then (key, min (entry.2 + min count cap) cap) else entry } := by
  have hrecorded : recorded ((some key, count) ::ₘ operations) = recorded operations := by
    rw [recorded_cons_some, Finset.insert_eq_self]
    exact hholds.subset key hknown
  have hkeys := tally.keys_counted key (min count cap) cap
  constructor
  · rw [keys, hkeys]
    exact hholds.distinct
  · rw [keys, hkeys, hrecorded]
    exact hholds.subset
  · rw [keys, hkeys, hrecorded]
    exact hholds.bounded
  · rw [keys, hkeys, hrecorded]
    exact hholds.smaller
  · intro entry hentry
    obtain ⟨before, hbefore, rfl⟩ := mem_map.mp hentry
    rw [amount_cons]
    split
    · rename_i hkey
      rw [if_pos rfl, hholds.counted before hbefore, hkey, min_min_add, Nat.add_comm]
    · rename_i hother
      rw [if_neg fun heq => hother (Option.some.inj heq).symm, Nat.zero_add]
      exact hholds.counted before hbefore
  · rw [keys, hkeys, others_cons, if_pos ⟨key, mem_toFinset.mpr hknown, rfl⟩,
      Nat.zero_add]
    exact hholds.overflow

/-- The counts of keys other than the one that occurs. -/
theorem Holds.counted_cons {operations : Multiset (Operation κ)} {tally : Tally κ}
    (hholds : Holds room cap operations tally) {key : κ} (hnew : key ∉ tally.keys) (count : ℕ)
    {entry : κ × ℕ} (hentry : entry ∈ tally.counts) :
    entry.2 = min (amount ((some key, count) ::ₘ operations) entry.1) cap := by
  have hother : ¬ (some key : Option κ) = some entry.1 := by
    intro heq
    rw [Option.some.injEq] at heq
    exact hnew (heq ▸ mem_map_of_mem hentry)
  rw [amount_cons, if_neg hother, Nat.zero_add]
  exact hholds.counted entry hentry

theorem counted_singleton {operations : Multiset (Operation κ)} {key : κ}
    (hnew : key ∉ recorded operations) (count : ℕ) :
    min count cap = min (amount ((some key, count) ::ₘ operations) key) cap := by
  rw [amount_cons, if_pos rfl, amount_eq_zero hnew, Nat.add_zero]

omit [LinearOrder κ] in
theorem keys_append (counts : List (κ × ℕ)) (key : κ) (count overflow : ℕ) :
    (⟨counts ++ [(key, count)], overflow⟩ : Tally κ).keys = counts.map Prod.fst ++ [key] := by
  simp [keys]

theorem Holds.append {operations : Multiset (Operation κ)} {tally : Tally κ}
    (hholds : Holds room cap operations tally) {key : κ} (hnew : key ∉ tally.keys)
    (hroom : tally.counts.length < room) (count : ℕ) :
    Holds room cap ((some key, count) ::ₘ operations)
      { tally with counts := tally.counts ++ [(key, min count cap)] } := by
  have hfirst : key ∉ recorded operations := fun hkey => hnew (hholds.mem_of_room hroom hkey)
  have hkeys := keys_append tally.counts key (min count cap) tally.overflow
  constructor
  · rw [hkeys]
    exact hholds.distinct.append (nodup_singleton _) (disjoint_singleton.mpr hnew)
  · rw [hkeys, recorded_cons_some]
    intro other hother
    rcases mem_append.mp hother with hother | hother
    · exact Finset.mem_insert_of_mem (hholds.subset other hother)
    · rw [mem_singleton.mp hother]
      exact Finset.mem_insert_self _ _
  · have hlength := hholds.bounded
    rw [keys, length_map] at hlength
    rw [hkeys, recorded_cons_some, Finset.card_insert_of_notMem hfirst, length_append,
      length_map, length_singleton]
    omega
  · rw [hkeys, recorded_cons_some]
    intro other hother habsent
    rw [mem_append, not_or, mem_singleton] at habsent
    rcases Finset.mem_insert.mp hother with rfl | hother
    · exact absurd rfl habsent.2
    · exact absurd (hholds.mem_of_room hroom hother) habsent.1
  · intro entry hentry
    rcases mem_append.mp hentry with hentry | hentry
    · exact hholds.counted_cons hnew count hentry
    · rw [mem_singleton.mp hentry]
      exact counted_singleton hfirst count
  · have hmem : ∃ other ∈ (tally.keys ++ [key]).toFinset, some key = some other :=
      ⟨key, by simp, rfl⟩
    have hinsert : (tally.keys ++ [key]).toFinset = insert key tally.keys.toFinset := by
      ext other
      simp
    rw [hkeys, ← keys, others_cons, if_pos hmem, Nat.zero_add, hinsert, others_insert hfirst]
    exact hholds.overflow

theorem Holds.replace {operations : Multiset (Operation κ)} {tally : Tally κ}
    (hholds : Holds room cap operations tally) {key : κ} (hnew : key ∉ tally.keys)
    (hfull : room ≤ tally.counts.length) {last : κ × ℕ} (hlast : last ∈ tally.counts)
    (hlargest : ∀ entry ∈ tally.counts, entry.1 ≤ last.1) (hless : key < last.1) (count : ℕ) :
    Holds room cap ((some key, count) ::ₘ operations)
      ⟨(tally.counts.filter fun entry => entry.1 ≠ last.1) ++ [(key, min count cap)],
        min (tally.overflow + last.2) cap⟩ := by
  have hlastKey : last.1 ∈ tally.keys := mem_map_of_mem hlast
  have hfirst : key ∉ recorded operations := fun hkey =>
    lt_asymm hless (hholds.smaller key hkey hnew last.1 hlastKey)
  have hle : ∀ other ∈ tally.keys, other ≤ last.1 := by
    intro other hother
    obtain ⟨entry, hentry, rfl⟩ := mem_map.mp hother
    exact hlargest entry hentry
  have hfilter : (tally.counts.filter fun entry => entry.1 ≠ last.1).map Prod.fst =
      tally.keys.erase last.1 := by
    rw [hholds.distinct.erase_eq_filter, keys, filter_map]
    congr 1
    apply filter_congr
    intro entry _
    by_cases hsame : entry.1 = last.1 <;> simp [hsame]
  have hkeys := keys_append (tally.counts.filter fun entry => entry.1 ≠ last.1) key
    (min count cap) (min (tally.overflow + last.2) cap)
  rw [hfilter] at hkeys
  constructor
  · rw [hkeys]
    exact (hholds.distinct.erase _).append (nodup_singleton _)
      (disjoint_singleton.mpr fun hmem => hnew (mem_of_mem_erase hmem))
  · rw [hkeys, recorded_cons_some]
    intro other hother
    rcases mem_append.mp hother with hother | hother
    · exact Finset.mem_insert_of_mem (hholds.subset other (mem_of_mem_erase hother))
    · rw [mem_singleton.mp hother]
      exact Finset.mem_insert_self _ _
  · have hlength := hholds.bounded
    have hpos := length_pos_of_mem hlastKey
    have hcounts : tally.keys.length = tally.counts.length := length_map _
    rw [hkeys, recorded_cons_some, Finset.card_insert_of_notMem hfirst, length_append,
      length_erase_of_mem hlastKey, length_singleton]
    omega
  · rw [hkeys, recorded_cons_some]
    intro other hother habsent kept hkept
    rw [mem_append, not_or, mem_singleton] at habsent
    have hother : other ∈ recorded operations := by
      rcases Finset.mem_insert.mp hother with rfl | hother
      · exact absurd rfl habsent.2
      · exact hother
    -- the other key is the one that is replaced, or had no counter before
    have hlarge : last.1 ≤ other := by
      by_cases hknown : other ∈ tally.keys
      · by_contra hne
        exact habsent.1 ((mem_erase_of_ne fun hsame => hne hsame.ge).mpr hknown)
      · exact (hholds.smaller other hother hknown last.1 hlastKey).le
    rcases mem_append.mp hkept with hkept | hkept
    · rw [hholds.distinct.mem_erase_iff] at hkept
      exact (lt_of_le_of_ne (hle kept hkept.2) hkept.1).trans_le hlarge
    · rw [mem_singleton.mp hkept]
      exact hless.trans_le hlarge
  · intro entry hentry
    rcases mem_append.mp hentry with hentry | hentry
    · exact hholds.counted_cons hnew count (mem_of_mem_filter hentry)
    · rw [mem_singleton.mp hentry]
      exact counted_singleton hfirst count
  · have hmem : ∃ other ∈ (tally.keys.erase last.1 ++ [key]).toFinset, some key = some other :=
      ⟨key, by simp, rfl⟩
    have hinsert : (tally.keys.erase last.1 ++ [key]).toFinset =
        insert key (tally.keys.toFinset.erase last.1) := by
      ext other
      simp [hholds.distinct.mem_erase_iff]
    rw [hkeys, others_cons, if_pos hmem, Nat.zero_add, hinsert, others_insert hfirst,
      others_erase (mem_toFinset.mpr hlastKey)]
    change min (tally.overflow + last.2) cap = _
    rw [hholds.overflow, hholds.counted last hlast, min_min_add]

theorem Holds.refuse {operations : Multiset (Operation κ)} {tally : Tally κ}
    (hholds : Holds room cap operations tally) {key : κ} (hnew : key ∉ tally.keys)
    (hfull : room ≤ tally.counts.length) (hlarge : ∀ entry ∈ tally.counts, entry.1 < key)
    (count : ℕ) : Holds room cap ((some key, count) ::ₘ operations)
      (tally.addOverflow cap (min count cap)) where
  distinct := hholds.distinct
  subset := by
    rw [recorded_cons_some]
    exact fun other hother => Finset.mem_insert_of_mem (hholds.subset other hother)
  bounded := by
    have hlength := hholds.bounded
    have hcounts : tally.keys.length = tally.counts.length := length_map _
    have hcard := Finset.card_le_card (Finset.subset_insert key (recorded operations))
    change tally.keys.length = _
    rw [recorded_cons_some]
    omega
  smaller := by
    rw [recorded_cons_some]
    intro other hother habsent kept hkept
    rcases Finset.mem_insert.mp hother with rfl | hother
    · obtain ⟨entry, hentry, rfl⟩ := mem_map.mp hkept
      exact hlarge entry hentry
    · exact hholds.smaller other hother habsent kept hkept
  counted := fun entry hentry => hholds.counted_cons hnew count hentry
  overflow := by
    have habsent : ¬ ∃ other ∈ tally.keys.toFinset, (some key : Option κ) = some other := by
      rintro ⟨other, hother, heq⟩
      rw [Option.some.injEq] at heq
      exact hnew (heq ▸ mem_toFinset.mp hother)
    change min (tally.overflow + min count cap) cap =
      min (others ((some key, count) ::ₘ operations) tally.keys.toFinset) cap
    rw [others_cons, if_neg habsent, hholds.overflow, min_min_add, Nat.add_comm]

theorem Holds.apply {operations : Multiset (Operation κ)} {tally : Tally κ}
    (hholds : Holds room cap operations tally) (operation : Operation κ) :
    Holds room cap (operation ::ₘ operations) (tally.apply room cap operation) := by
  match operation with
  | (none, count) => exact hholds.omit count
  | (some key, count) =>
      rw [Tally.apply]
      generalize hresult : tally.add room cap key (min count cap) = result
      have hadded := tally.add_cases room cap key (min count cap)
      rw [hresult] at hadded
      cases hadded with
      | counted hknown => exact hholds.count hknown count
      | appended hnew hroom => exact hholds.append hnew hroom count
      | replaced hnew hfull last hlast hlargest hless =>
          exact hholds.replace hnew hfull hlast hlargest hless count
      | refused hnew hfull hlarge => exact hholds.refuse hnew hfull hlarge count

/-- Every run leaves the tally of its operations. -/
theorem holds_run (room cap : ℕ) (operations : List (Operation κ)) :
    Holds room cap (operations : Multiset (Operation κ)) (run room cap operations) := by
  induction operations using List.reverseRecOn with
  | nil => exact .empty room cap
  | append_singleton operations operation ih =>
      have hcons : ((operations ++ [operation] : List (Operation κ)) : Multiset (Operation κ)) =
          operation ::ₘ (operations : Multiset (Operation κ)) := by
        rw [← Multiset.coe_add, Multiset.coe_singleton, add_comm, Multiset.singleton_add]
      rw [hcons, run, foldl_append]
      exact ih.apply operation

/-! ## Only the operations matter -/

theorem smallest_sorted (room : ℕ) (operations : Multiset (Operation κ)) :
    (smallest room operations).Pairwise (· ≤ ·) :=
  ((recorded operations).pairwise_sort (· ≤ ·)).sublist (take_sublist _ _)

theorem smallest_nodup (room : ℕ) (operations : Multiset (Operation κ)) :
    (smallest room operations).Nodup :=
  ((recorded operations).sort_nodup (· ≤ ·)).sublist (take_sublist _ _)

/-- Where there is room for all keys, each of them has a counter. -/
theorem smallest_of_few {operations : Multiset (Operation κ)}
    (hfew : (recorded operations).card ≤ room) :
    smallest room operations = (recorded operations).sort := by
  rw [smallest, take_of_length_le]
  rwa [Finset.length_sort]

/-- Then no occurrence of a key is one of the others. -/
theorem besides_of_few {operations : Multiset (Operation κ)}
    (hfew : (recorded operations).card ≤ room)
    (hkeys : ∀ operation ∈ operations, ∃ key, operation.1 = some key) :
    besides room operations = 0 := by
  rw [besides, smallest_of_few hfew, others, Multiset.sum_eq_zero_iff]
  intro count hcount
  obtain ⟨operation, hmem, rfl⟩ := Multiset.mem_map.mp hcount
  obtain ⟨key, hkey⟩ := hkeys operation hmem
  refine if_pos ⟨key, ?_, hkey⟩
  rw [mem_toFinset, Finset.mem_sort]
  exact (mem_recorded operations).mpr ⟨operation, hmem, hkey⟩

/-- The other keys that have occurred are no smaller. -/
theorem smallest_le {operations : Multiset (Operation κ)} {key other : κ}
    (hkey : key ∈ recorded operations) (habsent : key ∉ smallest room operations)
    (hother : other ∈ smallest room operations) : other ≤ key := by
  have hsorted := (recorded operations).pairwise_sort (· ≤ ·)
  have hmem : key ∈ (recorded operations).sort (· ≤ ·) := (Finset.mem_sort _).mpr hkey
  rw [← take_append_drop room ((recorded operations).sort (· ≤ ·))] at hsorted hmem
  rw [pairwise_append] at hsorted
  exact hsorted.2.2 other hother key ((mem_append.mp hmem).resolve_left habsent)

/-- Of the keys that have occurred, the smallest ones have the counters. -/
theorem Holds.keys_eq {operations : Multiset (Operation κ)} {tally : Tally κ}
    (hholds : Holds room cap operations tally) :
    tally.keys.toFinset = (smallest room operations).toFinset := by
  have hsubset : ∀ key ∈ smallest room operations, key ∈ recorded operations := by
    intro key hkey
    exact (Finset.mem_sort _).mp (mem_of_mem_take hkey)
  have hcard : (smallest room operations).toFinset.card = tally.keys.toFinset.card := by
    rw [toFinset_card_of_nodup (smallest_nodup room operations),
      toFinset_card_of_nodup hholds.distinct, hholds.bounded, smallest, length_take,
      Finset.length_sort]
  symm
  apply Finset.eq_of_subset_of_card_le _ hcard.ge
  intro key hkey
  by_contra habsent
  rw [mem_toFinset] at hkey habsent
  -- all counters are smaller than the key, so they are among the smallest keys
  have hsmaller := hholds.smaller key (hsubset key hkey) habsent
  have hinside : tally.keys.toFinset ⊆ (smallest room operations).toFinset := by
    intro other hother
    rw [mem_toFinset] at hother ⊢
    by_contra houtside
    have hle := smallest_le (hholds.subset other hother) houtside hkey
    exact (hsmaller other hother).not_ge hle
  have hequal := Finset.eq_of_subset_of_card_le hinside hcard.le
  rw [← mem_toFinset, hequal] at habsent
  exact habsent (mem_toFinset.mpr hkey)

/-- The counters in the order of their keys. -/
def sorted (tally : Tally κ) : List (κ × ℕ) :=
  tally.counts.insertionSort fun left right => left.1 ≤ right.1

theorem pairwise_sorted (tally : Tally κ) :
    tally.sorted.Pairwise fun left right => left.1 ≤ right.1 := by
  have htotal : Std.Total fun left right : κ × ℕ => left.1 ≤ right.1 :=
    ⟨fun left right => le_total left.1 right.1⟩
  have htrans : IsTrans (κ × ℕ) fun left right => left.1 ≤ right.1 :=
    ⟨fun _ _ _ => le_trans⟩
  exact pairwise_insertionSort _ _

theorem Holds.sorted_eq {operations : Multiset (Operation κ)} {tally : Tally κ}
    (hholds : Holds room cap operations tally) :
    tally.sorted = (smallest room operations).map fun key =>
      (key, min (amount operations key) cap) := by
  have hperm : tally.sorted.Perm tally.counts := perm_insertionSort _ _
  have hkeys : tally.sorted.map Prod.fst = smallest room operations := by
    have hkeysPerm : (tally.sorted.map Prod.fst).Perm tally.keys := hperm.map Prod.fst
    have hsame : (smallest room operations).Perm tally.keys := by
      apply perm_of_nodup_nodup_toFinset_eq (smallest_nodup room operations)
        hholds.distinct
      exact hholds.keys_eq.symm
    have hpairwise : (tally.sorted.map Prod.fst).Pairwise (· ≤ ·) :=
      pairwise_map.mpr (pairwise_sorted tally)
    exact (hkeysPerm.trans hsame.symm).eq_of_pairwise' hpairwise
      (smallest_sorted room operations)
  have hcounts : ∀ entry ∈ tally.sorted,
      entry = (entry.1, min (amount operations entry.1) cap) := by
    intro entry hentry
    rw [← hholds.counted entry (hperm.subset hentry)]
  rw [← hkeys, map_map]
  nth_rewrite 1 [← map_id tally.sorted]
  apply map_congr_left
  exact hcounts

theorem Holds.overflow_eq {operations : Multiset (Operation κ)} {tally : Tally κ}
    (hholds : Holds room cap operations tally) :
    tally.overflow = min (besides room operations) cap := by
  rw [hholds.overflow, hholds.keys_eq, besides]

/-! ## Totals -/

/-- All occurrences. -/
def occurrences (operations : Multiset (Operation κ)) : ℕ :=
  (operations.map Prod.snd).sum

def total (tally : Tally κ) : ℕ :=
  (tally.counts.map Prod.snd).sum + tally.overflow

/-- No counter has reached the cap. -/
def Below (cap : ℕ) (tally : Tally κ) : Prop :=
  (∀ entry ∈ tally.counts, entry.2 < cap) ∧ tally.overflow < cap

/-- Every occurrence belongs to one of some keys, or to the others. -/
theorem sum_amount_add_others (operations : Multiset (Operation κ)) (keys : Finset κ) :
    (∑ key ∈ keys, amount operations key) + others operations keys =
      occurrences operations := by
  induction operations using Multiset.induction with
  | empty => simp [amount, others, occurrences]
  | cons operation operations ih =>
      have hone : (∑ key ∈ keys, if operation.1 = some key then operation.2 else 0) +
          (if ∃ key ∈ keys, operation.1 = some key then 0 else operation.2) = operation.2 := by
        by_cases hkey : ∃ key ∈ keys, operation.1 = some key
        · obtain ⟨key, hmem, heq⟩ := hkey
          rw [if_pos ⟨key, hmem, heq⟩, Finset.sum_eq_single key]
          · rw [if_pos heq, Nat.add_zero]
          · intro other _ hother
            rw [if_neg fun hsame => hother (Option.some.inj (hsame.symm.trans heq))]
          · exact fun habsent => absurd hmem habsent
        · rw [if_neg hkey, Finset.sum_eq_zero, Nat.zero_add]
          intro key hmem
          rw [if_neg fun heq => hkey ⟨key, hmem, heq⟩]
      simp only [amount_cons, others_cons, Finset.sum_add_distrib]
      rw [occurrences, Multiset.map_cons, Multiset.sum_cons, ← occurrences, ← ih]
      omega

theorem amount_le_occurrences (operations : Multiset (Operation κ)) (key : κ) :
    amount operations key ≤ occurrences operations := by
  have hsum := sum_amount_add_others operations {key}
  rw [Finset.sum_singleton] at hsum
  exact hsum ▸ Nat.le_add_right _ _

theorem others_le_occurrences (operations : Multiset (Operation κ)) (keys : Finset κ) :
    others operations keys ≤ occurrences operations := by
  rw [← sum_amount_add_others operations keys]
  exact Nat.le_add_left _ _

/-- A tally of few occurrences is below the cap. -/
theorem Holds.below {operations : Multiset (Operation κ)} {tally : Tally κ}
    (hholds : Holds room cap operations tally) (hfew : occurrences operations < cap) :
    tally.Below cap := by
  constructor
  · intro entry hentry
    rw [hholds.counted entry hentry]
    calc min (amount operations entry.1) cap
        ≤ amount operations entry.1 := min_le_left _ _
      _ ≤ occurrences operations := amount_le_occurrences operations entry.1
      _ < cap := hfew
  · rw [hholds.overflow]
    calc min (others operations tally.keys.toFinset) cap
        ≤ others operations tally.keys.toFinset := min_le_left _ _
      _ ≤ occurrences operations := others_le_occurrences operations _
      _ < cap := hfew

/-- Below the cap, a tally loses no occurrence. -/
theorem Holds.total_eq {operations : Multiset (Operation κ)} {tally : Tally κ}
    (hholds : Holds room cap operations tally) (hbelow : tally.Below cap) :
    tally.total = occurrences operations := by
  have hcounts : tally.counts.map Prod.snd =
      tally.keys.map fun key => amount operations key := by
    rw [keys, map_map]
    apply map_congr_left
    intro entry hentry
    have hcounted := hholds.counted entry hentry
    have hless := hbelow.1 entry hentry
    rw [Function.comp]
    omega
  have hoverflow : tally.overflow = others operations tally.keys.toFinset := by
    have hless := hbelow.2
    rw [hholds.overflow] at hless ⊢
    omega
  rw [total, hcounts, hoverflow, ← sum_toFinset _ hholds.distinct]
  exact sum_amount_add_others operations tally.keys.toFinset

end Tally

end SmallestKeys
