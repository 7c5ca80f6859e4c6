import Mathlib

/-!
# Listings ordered by a key

A listing sorts rows by a key, largest first.  When no two rows share a key the
listing depends on the set of rows alone, so an index and a full scan that hold
the same rows give the same listing.
-/

namespace Listing

variable {Row Key : Type*} [LinearOrder Key] (key : Row → Key)

/-- `sorted(rows, key=key, reverse=True)` for distinct keys. -/
def descending (rows : List Row) : List Row :=
  rows.insertionSort fun left right => key right ≤ key left

theorem perm_descending (rows : List Row) : (descending key rows).Perm rows :=
  List.perm_insertionSort _ rows

theorem pairwise_descending (rows : List Row) :
    (descending key rows).Pairwise fun left right => key right ≤ key left := by
  have : Std.Total fun left right : Row => key right ≤ key left :=
    ⟨fun left right => le_total (key right) (key left)⟩
  have : IsTrans Row fun left right => key right ≤ key left :=
    ⟨fun _ _ _ hleft hright => hright.trans hleft⟩
  exact List.pairwise_insertionSort _ rows

theorem find?_eq_of_unique {α : Type*} {test : α → Bool} {list : List α} {value : α}
    (hmem : value ∈ list) (htest : test value = true)
    (hunique : ∀ other ∈ list, test other = true → other = value) :
    list.find? test = some value := by
  cases hfind : list.find? test with
  | none => exact absurd htest (List.find?_eq_none.mp hfind value hmem)
  | some other =>
      rw [hunique other (List.mem_of_find?_eq_some hfind) (List.find?_some hfind)]

theorem nodup_map_concat {α β : Type*} (f : α → β) (items : List α) (item : α) :
    ((items ++ [item]).map f).Nodup ↔ (items.map f).Nodup ∧ f item ∉ items.map f := by
  rw [List.map_append, List.map_singleton, ← List.concat_eq_append, List.nodup_concat, and_comm]

/-- A test that one item stops to meet, and no other begins to, is met less often. -/
theorem countP_lt_of_mem {α : Type*} {before after : α → Bool} {items : List α}
    (himplies : ∀ item ∈ items, after item = true → before item = true) {item : α}
    (hmem : item ∈ items) (hbefore : before item = true) (hafter : after item = false) :
    items.countP after < items.countP before := by
  obtain ⟨front, back, rfl⟩ := List.append_of_mem hmem
  have hfront : front.countP after ≤ front.countP before :=
    List.countP_mono_left fun other hother => himplies other (by simp [hother])
  have hback : back.countP after ≤ back.countP before :=
    List.countP_mono_left fun other hother => himplies other (by simp [hother])
  rw [List.countP_append, List.countP_append, List.countP_cons_of_pos hbefore,
    List.countP_cons_of_neg (Bool.eq_false_iff.mp hafter)]
  omega

theorem map_filterMap_sublist {α β γ : Type*} (read : α → Option β) (name : α → γ)
    (nameOf : β → γ) (hname : ∀ item value, read item = some value → nameOf value = name item)
    (items : List α) : ((items.filterMap read).map nameOf).Sublist (items.map name) := by
  induction items with
  | nil => exact List.Sublist.refl _
  | cons item rest ih =>
      cases hread : read item with
      | none =>
          rw [List.filterMap_cons_none hread]
          exact ih.cons _
      | some value =>
          rw [List.filterMap_cons_some hread, List.map_cons, List.map_cons, hname _ _ hread]
          exact ih.cons_cons _

/-- Sorting finds the one order that a list can be sorted to. -/
theorem insertionSort_eq_of_perm {α : Type*} (r : α → α → Prop) [DecidableRel r] [Std.Total r]
    [IsTrans α r] {items sorted : List α}
    (hantisymm : ∀ left right, left ∈ sorted → right ∈ sorted → r left right → r right left →
      left = right) (hsorted : sorted.Pairwise r) (hperm : items.Perm sorted) :
    items.insertionSort r = sorted := by
  have hboth : (items.insertionSort r).Perm sorted := (List.perm_insertionSort r items).trans hperm
  apply hboth.eq_of_pairwise _ (List.pairwise_insertionSort r items) hsorted
  intro left right hleft hright
  exact hantisymm left right (hboth.mem_iff.mp hleft) hright

/-- Rows with distinct keys have one descending order. -/
theorem descending_eq_of_perm {rows others : List Row}
    (hinjective : Set.InjOn key {row | row ∈ rows}) (hperm : rows.Perm others) :
    descending key rows = descending key others := by
  have hboth : (descending key rows).Perm (descending key others) :=
    (perm_descending key rows).trans (hperm.trans (perm_descending key others).symm)
  apply hboth.eq_of_pairwise _ (pairwise_descending key rows) (pairwise_descending key others)
  intro left right hleft hright hdown hup
  apply hinjective
  · exact (perm_descending key rows).mem_iff.mp hleft
  · exact hperm.mem_iff.mpr ((perm_descending key others).mem_iff.mp hright)
  · exact le_antisymm hup hdown

end Listing
