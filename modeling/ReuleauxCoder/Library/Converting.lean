import Mathlib.Data.List.Forall2

/-!
# Lists converted item by item

A list is converted where each of its items is: the results stand at the places of their items,
so that lengths, parts and positions agree.
-/

namespace Converting

open List

variable {α β : Type*} {convert : α → Option β} {items : List α} {results : List β}

theorem mapM_eq_some_iff :
    items.mapM convert = some results ↔
      List.Forall₂ (fun item result => convert item = some result) items results := by
  induction items generalizing results with
  | nil =>
      rw [mapM_nil, forall₂_nil_left_iff]
      exact ⟨fun hsome => by cases hsome; rfl, fun hnil => by rw [hnil]; rfl⟩
  | cons item rest ih =>
      rw [mapM_cons, forall₂_cons_left_iff]
      constructor
      · intro hsome
        obtain ⟨first, hfirst, hrest⟩ := Option.bind_eq_some_iff.mp hsome
        obtain ⟨others, hothers, hsame⟩ := Option.bind_eq_some_iff.mp hrest
        cases hsame
        exact ⟨first, others, hfirst, ih.mp hothers, rfl⟩
      · rintro ⟨first, others, hfirst, hothers, rfl⟩
        rw [hfirst, ih.mpr hothers]
        rfl

section

variable (hresults : items.mapM convert = some results)
include hresults

theorem length_of_mapM :
    results.length = items.length :=
  (mapM_eq_some_iff.mp hresults).length_eq.symm

/-- Every result is that of an item. -/
theorem exists_of_mem_mapM {result : β}
    (hmem : result ∈ results) : ∃ item ∈ items, convert item = some result := by
  have hall := mapM_eq_some_iff.mp hresults
  clear hresults
  induction hall with
  | nil => cases hmem
  | cons hfirst _ ih =>
      rcases mem_cons.mp hmem with rfl | hlater
      · exact ⟨_, mem_cons_self, hfirst⟩
      · obtain ⟨item, hitem, hsome⟩ := ih hlater
        exact ⟨item, mem_cons_of_mem _ hitem, hsome⟩

/-- The result at a place is that of the item there. -/
theorem getElem?_of_mapM (index : ℕ) :
    results[index]? = items[index]?.bind convert := by
  have hall := mapM_eq_some_iff.mp hresults
  clear hresults
  induction hall generalizing index with
  | nil => rfl
  | cons hfirst _ ih =>
      cases index with
      | zero => exact hfirst.symm
      | succ index => exact ih index

theorem mapM_drop (count : ℕ) :
    (items.drop count).mapM convert = some (results.drop count) :=
  mapM_eq_some_iff.mpr (forall₂_drop count (mapM_eq_some_iff.mp hresults))

end

/-- A list that is not converted has an item that is not. -/
theorem exists_of_mapM_eq_none (hnone : items.mapM convert = none) :
    ∃ item ∈ items, convert item = none := by
  induction items with
  | nil => cases hnone
  | cons item rest ih =>
      cases hfirst : convert item with
      | none => exact ⟨item, mem_cons_self, hfirst⟩
      | some first =>
          rw [mapM_cons, hfirst] at hnone
          cases hrest : rest.mapM convert with
          | none =>
              obtain ⟨other, hmem, hother⟩ := ih hrest
              exact ⟨other, mem_cons_of_mem _ hmem, hother⟩
          | some others => simp [hrest] at hnone

/-- Every item of a list that is converted is. -/
theorem ne_none_of_mapM (hresults : items.mapM convert = some results) {item : α}
    (hmem : item ∈ items) : convert item ≠ none := by
  obtain ⟨index, hindex⟩ := getElem?_of_mem hmem
  have hresult := getElem?_of_mapM hresults index
  have hinside : index < results.length :=
    length_of_mapM hresults ▸ (List.getElem?_eq_some_iff.mp hindex).1
  rw [hindex, getElem?_eq_getElem hinside, Option.bind_some] at hresult
  rw [← hresult]
  exact Option.some_ne_none _

end Converting
