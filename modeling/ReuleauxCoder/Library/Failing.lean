import Mathlib.Data.List.Forall2

/-!
# Lists read item by item

A list is read from its front, and the first item that cannot be read ends it.  So a list is
read if each of its items is, and an error is that of an item behind items that are read.
-/

namespace Failing

variable {α β ε : Type*} {read : α → Except ε β} {items : List α}

/-- Every item before the first refused one is read. -/
def FirstError (read : α → Except ε β) (items : List α) (error : ε) : Prop :=
  ∃ front item rest, items = front ++ item :: rest ∧
    (∀ before ∈ front, ∃ value, read before = .ok value) ∧ read item = .error error

theorem FirstError.cons {item : α} {value : β} {error : ε} (hitem : read item = .ok value)
    (hrest : FirstError read items error) : FirstError read (item :: items) error := by
  obtain ⟨front, refused, rest, hitems, hfront, herror⟩ := hrest
  refine ⟨item :: front, refused, rest, by rw [hitems, List.cons_append], ?_, herror⟩
  intro before hbefore
  cases List.mem_cons.mp hbefore with
  | inl hfirst => exact ⟨value, hfirst ▸ hitem⟩
  | inr hlater => exact hfront before hlater

theorem FirstError.of_cons {item : α} {value : β} {error : ε} (hitem : read item = .ok value)
    (hfirst : FirstError read (item :: items) error) : FirstError read items error := by
  obtain ⟨front, refused, rest, hitems, hfront, herror⟩ := hfirst
  cases front with
  | nil =>
      cases hitems
      rw [hitem] at herror
      cases herror
  | cons first front =>
      cases hitems
      exact ⟨front, refused, rest, rfl,
        fun before hbefore => hfront before (List.mem_cons_of_mem _ hbefore), herror⟩

theorem mapM_cons_ok {item : α} {value : β} (hitem : read item = .ok value) :
    (item :: items).mapM read = (items.mapM read).map (value :: ·) := by
  rw [List.mapM_cons, hitem]
  cases items.mapM read <;> rfl

theorem mapM_cons_error {item : α} {error : ε} (hitem : read item = .error error) :
    (item :: items).mapM read = .error error := by
  rw [List.mapM_cons, hitem]
  rfl

theorem mapM_eq_ok_iff {values : List β} :
    items.mapM read = .ok values ↔
      List.Forall₂ (fun item value => read item = .ok value) items values := by
  induction items generalizing values with
  | nil =>
      rw [List.mapM_nil, List.forall₂_nil_left_iff]
      exact ⟨fun hok => by cases hok; rfl, fun hnil => by rw [hnil]; rfl⟩
  | cons item rest ih =>
      cases hitem : read item with
      | error error =>
          rw [mapM_cons_error hitem]
          refine iff_of_false (fun hok => nomatch hok) ?_
          intro hall
          cases hall with
          | cons hfirst hothers =>
              rw [hitem] at hfirst
              cases hfirst
      | ok value =>
          rw [mapM_cons_ok hitem]
          constructor
          · intro hok
            cases hmore : rest.mapM read with
            | error error =>
                rw [hmore] at hok
                cases hok
            | ok others =>
                rw [hmore] at hok
                cases hok
                exact .cons hitem (ih.mp hmore)
          · intro hall
            cases hall with
            | cons hfirst hothers =>
                rw [hitem] at hfirst
                cases hfirst
                rw [ih.mpr hothers]
                rfl

theorem forall_of_mapM_ok (holds : β → Prop) {values : List β}
    (hok : items.mapM read = .ok values)
    (hread : ∀ item value, read item = .ok value → holds value) :
    ∀ value ∈ values, holds value := by
  rw [mapM_eq_ok_iff] at hok
  induction hok with
  | nil => exact fun value hvalue => absurd hvalue List.not_mem_nil
  | cons hfirst _ ih => exact List.forall_mem_cons.mpr ⟨hread _ _ hfirst, ih⟩

theorem mapM_eq_error_iff {error : ε} :
    items.mapM read = .error error ↔ FirstError read items error := by
  induction items with
  | nil =>
      refine iff_of_false (fun herror => nomatch herror) ?_
      rintro ⟨front, item, rest, hitems, -⟩
      cases front <;> cases hitems
  | cons item rest ih =>
      cases hitem : read item with
      | error first =>
          rw [mapM_cons_error hitem]
          constructor
          · intro herror
            cases herror
            exact ⟨[], item, rest, rfl, fun before hbefore => absurd hbefore List.not_mem_nil,
              hitem⟩
          · rintro ⟨front, refused, others, hitems, hfront, herror⟩
            cases front with
            | nil =>
                cases hitems
                rw [hitem] at herror
                cases herror
                rfl
            | cons other front =>
                cases hitems
                obtain ⟨value, hvalue⟩ := hfront item List.mem_cons_self
                rw [hitem] at hvalue
                cases hvalue
      | ok value =>
          rw [mapM_cons_ok hitem]
          constructor
          · intro herror
            cases hmore : rest.mapM read with
            | ok others =>
                rw [hmore] at herror
                cases herror
            | error later =>
                rw [hmore] at herror
                cases herror
                exact (ih.mp hmore).cons hitem
          · intro hfirst
            rw [ih.mpr (hfirst.of_cons hitem)]
            rfl

end Failing
