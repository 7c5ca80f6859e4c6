import Mathlib.Data.List.Perm.Basic

/-!
# Calls and their answers

A conversation is a list of elements; some of them make calls, others answer one.  It is in
order when whoever makes calls is followed at once by the answers to just these calls.
-/

namespace Exchanges

variable {α β κ : Type*}

/-- What an element calls for, and which call it answers. -/
structure Protocol (α κ : Type*) where
  calls : α → List κ
  answer : α → Option κ

/-- The element has no part in an exchange. -/
def Protocol.Quiet (protocol : Protocol α κ) (element : α) : Prop :=
  protocol.calls element = [] ∧ protocol.answer element = none

/-- Every call is answered at once: behind the elements that make calls come the answers to
them, in some order.  Calls may be made by several elements `together`, and there may be answers
that `stray`, without a call before them. -/
inductive Answered (protocol : Protocol α κ) (together strays : Prop) : List α → Prop
  | nil : Answered protocol together strays []
  | quiet {element : α} {rest : List α} (hquiet : protocol.Quiet element)
      (hrest : Answered protocol together strays rest) :
      Answered protocol together strays (element :: rest)
  | stray {element : α} {rest : List α} (hstrays : strays)
      (hcalls : protocol.calls element = []) (hanswer : protocol.answer element ≠ none)
      (hrest : Answered protocol together strays rest) :
      Answered protocol together strays (element :: rest)
  | exchange {callers answers rest : List α} (hcallers : callers ≠ [])
      (htogether : callers.length = 1 ∨ together)
      (hcalls : ∀ caller ∈ callers, protocol.calls caller ≠ [] ∧ protocol.answer caller = none)
      (hanswers : ∀ element ∈ answers, protocol.calls element = [])
      (hperm : (answers.map protocol.answer).Perm ((callers.flatMap protocol.calls).map some))
      (hrest : Answered protocol together strays rest) :
      Answered protocol together strays (callers ++ answers ++ rest)

section Rules

variable {protocol : Protocol α κ} {together strays : Prop}

theorem Answered.quiet_append {elements rest : List α}
    (hquiet : ∀ element ∈ elements, protocol.Quiet element)
    (hrest : Answered protocol together strays rest) :
    Answered protocol together strays (elements ++ rest) := by
  induction elements with
  | nil => exact hrest
  | cons element elements ih =>
      rw [List.forall_mem_cons] at hquiet
      exact .quiet hquiet.1 (ih hquiet.2)

/-- The answers of an exchange answer something. -/
theorem answer_ne_none_of_perm {answers : List α} {ids : List κ}
    (hperm : (answers.map protocol.answer).Perm (ids.map some)) :
    ∀ element ∈ answers, protocol.answer element ≠ none := by
  intro element helement hnone
  have hmem : none ∈ ids.map some := by
    rw [← hperm.mem_iff, ← hnone]
    exact List.mem_map_of_mem helement
  obtain ⟨id, -, hid⟩ := List.mem_map.mp hmem
  cases hid

end Rules

theorem forall₂_append_left {related : α → β → Prop} {front back : List α} {others : List β}
    (hall : List.Forall₂ related (front ++ back) others) :
    ∃ initial rest, others = initial ++ rest ∧ List.Forall₂ related front initial ∧
      List.Forall₂ related back rest := by
  induction front generalizing others with
  | nil => exact ⟨[], others, rfl, .nil, hall⟩
  | cons item front ih =>
      cases hall with
      | cons hitem hrest =>
          obtain ⟨initial, rest, rfl, hfront, hback⟩ := ih hrest
          exact ⟨_ :: initial, rest, rfl, .cons hitem hfront, hback⟩

section Alike

variable {protocol : Protocol α κ} {other : Protocol β κ} {together strays : Prop}

/-- The two elements have the same part in exchanges. -/
def Alike (protocol : Protocol α κ) (other : Protocol β κ) (element : α) (image : β) : Prop :=
  protocol.calls element = other.calls image ∧ protocol.answer element = other.answer image

theorem flatMap_calls_alike {elements : List α} {images : List β}
    (hall : List.Forall₂ (Alike protocol other) elements images) :
    elements.flatMap protocol.calls = images.flatMap other.calls := by
  induction hall with
  | nil => rfl
  | cons halike _ ih => rw [List.flatMap_cons, List.flatMap_cons, halike.1, ih]

theorem map_answer_alike {elements : List α} {images : List β}
    (hall : List.Forall₂ (Alike protocol other) elements images) :
    elements.map protocol.answer = images.map other.answer := by
  induction hall with
  | nil => rfl
  | cons halike _ ih => rw [List.map_cons, List.map_cons, halike.2, ih]

theorem forall_alike (property : List κ → Option κ → Prop) {elements : List α} {images : List β}
    (hall : List.Forall₂ (Alike protocol other) elements images)
    (hproperty : ∀ element ∈ elements, property (protocol.calls element) (protocol.answer element)) :
    ∀ image ∈ images, property (other.calls image) (other.answer image) := by
  induction hall with
  | nil => exact fun image himage => absurd himage List.not_mem_nil
  | cons halike _ ih =>
      rw [List.forall_mem_cons] at hproperty ⊢
      rw [← halike.1, ← halike.2]
      exact ⟨hproperty.1, ih hproperty.2⟩

theorem Answered.alike {elements : List α} {images : List β}
    (hanswered : Answered protocol together strays elements)
    (hall : List.Forall₂ (Alike protocol other) elements images) :
    Answered other together strays images := by
  induction hanswered generalizing images with
  | nil =>
      cases hall
      exact .nil
  | quiet hquiet _ ih =>
      cases hall with
      | cons halike hrest =>
          exact .quiet ⟨halike.1 ▸ hquiet.1, halike.2 ▸ hquiet.2⟩ (ih hrest)
  | stray hstrays hcalls hanswer _ ih =>
      cases hall with
      | cons halike hrest =>
          exact .stray hstrays (halike.1 ▸ hcalls) (halike.2 ▸ hanswer) (ih hrest)
  | exchange hcallers htogether hcalls hanswers hperm _ ih =>
      rw [List.append_assoc] at hall
      obtain ⟨callers, others, rfl, hfirst, hothers⟩ := forall₂_append_left hall
      obtain ⟨answers, rest, rfl, hsecond, hrest⟩ := forall₂_append_left hothers
      rw [← List.append_assoc]
      refine .exchange ?_ (htogether.imp_left fun hlength => hfirst.length_eq ▸ hlength)
        (forall_alike (fun calls answer => calls ≠ [] ∧ answer = none) hfirst hcalls)
        (forall_alike (fun calls _ => calls = []) hsecond hanswers) ?_ (ih hrest)
      · rintro rfl
        cases hfirst
        exact hcallers rfl
      · rwa [← map_answer_alike hsecond, ← flatMap_calls_alike hfirst]

end Alike

end Exchanges
