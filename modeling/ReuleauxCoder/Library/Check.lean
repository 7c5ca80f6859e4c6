import Mathlib

/-!
# Checks that raise

Validators are sequences of guards in `Except`.  The lemmas below turn "the
validator accepts" into the conjunction of its guards, one bind at a time, so
that proofs about validators never unfold the monad.
-/

namespace Check

variable {ε : Type*} {α β : Type}

/-- Raise `error` unless `condition` holds. -/
def require (condition : Prop) [Decidable condition] (error : ε) : Except ε Unit :=
  if condition then .ok () else .error error

@[simp]
theorem require_eq_ok {condition : Prop} [Decidable condition] {error : ε} {result : Unit} :
    require condition error = .ok result ↔ condition := by
  unfold require
  split <;> simp_all

@[simp]
theorem bind_eq_ok {first : Except ε α} {next : α → Except ε β} {result : β} :
    (first >>= next) = .ok result ↔
      ∃ value, first = .ok value ∧ next value = .ok result := by
  cases first with
  | error error => simp [bind, Except.bind]
  | ok value => simp [bind, Except.bind]

theorem bind_congr {first : Except ε α} {next other : α → Except ε β}
    (hagree : ∀ value, first = .ok value → next value = other value) :
    (first >>= next) = (first >>= other) := by
  cases first with
  | error error => rfl
  | ok value => exact hagree value rfl

/-- The result of a guard carries nothing to be named. -/
@[simp]
theorem exists_unit {property : Unit → Prop} : (∃ result, property result) ↔ property () :=
  ⟨fun ⟨_, hproperty⟩ => hproperty, fun hproperty => ⟨_, hproperty⟩⟩

@[simp]
theorem pure_eq_ok {value result : α} :
    (pure value : Except ε α) = .ok result ↔ value = result := by
  simp [pure, Except.pure]

@[simp]
theorem map_eq_ok {first : Except ε α} {f : α → β} {result : β} :
    first.map f = .ok result ↔ ∃ value, first = .ok value ∧ f value = result := by
  cases first <;> simp [Except.map]

/-- Run a check on every element of a list, stopping at the first failure. -/
def forEach (check : α → Except ε Unit) : List α → Except ε Unit
  | [] => .ok ()
  | value :: rest => do
      check value
      forEach check rest

/-! ## Loops that may return early -/

/-- What holds of the error, or of the value. -/
def Ends (failed : ε → Prop) (passed : α → Prop) : Except ε α → Prop
  | .error error => failed error
  | .ok value => passed value

theorem Ends.bind {failed : ε → Prop} {middle : α → Prop} {passed : β → Prop}
    {first : Except ε α} {next : α → Except ε β} (hfirst : Ends failed middle first)
    (hnext : ∀ value, middle value → Ends failed passed (next value)) :
    Ends failed passed (first >>= next) := by
  cases first with
  | error error => exact hfirst
  | ok value => exact hnext value hfirst

/-- A loop keeps what every round keeps, and its early returns are those of a round. -/
theorem ends_foldlM {failed : ε → Prop} {invariant : α → Prop} {step : α → β → Except ε α}
    {items : List β}
    (hstep : ∀ state, invariant state → ∀ item ∈ items, Ends failed invariant (step state item))
    {state : α} (hstate : invariant state) :
    Ends failed invariant (items.foldlM step state) := by
  induction items generalizing state with
  | nil => exact hstate
  | cons item rest ih =>
      rw [List.foldlM_cons]
      exact (hstep state hstate item List.mem_cons_self).bind fun next hnext =>
        ih (fun state hstate item hitem => hstep state hstate item (List.mem_cons_of_mem _ hitem))
          hnext

/-- Two loops whose rounds agree under a view of the state agree under it. -/
theorem map_foldlM {γ : Type} {failed : ε → Prop} {invariant : α → Prop}
    {step : α → β → Except ε α} {other : γ → β → Except ε γ} {view : α → γ} {items : List β}
    (hstep : ∀ state, invariant state → ∀ item ∈ items, Ends failed invariant (step state item))
    (hview : ∀ state, invariant state → ∀ item ∈ items,
      (step state item).map view = other (view state) item)
    {state : α} (hstate : invariant state) :
    (items.foldlM step state).map view = items.foldlM other (view state) := by
  induction items generalizing state with
  | nil => rfl
  | cons item rest ih =>
      have hround := hview state hstate item List.mem_cons_self
      have hkeep := hstep state hstate item List.mem_cons_self
      rw [List.foldlM_cons, List.foldlM_cons, ← hround]
      cases hnext : step state item with
      | error error => rfl
      | ok next =>
          rw [hnext] at hkeep
          exact ih
            (fun state hstate item hitem => hstep state hstate item (List.mem_cons_of_mem _ hitem))
            (fun state hstate item hitem => hview state hstate item (List.mem_cons_of_mem _ hitem))
            hkeep

theorem foldlM_flatten {step : α → β → Except ε α} (lists : List (List β)) (state : α) :
    lists.flatten.foldlM step state =
      lists.foldlM (fun state items => items.foldlM step state) state := by
  induction lists generalizing state with
  | nil => rfl
  | cons items rest ih =>
      rw [List.flatten_cons, List.foldlM_append, List.foldlM_cons]
      exact bind_congr fun next _ => ih next

end Check
