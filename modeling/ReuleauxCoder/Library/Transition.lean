import Mathlib

/-!
# Runs of a deterministic transition system

A system is a step function; every choice the environment makes (failures,
clock readings, scheduling) is part of the action.  A run is then a left fold,
and "every step of the run meets a condition" is a predicate on the action list
that looks at the state each action finds.
-/

namespace Transition

variable {State Action : Type*}

/-- Every action of the run meets `condition` in the state it is taken from. -/
def Meets (step : State → Action → State) (condition : State → Action → Prop) :
    State → List Action → Prop
  | _, [] => True
  | state, action :: rest =>
      condition state action ∧ Meets step condition (step state action) rest

instance decidableMeets (step : State → Action → State)
    (condition : State → Action → Prop)
    [∀ state action, Decidable (condition state action)] :
    ∀ state actions, Decidable (Meets step condition state actions)
  | _, [] => isTrue trivial
  | state, action :: rest =>
      have := decidableMeets step condition (step state action) rest
      inferInstanceAs (Decidable (condition state action ∧ _))

variable {step : State → Action → State} {condition : State → Action → Prop}

variable {state : State} {actions : List Action}

theorem meets_append {left right : List Action} :
    Meets step condition state (left ++ right) ↔
      Meets step condition state left ∧
        Meets step condition (left.foldl step state) right := by
  induction left generalizing state with
  | nil => simp [Meets]
  | cons action left ih => simp [Meets, ih, and_assoc]

theorem Meets.of_isPrefix {left : List Action} (hmeets : Meets step condition state actions)
    (hpre : left <+: actions) : Meets step condition state left := by
  obtain ⟨right, rfl⟩ := hpre
  exact (meets_append.mp hmeets).1

theorem Meets.and {other : State → Action → Prop} (hleft : Meets step condition state actions)
    (hright : Meets step other state actions) :
    Meets step (fun state action => condition state action ∧ other state action)
      state actions := by
  induction actions generalizing state with
  | nil => trivial
  | cons action rest ih => exact ⟨⟨hleft.1, hright.1⟩, ih hleft.2 hright.2⟩

/-- A property of the actions alone holds at every step. -/
theorem meets_of_forall_mem {property : Action → Prop} (hall : ∀ action ∈ actions, property action)
    (state : State) : Meets step (fun _ action => property action) state actions := by
  induction actions generalizing state with
  | nil => trivial
  | cons action rest ih =>
      exact ⟨hall action List.mem_cons_self,
        ih (fun other hmem => hall other (List.mem_cons_of_mem _ hmem)) _⟩

/-- An invariant preserved by every admitted step holds after an admitted run. -/
theorem invariant_foldl (invariant : State → Prop)
    (hstep : ∀ state action, invariant state → condition state action →
      invariant (step state action)) (hstart : invariant state)
    (hmeets : Meets step condition state actions) : invariant (actions.foldl step state) := by
  induction actions generalizing state with
  | nil => exact hstart
  | cons action rest ih => exact ih (hstep _ _ hstart hmeets.1) hmeets.2

/-- A reflexive and transitive relation that every admitted step respects
relates the ends of an admitted run. -/
theorem related_foldl (related : State → State → Prop) (hrefl : ∀ state, related state state)
    (htrans : ∀ first second third, related first second → related second third →
      related first third)
    (hstep : ∀ state action, condition state action → related state (step state action))
    (hmeets : Meets step condition state actions) : related state (actions.foldl step state) := by
  induction actions generalizing state with
  | nil => exact hrefl state
  | cons action rest ih => exact htrans _ _ _ (hstep _ _ hmeets.1) (ih hmeets.2)

/-- Two conditions that agree wherever an invariant holds are met by the same runs. -/
theorem meets_congr_of_invariant {other : State → Action → Prop} (invariant : State → Prop)
    (hstep : ∀ state action, invariant state → invariant (step state action))
    (hagree : ∀ state action, invariant state → (condition state action ↔ other state action))
    (hstart : invariant state) :
    Meets step condition state actions ↔ Meets step other state actions := by
  induction actions generalizing state with
  | nil => exact Iff.rfl
  | cons action rest ih =>
      exact and_congr (hagree state action hstart) (ih (hstep state action hstart))

end Transition
