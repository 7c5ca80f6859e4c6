import ReuleauxCoder.Control.Goal

/-!
# Restoring the goal after a restart

`GoalController.restore` starts from the goal of the persisted runtime snapshot
and scans the ledger backwards for the last goal commit.  Snapshot and record
are taken to be the same commit when they agree on the goal identifier and on
`updated_at`; then the snapshot wins, because it carries more elapsed time.
The comparison is by clock reading, so the reading has to tell commits apart.
-/

namespace ReuleauxCoder.GoalController

open PyText

/-- The snapshot and the recorded goal carry the same identifier and timestamp. -/
def sameCommit (snapshot recorded : Option Goal) : Bool :=
  match snapshot, recorded with
  | some snapshot, some recorded =>
      snapshot.id = recorded.id && snapshot.updatedAt = recorded.updatedAt
  | _, _ => false

/-- The loop of `restore` over the reversed events. -/
def restoreFrom (snapshot : Option Goal) : List LedgerEvent → Option Goal
  | [] => snapshot
  | .runtimeReset :: _ => none
  | .goalChanged recorded :: _ =>
      if sameCommit snapshot recorded then snapshot else recorded
  | .other :: rest => restoreFrom snapshot rest

def restore (controller : Controller) (snapshot : Option Goal)
    (events : List LedgerEvent) (monotonic : ℚ) : Controller :=
  { controller with goal := restoreFrom snapshot events.reverse, clock := monotonic }

/-- The goal without its elapsed time, request estimate and timestamps. -/
structure GoalFacts where
  id : Text
  objective : Text
  status : GoalStatus
  tokenBudget : Option ℤ
  tokensUsed : ℤ
  deriving DecidableEq

def Goal.facts (goal : Goal) : GoalFacts where
  id := goal.id
  objective := goal.objective
  status := goal.status
  tokenBudget := goal.tokenBudget
  tokensUsed := goal.tokensUsed

/-- The operation is accepted and commits the goal with this identifier. -/
def touches (controller : Controller) (action : Action) (id : Text) : Bool :=
  match decision controller action with
  | .commit (some goal) => goal.id = id
  | _ => false

/-- An operation that touches the goal of the snapshot reads another clock value
than the one the snapshot's goal was committed at. -/
def ClockMoved (snapshot : Option Goal) (controller : Controller) (action : Action) : Prop :=
  ∀ taken ∈ snapshot, touches controller action taken.id = true →
    action.2.wall ≠ taken.updatedAt

instance (snapshot : Option Goal) (controller : Controller) (action : Action) :
    Decidable (ClockMoved snapshot controller action) :=
  inferInstanceAs (Decidable (∀ _ ∈ snapshot, _))

/-- The last ledger record is the committed goal. -/
def Recorded (controller : Controller) : Prop :=
  controller.ledger = [] ∧ controller.goal = none ∨
    controller.ledger.getLast? = some (.goalChanged controller.goal)

variable {controller : Controller}

/-- Where the ledger takes the events, its last goal record is the committed goal. -/
theorem step_recorded {action : Action} (hrecorded : Recorded controller)
    (hledger : action.2.ledgerFails = false) : Recorded (step controller action) := by
  obtain ⟨hgoal, -, hcases⟩ | ⟨goal, -, -, hstep⟩ := step_cases controller action
  · obtain ⟨-, hsame⟩ | hfails := hcases
    · rwa [Recorded, hgoal, hsame]
    · rw [hledger] at hfails
      cases hfails
  · rw [hstep]
    exact .inr (by simp)

theorem run_recorded {actions : List Action} (hrecorded : Recorded controller)
    (hledger : ∀ action ∈ actions, action.2.ledgerFails = false) :
    Recorded (run controller actions) :=
  Transition.invariant_foldl Recorded (fun _ _ => step_recorded) hrecorded
    (Transition.meets_of_forall_mem hledger _)

/-- Every committed goal carries the clock reading of its operation. -/
theorem decision_updatedAt {action : Action} {goal : Goal}
    (hdecision : decision controller action = .commit (some goal)) :
    goal.updatedAt = action.2.wall := by
  obtain ⟨operation, readings⟩ := action
  cases operation with
  | create objective tokenBudget =>
      cases hcreate : create controller.goal objective tokenBudget readings with
      | error message => simp [decision, hcreate, Decision.ofExcept] at hdecision
      | ok created =>
          simp only [decision, hcreate, Decision.ofExcept, Decision.commit.injEq,
            Option.some.injEq] at hdecision
          exact hdecision ▸ (create_eq_ok hcreate).2.1
  | update arguments =>
      cases hupdate : update (withElapsed controller readings.elapsed) arguments readings with
      | error message => simp [decision, hupdate, Decision.ofExcept] at hdecision
      | ok later =>
          simp only [decision, hupdate, Decision.ofExcept, Decision.commit.injEq,
            Option.some.injEq] at hdecision
          obtain ⟨-, -, hupdated, -⟩ := update_eq_ok hupdate
          exact hdecision ▸ hupdated
  | stop status =>
      cases hcurrent : withElapsed controller readings.elapsed with
      | none => simp [decision, hcurrent, stop, Decision.ofOption] at hdecision
      | some current =>
          by_cases hactive : current.status = .active
          · simp only [decision, hcurrent, stop, hactive, if_true, Decision.ofOption,
              Decision.commit.injEq, Option.some.injEq] at hdecision
            exact hdecision ▸ rfl
          · simp [decision, hcurrent, stop, hactive, Decision.ofOption] at hdecision
  | clear => simp [decision] at hdecision
  | recordUsage goalId usage =>
      cases hcurrent : withElapsed controller readings.elapsed with
      | none => simp [decision, hcurrent, recordUsage, Decision.ofOption] at hdecision
      | some current =>
          by_cases hid : current.id = goalId
          · simp only [decision, hcurrent, recordUsage, hid, if_true, Decision.ofOption,
              Decision.commit.injEq, Option.some.injEq] at hdecision
            rw [← hdecision, limitBudget_updatedAt]
          · simp [decision, hcurrent, recordUsage, hid, Decision.ofOption] at hdecision

/-- Relative to a snapshot, the controller has either not committed since, or
its last commit is recorded and cannot be mistaken for the snapshot's. -/
def Distinguished (snapshot : Option Goal) (controller : Controller) : Prop :=
  controller.goal.map Goal.facts = snapshot.map Goal.facts ∨
    controller.ledger ≠ [] ∧ sameCommit snapshot controller.goal = false

/-- A commit at a later time cannot be mistaken for the snapshot, and nothing else changes the
goal. -/
theorem step_distinguished {snapshot : Option Goal} {action : Action}
    (hdistinguished : Distinguished snapshot controller) (hledger : action.2.ledgerFails = false)
    (hclock : ClockMoved snapshot controller action) :
    Distinguished snapshot (step controller action) := by
  obtain ⟨hgoal, -, hcases⟩ | ⟨goal, hdecision, -, hstep⟩ := step_cases controller action
  · obtain ⟨-, hsame⟩ | hfails := hcases
    · rwa [Distinguished, hgoal, hsame]
    · rw [hledger] at hfails
      cases hfails
  · rw [hstep]
    refine .inr ⟨by simp, ?_⟩
    cases hsnapshot : snapshot with
    | none => rfl
    | some taken =>
        cases hcommitted : goal with
        | none => rfl
        | some committed =>
            rw [hcommitted] at hdecision
            by_cases hid : taken.id = committed.id
            · have hmoved := hclock taken hsnapshot (by simp [touches, hdecision, hid])
              rw [← decision_updatedAt hdecision] at hmoved
              simp [sameCommit, hmoved.symm]
            · simp [sameCommit, hid]

theorem withElapsed_facts (controller : Controller) (monotonic : ℚ) :
    (withElapsed controller monotonic).map Goal.facts =
      controller.goal.map Goal.facts := by
  cases hgoal : controller.goal with
  | none => simp [withElapsed, hgoal]
  | some goal =>
      simp only [withElapsed, hgoal]
      split <;> rfl

/-- A recorded and distinguished controller is restored up to elapsed time. -/
theorem restore_facts {snapshot : Option Goal} (hrecorded : Recorded controller)
    (hdistinguished : Distinguished snapshot controller) :
    (restoreFrom snapshot controller.ledger.reverse).map Goal.facts =
      controller.goal.map Goal.facts := by
  obtain ⟨hempty, hgoal⟩ | hlast := hrecorded
  · obtain hfacts | ⟨hnonempty, -⟩ := hdistinguished
    · simp [hempty, restoreFrom, hfacts]
    · exact absurd hempty hnonempty
  · obtain ⟨initial, hledger⟩ := List.getLast?_eq_some_iff.mp hlast
    rw [hledger, List.reverse_append]
    simp only [List.reverse_cons, List.reverse_nil, List.nil_append, List.cons_append,
      restoreFrom]
    split
    · next hsame =>
        obtain hfacts | ⟨-, hdiffers⟩ := hdistinguished
        · exact hfacts.symm
        · rw [hsame] at hdiffers
          cases hdiffers
    · rfl

/-- In every run in which the clock has moved on before the snapshot's goal is
committed again, restoring from the snapshot and the recorded events gives the
goal as last committed. -/
theorem restore_after_run (clock : ℚ) (before after : List Action)
    (monotonic restoredAt : ℚ)
    (hledger : ∀ action ∈ before ++ after, action.2.ledgerFails = false) :
    let saved := run { goal := none, clock, ledger := [] } before
    let snapshot := withElapsed saved monotonic
    let final := run saved after
    Transition.Meets step (ClockMoved snapshot) saved after →
      (restore {} snapshot final.ledger restoredAt).goal.map Goal.facts =
        final.goal.map Goal.facts := by
  intro saved snapshot final hclock
  have hafter : ∀ action ∈ after, action.2.ledgerFails = false := fun action hmem =>
    hledger action (List.mem_append_right _ hmem)
  have hsaved : Recorded saved :=
    run_recorded (.inl ⟨rfl, rfl⟩) fun action hmem =>
      hledger action (List.mem_append_left _ hmem)
  apply restore_facts (run_recorded hsaved hafter)
  exact Transition.invariant_foldl (Distinguished snapshot)
    (fun _ _ hdistinguished h => step_distinguished hdistinguished h.1 h.2)
    (.inl (withElapsed_facts saved monotonic).symm)
    ((Transition.meets_of_forall_mem hafter _).and hclock)

/-- A snapshot taken before usage is charged one second later is overruled by
the ledger. -/
theorem restore_after_run_later_usage :
    let created : Action := (.create "ship" none, { wall := 5, uuid := "g" })
    let charged : Action :=
      (.recordUsage "g" { inputTokens := 0, outputTokens := 10 }, { wall := 6 })
    let saved := run { goal := none, clock := 0, ledger := [] } [created]
    let final := run saved [charged]
    final.goal.map (·.tokensUsed) = some 10 ∧
      (restore {} (withElapsed saved 7) final.ledger 8).goal.map Goal.facts =
        final.goal.map Goal.facts := by
  intro created charged saved final
  refine ⟨by decide, ?_⟩
  exact restore_after_run 0 [created] [charged] 7 8 (by decide) (by decide)

/-- Usage charged within the clock resolution of the snapshot's commit is lost:
the stale snapshot carries the same timestamp as the record and wins. -/
theorem restore_same_reading_loses_usage :
    let created : Action := (.create "ship" none, { wall := 5, uuid := "g" })
    let charged : Action :=
      (.recordUsage "g" { inputTokens := 0, outputTokens := 10 }, { wall := 5 })
    let saved := run { goal := none, clock := 0, ledger := [] } [created]
    let final := run saved [charged]
    final.goal.map (·.tokensUsed) = some 10 ∧
      (restore {} (withElapsed saved 5) final.ledger 8).goal.map (·.tokensUsed) =
        some 0 := by
  decide

end ReuleauxCoder.GoalController
