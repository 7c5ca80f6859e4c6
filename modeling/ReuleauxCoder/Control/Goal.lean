import ReuleauxCoder.Library.Check
import ReuleauxCoder.Library.Text
import ReuleauxCoder.Library.Transition

/-!
# The session goal controller

`GoalController` keeps one persisted goal per session.  Every operation first
decides, from its arguments and the committed goal, whether to reject, to do
nothing or to commit a new goal; a commit appends a `goal_changed` event to the
history ledger, installs the goal and then publishes a snapshot outside the
lock.  The environment chooses clock readings, fresh identifiers and whether
the ledger append or the publication raises.
-/

namespace ReuleauxCoder.GoalController

open Check PyText

inductive GoalStatus where
  | active
  | paused
  | blocked
  | usageLimited
  | budgetLimited
  | complete
  deriving DecidableEq, Repr

/-- Membership of a status string in `GOAL_STATUSES`. -/
def GoalStatus.ofText? (text : Text) : Option GoalStatus :=
  if text = lit "active" then some .active
  else if text = lit "paused" then some .paused
  else if text = lit "blocked" then some .blocked
  else if text = lit "usage_limited" then some .usageLimited
  else if text = lit "budget_limited" then some .budgetLimited
  else if text = lit "complete" then some .complete
  else none

structure Goal where
  id : Text
  objective : Text
  status : GoalStatus := .active
  tokenBudget : Option ℤ := none
  tokensUsed : ℤ := 0
  estimatedRequests : ℤ := 0
  timeUsedSeconds : ℚ := 0
  createdAt : ℚ := 0
  updatedAt : ℚ := 0
  deriving DecidableEq

/-- What the goal reader of a ledger distinguishes. -/
inductive LedgerEvent where
  | goalChanged (goal : Option Goal)
  | runtimeReset
  | other
  deriving DecidableEq

structure Controller where
  goal : Option Goal := none
  clock : ℚ := 0
  ledger : List LedgerEvent := []
  deriving DecidableEq

/-- Everything one operation reads from its environment: `time.time()`, the two
`time.monotonic()` readings, `uuid4().hex`, and the failures of the ledger
append and of `_publish`. -/
structure Readings where
  wall : ℚ
  elapsed : ℚ := 0
  committed : ℚ := 0
  uuid : Text := []
  ledgerFails : Bool := false
  publishFails : Bool := false
  deriving DecidableEq

inductive Raised where
  | valueError (message : String)
  | ledger
  | publish
  deriving DecidableEq

/-- The usage record of one model request. -/
structure Usage where
  inputTokens : ℤ
  cachedInputTokens : Option ℤ := none
  outputTokens : ℤ
  estimated : Bool := false
  deriving DecidableEq

def withElapsed (controller : Controller) (monotonic : ℚ) : Option Goal :=
  match controller.goal with
  | some goal =>
      if goal.status = .active then
        some { goal with
          timeUsedSeconds := goal.timeUsedSeconds + monotonic - controller.clock }
      else some goal
  | none => none

/-! ## What an operation decides -/

def checkObjective (text : Text) : Except String Text := do
  let text := strip text
  require (text ≠ [] ∧ text.length ≤ 4000) "Goal objective must contain 1–4000 characters"
  return text

def validateBudget (value : Option ℤ) : Except String Unit :=
  require (∀ budget ∈ value, 0 < budget)
    "Token budget must be a positive integer or null (no limit)"

/-- The budget guard shared by `update` and `record_usage`. -/
def limitBudget (goal : Goal) : Goal :=
  if goal.status = .active ∧ goal.tokenBudget.any (fun budget => budget ≤ goal.tokensUsed) then
    { goal with status := .budgetLimited }
  else goal

def create (current : Option Goal) (objective : Text) (tokenBudget : Option ℤ)
    (readings : Readings) : Except String Goal := do
  let objective ← checkObjective objective
  validateBudget tokenBudget
  require (∀ goal ∈ current, goal.status = .complete)
    "An unfinished goal exists; edit, resume or clear it first"
  return { id := readings.uuid, objective, tokenBudget,
           createdAt := readings.wall, updatedAt := readings.wall }

structure UpdateArguments where
  objective : Option Text := none
  status : Option Text := none
  tokenBudget : Option ℤ := none
  changeBudget : Bool := false
  expectedGoal : Option (Text × Text) := none
  deriving DecidableEq

def checkStatus (status : Option Text) : Except String (Option GoalStatus) :=
  match status with
  | none => .ok none
  | some text =>
      match GoalStatus.ofText? text with
      | some status => .ok (some status)
      | none => .error "Invalid goal status"

def checkOptionalObjective (objective : Option Text) : Except String (Option Text) :=
  match objective with
  | none => .ok none
  | some text => (checkObjective text).map some

def update (current : Option Goal) (arguments : UpdateArguments)
    (readings : Readings) : Except String Goal := do
  let objective ← checkOptionalObjective arguments.objective
  let status ← checkStatus arguments.status
  (if arguments.changeBudget then validateBudget arguments.tokenBudget else .ok ())
  match current with
  | none => .error "No goal is set"
  | some goal => do
      require (∀ expected ∈ arguments.expectedGoal, (goal.id, goal.objective) = expected)
        "The goal changed since the model request; call get_goal and reassess it first"
      require (goal.status = .complete →
          objective = none ∧ (status = none ∨ status = some .complete))
        "Goal is complete; create a new goal"
      return limitBudget { goal with
        objective := objective.getD goal.objective
        status := status.getD goal.status
        tokenBudget := if arguments.changeBudget then arguments.tokenBudget
          else goal.tokenBudget
        updatedAt := readings.wall }

def stop (current : Option Goal) (status : GoalStatus) (readings : Readings) :
    Option Goal :=
  match current with
  | some goal =>
      if goal.status = .active then
        some { goal with status, updatedAt := readings.wall }
      else none
  | none => none

def recordUsage (current : Option Goal) (goalId : Text) (usage : Usage)
    (readings : Readings) : Option Goal :=
  match current with
  | some goal =>
      if goal.id = goalId then
        let tokens :=
          max 0 (usage.inputTokens - usage.cachedInputTokens.getD 0) + usage.outputTokens
        some (limitBudget { goal with
          tokensUsed := goal.tokensUsed + tokens
          estimatedRequests := goal.estimatedRequests + (if usage.estimated then 1 else 0)
          updatedAt := readings.wall })
      else none
  | none => none

inductive Operation where
  | create (objective : Text) (tokenBudget : Option ℤ)
  | update (arguments : UpdateArguments)
  | stop (status : GoalStatus)
  | clear
  | recordUsage (goalId : Text) (usage : Usage)
  deriving DecidableEq

abbrev Action := Operation × Readings

inductive Decision where
  | reject (message : String)
  | ignore
  | commit (goal : Option Goal)
  deriving DecidableEq

def Decision.ofExcept : Except String Goal → Decision
  | .ok goal => .commit (some goal)
  | .error message => .reject message

def Decision.ofOption : Option Goal → Decision
  | some goal => .commit (some goal)
  | none => .ignore

/-- The part of an operation before `_commit`: `create` looks at the committed
goal, the other operations at the goal with its elapsed time. -/
def decision (controller : Controller) (action : Action) : Decision :=
  let (operation, readings) := action
  let current := withElapsed controller readings.elapsed
  match operation with
  | .create objective tokenBudget =>
      .ofExcept (create controller.goal objective tokenBudget readings)
  | .update arguments => .ofExcept (update current arguments readings)
  | .stop status => .ofOption (stop current status readings)
  | .clear => .commit none
  | .recordUsage goalId usage => .ofOption (recordUsage current goalId usage readings)

/-! ## Committing and publishing -/

/-- `_commit`: the in-memory ledger keeps the event even when its sink write
raises, but the goal is installed only after the append returned. -/
def commit (controller : Controller) (goal : Option Goal) (readings : Readings) :
    Controller × Except Raised Unit :=
  let ledger := controller.ledger ++ [.goalChanged goal]
  if readings.ledgerFails then ({ controller with ledger }, .error .ledger)
  else ({ goal, clock := readings.committed, ledger }, .ok ())

def publish (readings : Readings) : Except Raised Unit :=
  if readings.publishFails then .error .publish else .ok ()

/-- One complete operation with its outcome. -/
def perform (controller : Controller) (action : Action) :
    Controller × Except Raised Unit :=
  match decision controller action with
  | .reject message => (controller, .error (.valueError message))
  | .ignore => (controller, .ok ())
  | .commit goal =>
      match commit controller goal action.2 with
      | (controller, .error raised) => (controller, .error raised)
      | (controller, .ok ()) => (controller, publish action.2)

def step (controller : Controller) (action : Action) : Controller :=
  (perform controller action).1

def run (controller : Controller) (actions : List Action) : Controller :=
  actions.foldl step controller

/-- Everything one step can do: leave the goal alone, or install exactly the
goal it decided on and record it. -/
theorem step_cases (controller : Controller) (action : Action) :
    (step controller action).goal = controller.goal ∧
        (step controller action).clock = controller.clock ∧
        ((∀ goal, decision controller action ≠ .commit goal) ∧
            (step controller action).ledger = controller.ledger ∨
          action.2.ledgerFails = true) ∨
      ∃ goal, decision controller action = .commit goal ∧
        action.2.ledgerFails = false ∧
        step controller action =
          { goal, clock := action.2.committed,
            ledger := controller.ledger ++ [.goalChanged goal] } := by
  cases hdecision : decision controller action with
  | reject message => simp [step, perform, hdecision]
  | ignore => simp [step, perform, hdecision]
  | commit goal =>
      cases hledger : action.2.ledgerFails <;>
        simp [step, perform, hdecision, commit, hledger]

/-! ## The budget invariant -/

/-- An active goal still has budget left. -/
def WithinBudget (goal : Goal) : Prop :=
  goal.status = .active → ∀ budget ∈ goal.tokenBudget, goal.tokensUsed < budget

/-- `later` continues the same goal: usage only grows, and a complete goal keeps
its status and objective. -/
structure Continues (goal later : Goal) : Prop where
  id_eq : later.id = goal.id
  tokensUsed_le : goal.tokensUsed ≤ later.tokensUsed
  complete_status : goal.status = .complete → later.status = .complete
  complete_objective : goal.status = .complete → later.objective = goal.objective

theorem Continues.refl (goal : Goal) : Continues goal goal :=
  ⟨rfl, le_rfl, id, fun _ => rfl⟩

theorem Continues.trans {first second third : Goal} (hleft : Continues first second)
    (hright : Continues second third) : Continues first third where
  id_eq := hright.id_eq.trans hleft.id_eq
  tokensUsed_le := hleft.tokensUsed_le.trans hright.tokensUsed_le
  complete_status := fun h => hright.complete_status (hleft.complete_status h)
  complete_objective := fun h =>
    (hright.complete_objective (hleft.complete_status h)).trans (hleft.complete_objective h)

theorem withinBudget_limitBudget (goal : Goal) : WithinBudget (limitBudget goal) := by
  intro hactive budget hbudget
  by_cases hlimited : goal.status = .active ∧
      goal.tokenBudget.any (fun budget => budget ≤ goal.tokensUsed)
  · rw [limitBudget, if_pos hlimited] at hactive
    cases hactive
  · rw [limitBudget, if_neg hlimited] at hactive hbudget ⊢
    by_contra hspent
    apply hlimited
    rw [Option.mem_def] at hbudget
    simp [hactive, hbudget, not_lt.mp hspent]

@[simp]
theorem limitBudget_id (goal : Goal) : (limitBudget goal).id = goal.id := by
  unfold limitBudget
  split <;> rfl

@[simp]
theorem limitBudget_objective (goal : Goal) :
    (limitBudget goal).objective = goal.objective := by
  unfold limitBudget
  split <;> rfl

@[simp]
theorem limitBudget_tokensUsed (goal : Goal) :
    (limitBudget goal).tokensUsed = goal.tokensUsed := by
  unfold limitBudget
  split <;> rfl

@[simp]
theorem limitBudget_updatedAt (goal : Goal) :
    (limitBudget goal).updatedAt = goal.updatedAt := by
  unfold limitBudget
  split <;> rfl

theorem limitBudget_complete {goal : Goal} (hcomplete : goal.status = .complete) :
    (limitBudget goal).status = .complete := by
  simp [limitBudget, hcomplete]

/-- The operations the budget invariant speaks about: `stop` is called with a
non-active status and usage records hold non-negative counts. -/
def Operation.Legal : Operation → Prop
  | .stop status => status ≠ .active
  | .recordUsage _ usage =>
      0 ≤ usage.inputTokens ∧ (∀ cached ∈ usage.cachedInputTokens, 0 ≤ cached) ∧
        0 ≤ usage.outputTokens
  | _ => True

/-- `create` and `clear` are the operations that may replace the goal. -/
def Operation.replaces : Operation → Bool
  | .create _ _ => true
  | .clear => true
  | _ => false

variable {controller : Controller} {current : Option Goal} {readings : Readings}

theorem withElapsed_eq_some {monotonic : ℚ} {current : Goal}
    (hcurrent : withElapsed controller monotonic = some current) :
    ∃ goal, controller.goal = some goal ∧
      current = { goal with timeUsedSeconds := current.timeUsedSeconds } := by
  cases hgoal : controller.goal with
  | none => simp [withElapsed, hgoal] at hcurrent
  | some goal =>
      refine ⟨goal, rfl, ?_⟩
      simp only [withElapsed, hgoal] at hcurrent
      split at hcurrent <;> (cases hcurrent; rfl)

theorem create_eq_ok {objective : Text} {tokenBudget : Option ℤ} {goal : Goal}
    (hcreate : create current objective tokenBudget readings = .ok goal) :
    goal.id = readings.uuid ∧ goal.updatedAt = readings.wall ∧ goal.tokensUsed = 0 ∧
      ∀ budget ∈ goal.tokenBudget, 0 < budget := by
  simp only [create, validateBudget, bind_eq_ok, exists_unit, require_eq_ok,
    pure_eq_ok] at hcreate
  obtain ⟨text, -, hbudget, -, rfl⟩ := hcreate
  exact ⟨rfl, rfl, rfl, hbudget⟩

variable {later : Goal} {action : Action}

/-- What an accepted `update` commits. -/
theorem update_eq_ok {arguments : UpdateArguments}
    (hupdate : update current arguments readings = .ok later) :
    ∃ goal, current = some goal ∧ later.updatedAt = readings.wall ∧
      Continues goal later ∧ WithinBudget later := by
  simp only [update, bind_eq_ok, exists_unit] at hupdate
  obtain ⟨objective, -, status, -, -, hupdate⟩ := hupdate
  cases current with
  | none => simp at hupdate
  | some goal =>
      simp only [bind_eq_ok, exists_unit, require_eq_ok, pure_eq_ok] at hupdate
      obtain ⟨-, hcomplete, rfl⟩ := hupdate
      refine ⟨goal, rfl, by simp, ?_, withinBudget_limitBudget _⟩
      refine ⟨by simp, by simp, fun hstatus => ?_, fun hstatus => ?_⟩
      · apply limitBudget_complete
        obtain ⟨-, hnone | hsome⟩ := hcomplete hstatus
        · simp [hnone, hstatus]
        · simp [hsome]
      · obtain ⟨hobjective, -⟩ := hcomplete hstatus
        simp [hobjective]

theorem stop_eq_some {status : GoalStatus} (hstop : stop current status readings = some later)
    (hstatus : status ≠ .active) :
    ∃ goal, current = some goal ∧ later.updatedAt = readings.wall ∧
      Continues goal later ∧ WithinBudget later := by
  cases current with
  | none => simp [stop] at hstop
  | some goal =>
      by_cases hactive : goal.status = .active
      · simp only [stop, hactive, if_true, Option.some.injEq] at hstop
        subst hstop
        refine ⟨goal, rfl, rfl, ⟨rfl, le_rfl, ?_, fun _ => rfl⟩, ?_⟩
        · simp [hactive]
        · exact fun hstill => absurd hstill hstatus
      · simp [stop, hactive] at hstop

theorem recordUsage_eq_some {goalId : Text} {usage : Usage}
    (hrecord : recordUsage current goalId usage readings = some later)
    (houtput : 0 ≤ usage.outputTokens) :
    ∃ goal, current = some goal ∧ later.updatedAt = readings.wall ∧
      Continues goal later ∧ WithinBudget later := by
  cases current with
  | none => simp [recordUsage] at hrecord
  | some goal =>
      by_cases hid : goal.id = goalId
      · simp only [recordUsage, hid, if_true, Option.some.injEq] at hrecord
        subst hrecord
        refine ⟨goal, rfl, by simp, ?_, withinBudget_limitBudget _⟩
        refine ⟨by simp [hid], ?_, fun hstatus => ?_, fun _ => by simp⟩
        · have hinput :
              0 ≤ max 0 (usage.inputTokens - usage.cachedInputTokens.getD 0) :=
            le_max_left _ _
          rw [limitBudget_tokensUsed]
          dsimp only
          omega
        · exact limitBudget_complete hstatus
      · simp [recordUsage, hid] at hrecord

/-- A decided commit of a legal operation either replaces the goal by an
operation that may do so, or continues the committed one. -/
theorem decision_eq_commit {committed : Option Goal} (hlegal : action.1.Legal)
    (hdecision : decision controller action = .commit committed) :
    (∀ goal ∈ committed, WithinBudget goal) ∧
      (action.1.replaces = true ∨
        ∃ goal later, controller.goal = some goal ∧ committed = some later ∧
          Continues goal later) := by
  obtain ⟨operation, readings⟩ := action
  have hcontinue : ∀ {later : Goal},
      (∃ goal, withElapsed controller readings.elapsed = some goal ∧
        later.updatedAt = readings.wall ∧ Continues goal later ∧ WithinBudget later) →
      (∀ goal ∈ some later, WithinBudget goal) ∧
        ∃ goal later', controller.goal = some goal ∧ some later = some later' ∧
          Continues goal later' := by
    rintro later ⟨current, hcurrent, -, hcontinues, hbudget⟩
    obtain ⟨goal, hgoal, heq⟩ := withElapsed_eq_some hcurrent
    refine ⟨by simpa using hbudget, goal, later, hgoal, rfl, ?_⟩
    rw [heq] at hcontinues
    exact ⟨hcontinues.1, hcontinues.2, hcontinues.3, hcontinues.4⟩
  cases operation with
  | create objective tokenBudget =>
      refine ⟨?_, .inl rfl⟩
      intro goal hgoal
      cases hcreate : create controller.goal objective tokenBudget readings with
      | error message => simp [decision, hcreate, Decision.ofExcept] at hdecision
      | ok created =>
          simp only [decision, hcreate, Decision.ofExcept, Decision.commit.injEq] at hdecision
          subst hdecision
          cases hgoal
          obtain ⟨-, -, hused, hpositive⟩ := create_eq_ok hcreate
          intro _ budget hbudget
          rw [hused]
          exact hpositive budget hbudget
  | update arguments =>
      cases hupdate : update (withElapsed controller readings.elapsed) arguments readings with
      | error message => simp [decision, hupdate, Decision.ofExcept] at hdecision
      | ok later =>
          simp only [decision, hupdate, Decision.ofExcept, Decision.commit.injEq] at hdecision
          subst hdecision
          obtain ⟨hbudget, hcontinues⟩ := hcontinue (update_eq_ok hupdate)
          exact ⟨hbudget, .inr hcontinues⟩
  | stop status =>
      cases hstop : stop (withElapsed controller readings.elapsed) status readings with
      | none => simp [decision, hstop, Decision.ofOption] at hdecision
      | some later =>
          simp only [decision, hstop, Decision.ofOption, Decision.commit.injEq] at hdecision
          subst hdecision
          obtain ⟨hbudget, hcontinues⟩ := hcontinue (stop_eq_some hstop hlegal)
          exact ⟨hbudget, .inr hcontinues⟩
  | clear =>
      simp only [decision, Decision.commit.injEq] at hdecision
      subst hdecision
      exact ⟨by simp, .inl rfl⟩
  | recordUsage goalId usage =>
      cases hrecord :
          recordUsage (withElapsed controller readings.elapsed) goalId usage readings with
      | none => simp [decision, hrecord, Decision.ofOption] at hdecision
      | some later =>
          simp only [decision, hrecord, Decision.ofOption, Decision.commit.injEq] at hdecision
          subst hdecision
          obtain ⟨hbudget, hcontinues⟩ := hcontinue (recordUsage_eq_some hrecord hlegal.2.2)
          exact ⟨hbudget, .inr hcontinues⟩

/-! ## Whole runs -/

/-- The action installs a new goal or clears the old one. -/
def replacesGoal (controller : Controller) (action : Action) : Bool :=
  action.1.replaces && !action.2.ledgerFails &&
    match decision controller action with
    | .commit _ => true
    | _ => false

/-- Continuation of whatever goal there is. -/
def ContinuesGoal : Option Goal → Option Goal → Prop
  | none, later => later = none
  | some goal, later => ∃ next, later = some next ∧ Continues goal next

theorem continuesGoal_refl (goal : Option Goal) : ContinuesGoal goal goal := by
  cases goal with
  | none => rfl
  | some goal => exact ⟨goal, rfl, .refl goal⟩

theorem continuesGoal_trans {first second third : Option Goal}
    (hleft : ContinuesGoal first second) (hright : ContinuesGoal second third) :
    ContinuesGoal first third := by
  cases first with
  | none =>
      rw [ContinuesGoal] at hleft
      subst hleft
      exact hright
  | some goal =>
      obtain ⟨middle, rfl, hgoal⟩ := hleft
      obtain ⟨last, rfl, hmiddle⟩ := hright
      exact ⟨last, rfl, hgoal.trans hmiddle⟩

/-- No committed goal is active with its budget used up. -/
def Solvent (controller : Controller) : Prop :=
  ∀ goal ∈ controller.goal, WithinBudget goal

/-- No operation commits an active goal whose budget is used up. -/
theorem step_solvent (hsolvent : Solvent controller) (hlegal : action.1.Legal) :
    Solvent (step controller action) := by
  obtain ⟨hsame, -, -⟩ | ⟨committed, hdecision, -, hstep⟩ := step_cases controller action
  · rwa [Solvent, hsame]
  · rw [hstep]
    exact (decision_eq_commit hlegal hdecision).1

/-- By induction on the operations, failing ones among them. -/
theorem run_solvent {actions : List Action} (hsolvent : Solvent controller)
    (hlegal : ∀ action ∈ actions, action.1.Legal) : Solvent (run controller actions) :=
  Transition.invariant_foldl Solvent (fun _ _ => step_solvent) hsolvent
    (Transition.meets_of_forall_mem hlegal _)

theorem step_continuesGoal (hlegal : action.1.Legal)
    (hkeeps : replacesGoal controller action = false) :
    ContinuesGoal controller.goal (step controller action).goal := by
  obtain ⟨hsame, -, -⟩ | ⟨committed, hdecision, hledger, hstep⟩ :=
    step_cases controller action
  · rw [hsame]
    exact continuesGoal_refl _
  · rw [hstep]
    obtain ⟨-, hreplaces | ⟨goal, later, hgoal, rfl, hcontinues⟩⟩ :=
      decision_eq_commit hlegal hdecision
    · simp [replacesGoal, hreplaces, hledger, hdecision] at hkeeps
    · rw [hgoal]
      exact ⟨later, rfl, hcontinues⟩

/-- An operation that raises before its commit has taken effect changes nothing
but possibly the in-memory ledger; one whose publication raises has committed. -/
theorem perform_raised {raised : Raised} (hraised : (perform controller action).2 = .error raised) :
    (raised ≠ .publish → (perform controller action).1.goal = controller.goal) ∧
      (raised = .publish →
        decision controller action = .commit (perform controller action).1.goal ∧
          (perform controller action).1.ledger =
            controller.ledger ++ [.goalChanged (perform controller action).1.goal]) := by
  cases hdecision : decision controller action with
  | reject message =>
      simp only [perform, hdecision, Except.error.injEq] at hraised ⊢
      subst hraised
      simp
  | ignore => simp [perform, hdecision] at hraised
  | commit goal =>
      cases hledger : action.2.ledgerFails with
      | true =>
          simp only [perform, hdecision, commit, hledger, if_true,
            Except.error.injEq] at hraised ⊢
          subst hraised
          simp
      | false =>
          cases hpublish : action.2.publishFails with
          | true =>
              simp [perform, hdecision, commit, publish, hledger, hpublish] at hraised ⊢
              simp [hraised]
          | false => simp [perform, hdecision, commit, publish, hledger, hpublish] at hraised

/-- Budget and terminal safety of every reachable goal state.  `history` reaches
an arbitrary state and `later` continues from it. -/
theorem run_budget_terminal_safe (clock : ℚ) (ledger : List LedgerEvent)
    (history later : List Action)
    (hlegal : ∀ action ∈ history ++ later, action.1.Legal) :
    let reached := run { goal := none, clock, ledger } history
    let final := run reached later
    Solvent final ∧
      (Transition.Meets step (fun controller action => replacesGoal controller action = false)
          reached later →
        ContinuesGoal reached.goal final.goal) ∧
      ∀ action raised, (perform final action).2 = .error raised →
        (raised ≠ .publish → (perform final action).1.goal = final.goal) ∧
          (raised = .publish →
            decision final action = .commit (perform final action).1.goal ∧
              (perform final action).1.ledger =
                final.ledger ++ [.goalChanged (perform final action).1.goal]) := by
  intro reached final
  have hlater : ∀ action ∈ later, action.1.Legal := fun action hmem =>
    hlegal action (List.mem_append_right _ hmem)
  refine ⟨?_, ?_, fun action raised hraised => perform_raised hraised⟩
  · refine run_solvent (run_solvent ?_ fun action hmem => ?_) hlater
    · simp [Solvent]
    · exact hlegal action (List.mem_append_left _ hmem)
  · intro hkeeps
    exact Transition.related_foldl
      (fun left right => ContinuesGoal left.goal right.goal)
      (fun _ => continuesGoal_refl _) (fun _ _ _ => continuesGoal_trans)
      (fun _ _ h => step_continuesGoal h.1 h.2)
      ((Transition.meets_of_forall_mem hlater _).and hkeeps)

/-- The run that creates a goal, spends its budget and keeps charging it. -/
theorem run_budget_terminal_safe_spent :
    let created : Action := (.create "ship" (some 5), { wall := 1, uuid := "g" })
    let spent : Action := (.recordUsage "g" { inputTokens := 4, outputTokens := 3 }, { wall := 2 })
    let reached := run { goal := none, clock := 0, ledger := [] } [created]
    reached.goal.map (·.status) = some .active ∧
      (run reached [spent]).goal.map (fun goal => (goal.status, goal.tokensUsed)) =
        some (.budgetLimited, 7) ∧
      ContinuesGoal reached.goal (run reached [spent]).goal := by
  intro created spent reached
  refine ⟨by decide, by decide, ?_⟩
  refine (run_budget_terminal_safe 0 [] [created] [spent] ?_).2.1 ?_
  · simp [created, spent, Operation.Legal]
  · decide

/-- Publishing happens after the commit, so its failure does not undo it. -/
theorem create_publish_failure_keeps_commit :
    let action : Action := (.create "ship" none, { wall := 1, uuid := "g", publishFails := true })
    (perform {} action).2 = .error .publish ∧
      (perform {} action).1.goal.map (·.objective) = some "ship" ∧
      ({} : Controller).goal = none := by
  decide

end ReuleauxCoder.GoalController
