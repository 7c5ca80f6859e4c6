import ReuleauxCoder.History.Ledger
import ReuleauxCoder.Library.Check

/-!
# The plan controller

`PlanController` keeps the execution checklist and the progress report of one
agent.  A call that passes its checks appends one event to the history ledger
and remembers a fingerprint of its data under the tool call identifier, so that
a repeated call is answered from memory and a conflicting one is refused.
`recover_from_ledger` rebuilds all of that from the recorded events.
-/

namespace ReuleauxCoder.PlanController

open Check PyText PyJson History

inductive PlanStatus where
  | pending
  | inProgress
  | completed
  deriving DecidableEq

def PlanStatus.text : PlanStatus → Text
  | .pending => lit "pending"
  | .inProgress => lit "in_progress"
  | .completed => lit "completed"

def PlanStatus.ofText? (text : Text) : Option PlanStatus :=
  if text = lit "pending" then some .pending
  else if text = lit "in_progress" then some .inProgress
  else if text = lit "completed" then some .completed
  else none

inductive ProgressPhase where
  | investigating
  | implementing
  | verifying
  | ready
  | blocked
  deriving DecidableEq

def ProgressPhase.text : ProgressPhase → Text
  | .investigating => lit "investigating"
  | .implementing => lit "implementing"
  | .verifying => lit "verifying"
  | .ready => lit "ready"
  | .blocked => lit "blocked"

def ProgressPhase.ofText? (text : Text) : Option ProgressPhase :=
  if text = lit "investigating" then some .investigating
  else if text = lit "implementing" then some .implementing
  else if text = lit "verifying" then some .verifying
  else if text = lit "ready" then some .ready
  else if text = lit "blocked" then some .blocked
  else none

@[simp]
theorem PlanStatus.ofText?_text (status : PlanStatus) :
    PlanStatus.ofText? status.text = some status := by
  cases status <;> simp [PlanStatus.ofText?, PlanStatus.text]

@[simp]
theorem ProgressPhase.ofText?_text (phase : ProgressPhase) :
    ProgressPhase.ofText? phase.text = some phase := by
  cases phase <;> simp [ProgressPhase.ofText?, ProgressPhase.text]

structure PlanItem where
  step : Text
  activeForm : Text
  status : PlanStatus
  deriving DecidableEq

/-- `asdict(item)`. -/
def PlanItem.toJson (item : PlanItem) : Json :=
  .obj [(lit "step", .str item.step), (lit "active_form", .str item.activeForm),
    (lit "status", .str item.status.text)]

def itemsJson (items : List PlanItem) : Json :=
  .arr (items.map PlanItem.toJson)

/-- The explanation and the event identifier are whatever JSON a restored
snapshot held. -/
structure PlanState where
  ownerAgentId : Text
  sessionGeneration : ℤ
  revision : ℤ := 0
  items : List PlanItem := []
  explanation : Json := .null
  eventId : Json := .null
  deriving DecidableEq

def PlanState.toDict (state : PlanState) : Dict :=
  [(lit "owner_agent_id", .str state.ownerAgentId),
    (lit "session_generation", .int state.sessionGeneration),
    (lit "revision", .int state.revision),
    (lit "items", itemsJson state.items),
    (lit "explanation", state.explanation),
    (lit "event_id", state.eventId)]

structure ProgressState where
  phase : ProgressPhase := .investigating
  summary : Text := []
  next : Option Text := none
  revision : ℤ := 0
  eventId : Json := .null
  deriving DecidableEq

def ProgressState.toDict (state : ProgressState) : Dict :=
  [(lit "phase", .str state.phase.text), (lit "summary", .str state.summary),
    (lit "next", optionalText state.next), (lit "revision", .int state.revision),
    (lit "event_id", state.eventId)]

structure Controller where
  state : PlanState
  progress : ProgressState := {}
  committedCalls : List (Text × (Text × ℤ)) := []
  deriving DecidableEq

/-- What the controller reads from its agent, and the controller itself. -/
structure Agent where
  agentId : Text
  sessionGeneration : ℤ
  world : World
  controller : Controller

def freshController (agentId : Text) (sessionGeneration : ℤ) : Controller where
  state := { ownerAgentId := agentId, sessionGeneration }

/-! ## Plan items -/

def maxItems : ℕ := 20

def maxItemChars : ℕ := 240

def maxSerializedChars : ℕ := 5000

def checkItem (builtins : Builtins) (index : ℕ) (raw : Json) : Except String PlanItem :=
  match raw with
  | .obj fields => do
      let step := strip (builtins.strOr (field fields "step") [])
      let activeForm := strip (builtins.strOr (field fields "active_form") step)
      let status := builtins.strOr (field fields "status") []
      require (step ≠ [] ∧ step.length ≤ maxItemChars)
        s!"plan[{index}].step must contain 1-{maxItemChars} characters"
      require (activeForm ≠ [] ∧ activeForm.length ≤ maxItemChars)
        s!"plan[{index}].active_form must contain 1-{maxItemChars} characters"
      match PlanStatus.ofText? status with
      | some status => .ok ⟨step, activeForm, status⟩
      | none =>
          .error s!"plan[{index}].status must be pending, in_progress, or completed"
  | _ => .error s!"plan[{index}] must be an object"

def checkItems (builtins : Builtins) : ℕ → List Json → Except String (List PlanItem)
  | _, [] => .ok []
  | index, raw :: rest => do
      let item ← checkItem builtins index raw
      let items ← checkItems builtins (index + 1) rest
      return item :: items

def activeCount (items : List PlanItem) : ℕ :=
  items.countP fun item => item.status = .inProgress

def validateItems (builtins : Builtins) (rawItems : Json) : Except String (List PlanItem) :=
  match rawItems with
  | .arr raws => do
      require (raws.length ≤ maxItems) s!"plan must contain at most {maxItems} items"
      let items ← checkItems builtins 0 raws
      require (activeCount items ≤ 1) "plan may contain at most one in_progress item"
      require ((dumps compact (itemsJson items)).length ≤ maxSerializedChars)
        "serialized plan exceeds 5000 characters"
      return items
  | _ => .error s!"plan must contain at most {maxItems} items"

/-- A text the item checks leave alone. -/
def WellFormedText (text : Text) : Prop :=
  text ≠ [] ∧ text.length ≤ maxItemChars ∧ Trimmed text

/-- What the item checks establish, in terms of the stored items alone. -/
structure WellFormed (items : List PlanItem) : Prop where
  count : items.length ≤ maxItems
  texts : ∀ item ∈ items, WellFormedText item.step ∧ WellFormedText item.activeForm
  active : activeCount items ≤ 1
  encoded : (dumps compact (itemsJson items)).length ≤ maxSerializedChars

theorem checkItem_wellFormed {builtins : Builtins} {index : ℕ} {raw : Json} {item : PlanItem}
    (hcheck : checkItem builtins index raw = .ok item) :
    WellFormedText item.step ∧ WellFormedText item.activeForm := by
  cases raw with
  | obj fields =>
      simp only [checkItem, bind_eq_ok, exists_unit, require_eq_ok] at hcheck
      obtain ⟨hstep, hactive, hstatus⟩ := hcheck
      split at hstatus
      · cases hstatus
        exact ⟨⟨hstep.1, hstep.2, trimmed_strip _⟩, ⟨hactive.1, hactive.2, trimmed_strip _⟩⟩
      · cases hstatus
  | _ => simp [checkItem] at hcheck

theorem checkItem_toJson (builtins : Builtins) (index : ℕ) {item : PlanItem}
    (hstep : WellFormedText item.step) (hactive : WellFormedText item.activeForm) :
    checkItem builtins index item.toJson = .ok item := by
  obtain ⟨hstep, hstepLength, hstepTrimmed⟩ := hstep
  obtain ⟨hactive, hactiveLength, hactiveTrimmed⟩ := hactive
  have hstatus : item.status.text ≠ [] := by
    cases item.status <;> decide
  simp [checkItem, PlanItem.toJson, field, lookup, Builtins.strOr, require, hstep, hactive, hstatus,
    strip_eq_self hstepTrimmed, strip_eq_self hactiveTrimmed, hstepLength, hactiveLength]

variable {items : List PlanItem}

theorem checkItems_wellFormed {builtins : Builtins} {index : ℕ} {raws : List Json}
    (hcheck : checkItems builtins index raws = .ok items) :
    items.length = raws.length ∧
      ∀ item ∈ items, WellFormedText item.step ∧ WellFormedText item.activeForm := by
  induction raws generalizing index items with
  | nil =>
      cases hcheck
      simp
  | cons raw rest ih =>
      simp only [checkItems, bind_eq_ok, pure_eq_ok] at hcheck
      obtain ⟨item, hitem, others, hothers, rfl⟩ := hcheck
      obtain ⟨hlength, htexts⟩ := ih hothers
      refine ⟨by simp [hlength], ?_⟩
      intro other hother
      rcases List.mem_cons.mp hother with rfl | hmem
      · exact checkItem_wellFormed hitem
      · exact htexts other hmem

theorem checkItems_toJson (builtins : Builtins) (index : ℕ)
    (htexts : ∀ item ∈ items, WellFormedText item.step ∧ WellFormedText item.activeForm) :
    checkItems builtins index (items.map PlanItem.toJson) = .ok items := by
  induction items generalizing index with
  | nil => rfl
  | cons item rest ih =>
      have hitem := htexts item List.mem_cons_self
      have hrest := ih (index + 1) fun other hmem => htexts other (List.mem_cons_of_mem _ hmem)
      simp [checkItems, checkItem_toJson builtins index hitem.1 hitem.2, hrest]

theorem validateItems_wellFormed {builtins : Builtins} {rawItems : Json}
    (hvalid : validateItems builtins rawItems = .ok items) : WellFormed items := by
  cases rawItems with
  | arr raws =>
      simp only [validateItems, bind_eq_ok, exists_unit, require_eq_ok, pure_eq_ok] at hvalid
      obtain ⟨hcount, checked, hchecked, hactive, hencoded, rfl⟩ := hvalid
      obtain ⟨hlength, htexts⟩ := checkItems_wellFormed hchecked
      exact ⟨hlength ▸ hcount, htexts, hactive, hencoded⟩
  | _ => simp [validateItems] at hvalid

/-- Stored items pass the checks again, unchanged. -/
theorem validateItems_itemsJson (builtins : Builtins) (hitems : WellFormed items) :
    validateItems builtins (itemsJson items) = .ok items := by
  change validateItems builtins (.arr (items.map PlanItem.toJson)) = .ok items
  simp only [validateItems, bind_eq_ok, exists_unit, require_eq_ok, pure_eq_ok, List.length_map]
  exact ⟨hitems.count, items, checkItems_toJson builtins 0 hitems.texts, hitems.active,
    hitems.encoded, rfl⟩

/-! ## Calls -/

/-- `(text or "").strip()[:500] or None`. -/
def boundedText (text : Option Text) : Option Text :=
  let bounded := (strip (text.getD [])).take 500
  if bounded = [] then none else some bounded

def fingerprint (items : List PlanItem) (explanation : Option Text) : Text :=
  dumps compact (Json.sortKeys (.obj
    [(lit "items", itemsJson items), (lit "explanation", optionalText explanation)]))

def progressFingerprint (phase summary next : Json) : Text :=
  dumps compact (.arr [phase, summary, next])

def planPayload (agentId : Text) (sessionGeneration revision : ℤ) (items : List PlanItem)
    (explanation : Option Text) (toolCallId : Text) : Dict :=
  [(lit "owner_agent_id", .str agentId), (lit "session_generation", .int sessionGeneration),
    (lit "revision", .int revision), (lit "items", itemsJson items),
    (lit "explanation", optionalText explanation), (lit "tool_call_id", .str toolCallId)]

def progressPayload (agentId : Text) (sessionGeneration revision : ℤ) (phase : ProgressPhase)
    (summary : Text) (next : Option Text) (toolCallId : Text) : Dict :=
  [(lit "owner_agent_id", .str agentId), (lit "session_generation", .int sessionGeneration),
    (lit "revision", .int revision), (lit "phase", .str phase.text),
    (lit "summary", .str summary), (lit "next", optionalText next),
    (lit "tool_call_id", .str toolCallId)]

inductive Answer where
  | valueError (message : String)
  | ledgerFailed
  | plan (state : PlanState) (changed : Bool)
  | progress (state : ProgressState) (changed : Bool)
  deriving DecidableEq

inductive Call where
  | update (rawItems : Json) (explanation : Option Text) (toolCallId : Text)
      (sessionGeneration : ℤ)
  | report (phase summary : Text) (nextStep : Option Text) (toolCallId : Text)
      (sessionGeneration : ℤ)
  deriving DecidableEq

/-- The ledger append of an accepted `update`. -/
def appendPlan (agent : Agent) (readings : Readings) (sessionGeneration : ℤ)
    (items : List PlanItem) (explanation : Option Text) (toolCallId : Text) : World × Outcome :=
  append readings readings.first agent.world (lit "plan_updated")
    (planPayload agent.agentId sessionGeneration (agent.controller.state.revision + 1) items
      explanation toolCallId) {}

/-- The agent after an accepted `update`. -/
def commitPlan (agent : Agent) (readings : Readings) (sessionGeneration : ℤ)
    (items : List PlanItem) (explanation : Option Text) (toolCallId : Text) : Agent :=
  let revision := agent.controller.state.revision + 1
  { agent with
    world := (appendPlan agent readings sessionGeneration items explanation toolCallId).1
    controller := { agent.controller with
      state := {
        ownerAgentId := agent.agentId
        sessionGeneration
        revision
        items
        explanation := optionalText explanation
        eventId := .str (eventId readings.first) }
      committedCalls := store toolCallId (fingerprint items explanation, revision)
        agent.controller.committedCalls } }

def update (builtins : Builtins) (agent : Agent) (readings : Readings) (rawItems : Json)
    (explanation : Option Text) (toolCallId : Text) (sessionGeneration : ℤ) : Agent × Answer :=
  match validateItems builtins rawItems with
  | .error message => (agent, .valueError message)
  | .ok items =>
      let explanation := boundedText explanation
      match lookup toolCallId agent.controller.committedCalls with
      | some (committed, _) =>
          if committed ≠ fingerprint items explanation then
            (agent, .valueError "tool_call_id was already committed with different plan data")
          else (agent, .plan agent.controller.state false)
      | none =>
          if sessionGeneration ≠ agent.sessionGeneration then
            (agent, .valueError "session generation changed before plan commit")
          else
            match appendPlan agent readings sessionGeneration items explanation toolCallId with
            | (_, .returned) =>
                let committed := commitPlan agent readings sessionGeneration items explanation
                  toolCallId
                (committed, .plan committed.controller.state true)
            | (world, _) => ({ agent with world }, .ledgerFailed)

/-- The ledger append of an accepted `report`. -/
def appendProgress (agent : Agent) (readings : Readings) (sessionGeneration : ℤ)
    (phase : ProgressPhase) (summary : Text) (next : Option Text) (toolCallId : Text) :
    World × Outcome :=
  append readings readings.first agent.world (lit "progress_reported")
    (progressPayload agent.agentId sessionGeneration (agent.controller.progress.revision + 1)
      phase summary next toolCallId) {}

/-- The agent after an accepted `report`. -/
def commitProgress (agent : Agent) (readings : Readings) (sessionGeneration : ℤ)
    (phase : ProgressPhase) (summary : Text) (next : Option Text) (toolCallId : Text) : Agent :=
  let revision := agent.controller.progress.revision + 1
  { agent with
    world := (appendProgress agent readings sessionGeneration phase summary next toolCallId).1
    controller := { agent.controller with
      progress := {
        phase
        summary
        next
        revision
        eventId := .str (eventId readings.first) }
      committedCalls := store toolCallId
        (progressFingerprint (.str phase.text) (.str summary) (optionalText next), revision)
        agent.controller.committedCalls } }

def report (agent : Agent) (readings : Readings) (phase summary : Text)
    (nextStep : Option Text) (toolCallId : Text) (sessionGeneration : ℤ) : Agent × Answer :=
  match ProgressPhase.ofText? phase with
  | none => (agent, .valueError "invalid progress phase")
  | some phase =>
      let summary := strip summary
      if summary = [] ∨ 500 < summary.length then
        (agent, .valueError "summary must contain 1-500 characters")
      else
        let next := boundedText nextStep
        match lookup toolCallId agent.controller.committedCalls with
        | some (committed, _) =>
            if committed ≠
                progressFingerprint (.str phase.text) (.str summary) (optionalText next) then
              (agent,
                .valueError "tool_call_id was already committed with different progress data")
            else (agent, .progress agent.controller.progress false)
        | none =>
            if sessionGeneration ≠ agent.sessionGeneration then
              (agent, .valueError "session generation changed before progress commit")
            else
              match appendProgress agent readings sessionGeneration phase summary next
                  toolCallId with
              | (_, .returned) =>
                  let committed := commitProgress agent readings sessionGeneration phase summary
                    next toolCallId
                  (committed, .progress committed.controller.progress true)
              | (world, _) => ({ agent with world }, .ledgerFailed)

abbrev Action := Call × Readings

def perform (builtins : Builtins) (agent : Agent) : Action → Agent × Answer
  | (.update rawItems explanation toolCallId sessionGeneration, readings) =>
      update builtins agent readings rawItems explanation toolCallId sessionGeneration
  | (.report phase summary nextStep toolCallId sessionGeneration, readings) =>
      report agent readings phase summary nextStep toolCallId sessionGeneration

def step (builtins : Builtins) (agent : Agent) (action : Action) : Agent :=
  (perform builtins agent action).1

/-- The answers of a sequence of calls. -/
def answers (builtins : Builtins) : Agent → List Action → List Answer
  | _, [] => []
  | agent, action :: rest =>
      (perform builtins agent action).2 :: answers builtins (step builtins agent action) rest

theorem update_cases (builtins : Builtins) (agent : Agent) (readings : Readings)
    (rawItems : Json) (explanation : Option Text) (toolCallId : Text) (sessionGeneration : ℤ) :
    let result := update builtins agent readings rawItems explanation toolCallId sessionGeneration
    result.1 = agent ∨ result.2 = .ledgerFailed ∨
      ∃ items, validateItems builtins rawItems = .ok items ∧
        result.1 = commitPlan agent readings agent.sessionGeneration items
          (boundedText explanation) toolCallId := by
  intro result
  simp only [result, update]
  split
  · exact Or.inl rfl
  · rename_i items hitems
    split
    · split <;> exact Or.inl rfl
    · split
      · exact Or.inl rfl
      · rename_i hgeneration
        rw [not_not] at hgeneration
        subst hgeneration
        split
        · exact Or.inr (Or.inr ⟨items, hitems, rfl⟩)
        · exact Or.inr (Or.inl rfl)

theorem report_cases (agent : Agent) (readings : Readings) (phase summary : Text)
    (nextStep : Option Text) (toolCallId : Text) (sessionGeneration : ℤ) :
    let result := report agent readings phase summary nextStep toolCallId sessionGeneration
    result.1 = agent ∨ result.2 = .ledgerFailed ∨
      ∃ parsed, strip summary ≠ [] ∧ (strip summary).length ≤ 500 ∧
        result.1 = commitProgress agent readings agent.sessionGeneration parsed (strip summary)
          (boundedText nextStep) toolCallId := by
  intro result
  simp only [result, report]
  split
  · exact Or.inl rfl
  · rename_i parsed _
    split
    · exact Or.inl rfl
    · rename_i hsummary
      rw [not_or, not_lt] at hsummary
      split
      · split <;> exact Or.inl rfl
      · split
        · exact Or.inl rfl
        · rename_i hgeneration
          rw [not_not] at hgeneration
          subst hgeneration
          split
          · exact Or.inr (Or.inr ⟨parsed, hsummary.1, hsummary.2, rfl⟩)
          · exact Or.inr (Or.inl rfl)

/-! ## A concrete agent -/

/-- Conversions that no recorded control event needs. -/
def plainBuiltins : Builtins where
  str _ := []
  int _ := none

/-- An agent without history. -/
def newAgent (agentId : Text) : Agent where
  agentId
  sessionGeneration := 0
  world := ⟨HistoryLedger.create [] 0 0 none (some agentId), fun _ => []⟩
  controller := freshController agentId 0

def singleStep : Json :=
  .arr [.obj [(lit "step", .str (lit " write the parser ")), (lit "status", .str (lit "pending"))]]

end ReuleauxCoder.PlanController
