import ReuleauxCoder.Control.Plan
import ReuleauxCoder.Library.Transition

/-!
# Recovery of the plan controller

`recover_from_ledger` takes the last plan and progress events of the current
generation as the state, and recomputes from every event the fingerprint its
call was remembered under.  Each accepted call extends the recovered controller
exactly as it extends the live one, as long as the recomputation sees the data
the call saw: the tool call identifier must not be empty, and cutting the
explanation at its limit must not expose white space, which the recomputation
strips away.
-/

namespace ReuleauxCoder.PlanController

open Check PyText PyJson History Transition

/-! ## `recover_from_ledger` -/

/-- `list(value or [])`. -/
def listOr (value : Json) : Except String (List Json) :=
  if value.truthy then
    match listOf value with
    | some items => .ok items
    | none => .error "object is not iterable"
  else .ok []

def toIntOr (builtins : Builtins) (value : Json) : Except String ℤ :=
  match builtins.toInt value with
  | some number => .ok number
  | none => .error "invalid integer"

/-- `text or None`. -/
def orNone (text : Text) : Option Text :=
  if text = [] then none else some text

def restorePlan (builtins : Builtins) (agentId : Text) (sessionGeneration : ℤ)
    (plan : Option Dict) : Except String PlanState :=
  match plan with
  | none | some [] => .ok { ownerAgentId := agentId, sessionGeneration }
  | some plan => do
      let raws ← listOr (field plan "items")
      let items ← validateItems builtins (.arr raws)
      let revision ← toIntOr builtins ((lookup (lit "revision") plan).getD (.int 0))
      return {
        ownerAgentId := agentId
        sessionGeneration
        revision := max 0 revision
        items
        explanation := field plan "explanation"
        eventId := field plan "event_id" }

def restoreProgress (builtins : Builtins) (progress : Option Dict) :
    Except String ProgressState :=
  match progress with
  | none | some [] => .ok {}
  | some progress => do
      let phase := builtins.strOr (field progress "phase") (lit "investigating")
      let revision ← toIntOr builtins ((lookup (lit "revision") progress).getD (.int 0))
      return {
        phase := (ProgressPhase.ofText? phase).getD .investigating
        summary := (builtins.strOr (field progress "summary") []).take 500
        next := orNone ((builtins.strOr (field progress "next") []).take 500)
        revision := max 0 revision
        eventId := field progress "event_id" }

def restore (builtins : Builtins) (agent : Agent) (plan progress : Option Dict) :
    Except String Controller := do
  let state ← restorePlan builtins agent.agentId agent.sessionGeneration plan
  let progress ← restoreProgress builtins progress
  return { state, progress }

/-- The last event of a kind in one generation. -/
def lastEvent (sessionGeneration : ℤ) (kind : String) (events : List HistoryEvent) :
    Option HistoryEvent :=
  events.foldl (fun found event =>
    if event.sessionGeneration = sessionGeneration ∧ event.kind = lit kind then some event
    else found) none

def recoveredPlan (event : HistoryEvent) : Dict :=
  [(lit "revision", (lookup (lit "revision") event.payload).getD (.int 0)),
    (lit "items", (lookup (lit "items") event.payload).getD (.arr [])),
    (lit "explanation", field event.payload "explanation"),
    (lit "event_id", .str event.eventId)]

def recoveredProgress (event : HistoryEvent) : Dict :=
  [(lit "revision", (lookup (lit "revision") event.payload).getD (.int 0)),
    (lit "phase", field event.payload "phase"),
    (lit "summary", field event.payload "summary"),
    (lit "next", field event.payload "next"),
    (lit "event_id", .str event.eventId)]

/-- `int(payload.get("revision") or 0)`. -/
def recoveredRevision (builtins : Builtins) (payload : Dict) : Except String ℤ :=
  if (field payload "revision").truthy then toIntOr builtins (field payload "revision") else .ok 0

def recoverCall (builtins : Builtins) (sessionGeneration : ℤ)
    (calls : List (Text × (Text × ℤ))) (event : HistoryEvent) :
    Except String (List (Text × (Text × ℤ))) :=
  if event.sessionGeneration ≠ sessionGeneration then .ok calls
  else
    let toolCallId := builtins.strOr (field event.payload "tool_call_id") []
    if toolCallId = [] then .ok calls
    else if event.kind = lit "plan_updated" then do
      let raws ← listOr (field event.payload "items")
      let items ← validateItems builtins (.arr raws)
      let explanation := orNone (strip (builtins.strOr (field event.payload "explanation") []))
      let revision ← recoveredRevision builtins event.payload
      return store toolCallId (fingerprint items explanation, revision) calls
    else if event.kind = lit "progress_reported" then do
      let revision ← recoveredRevision builtins event.payload
      return store toolCallId (progressFingerprint (field event.payload "phase")
        (field event.payload "summary") (field event.payload "next"), revision) calls
    else .ok calls

def recoverCalls (builtins : Builtins) (sessionGeneration : ℤ)
    (calls : List (Text × (Text × ℤ))) (events : List HistoryEvent) :
    Except String (List (Text × (Text × ℤ))) :=
  match events with
  | [] => .ok calls
  | event :: rest => do
      let calls ← recoverCall builtins sessionGeneration calls event
      recoverCalls builtins sessionGeneration calls rest

def recoverFromLedger (builtins : Builtins) (agent : Agent) : Except String Controller := do
  let events := agent.world.ledger.events
  let restored ← restore builtins agent
    ((lastEvent agent.sessionGeneration "plan_updated" events).map recoveredPlan)
    ((lastEvent agent.sessionGeneration "progress_reported" events).map recoveredProgress)
  let committedCalls ← recoverCalls builtins agent.sessionGeneration [] events
  return { restored with committedCalls }

/-! ## Recovery of one more event -/

theorem lastEvent_append (sessionGeneration : ℤ) (kind : String) (events : List HistoryEvent)
    (event : HistoryEvent) :
    lastEvent sessionGeneration kind (events ++ [event]) =
      if event.sessionGeneration = sessionGeneration ∧ event.kind = lit kind then some event
      else lastEvent sessionGeneration kind events := by
  simp [lastEvent]

theorem recoverCalls_append (builtins : Builtins) (sessionGeneration : ℤ)
    (calls : List (Text × (Text × ℤ))) (events : List HistoryEvent) (event : HistoryEvent) :
    recoverCalls builtins sessionGeneration calls (events ++ [event]) =
      (do
        let calls ← recoverCalls builtins sessionGeneration calls events
        recoverCall builtins sessionGeneration calls event) := by
  induction events generalizing calls with
  | nil =>
      exact bind_pure (recoverCall builtins sessionGeneration calls event)
  | cons first rest ih =>
      simp only [List.cons_append, recoverCalls, ih]
      cases recoverCall builtins sessionGeneration calls first <;> rfl

theorem listOr_itemsJson (items : List PlanItem) :
    listOr (itemsJson items) = .ok (items.map PlanItem.toJson) := by
  cases items with
  | nil => rfl
  | cons item rest => simp [listOr, itemsJson, Json.truthy, listOf]

@[simp]
theorem toIntOr_int (builtins : Builtins) (value : ℤ) :
    toIntOr builtins (.int value) = .ok value := rfl

/-- Reading a stored optional text back, when stripping leaves it alone. -/
theorem orNone_strip_boundedText (builtins : Builtins) {text : Option Text}
    (htrimmed : Trimmed ((strip (text.getD [])).take 500)) :
    orNone (strip (builtins.strOr (optionalText (boundedText text)) [])) = boundedText text := by
  unfold boundedText
  simp only []
  by_cases hempty : (strip (text.getD [])).take 500 = []
  · simp [hempty, optionalText, Builtins.strOr, Json.truthy, orNone]
  · simp only [hempty, if_false, optionalText, Builtins.strOr, strip_eq_self htrimmed, orNone]

/-- Reading a stored next step back. -/
theorem orNone_take_boundedText (builtins : Builtins) (text : Option Text) :
    orNone ((builtins.strOr (optionalText (boundedText text)) []).take 500) =
      boundedText text := by
  unfold boundedText
  simp only []
  by_cases hempty : (strip (text.getD [])).take 500 = []
  · simp [hempty, optionalText, Builtins.strOr, Json.truthy, orNone]
  · simp only [hempty, if_false, optionalText, Builtins.strOr, List.take_take, min_self, orNone]

variable {event : HistoryEvent} {sessionGeneration : ℤ} {toolCallId : Text}

variable {agentId summary : Text} {explanation : Option Text} {items : List PlanItem} {revision : ℤ}
  {phase : ProgressPhase}

theorem restorePlan_planPayload (builtins : Builtins)
    (hpayload : event.payload = planPayload agentId sessionGeneration revision items
      explanation toolCallId) (hitems : WellFormed items) (hrevision : 0 ≤ revision) :
    restorePlan builtins agentId sessionGeneration (some (recoveredPlan event)) = .ok {
      ownerAgentId := agentId
      sessionGeneration
      revision
      items
      explanation := optionalText explanation
      eventId := .str event.eventId } := by
  have hvalid : validateItems builtins (.arr (items.map PlanItem.toJson)) = .ok items :=
    validateItems_itemsJson builtins hitems
  simp [restorePlan, recoveredPlan, hpayload, planPayload, field, lookup, listOr_itemsJson, hvalid,
    hrevision]

theorem recoverCall_planPayload (builtins : Builtins) (calls : List (Text × (Text × ℤ)))
    (hcurrent : event.sessionGeneration = sessionGeneration)
    (hkind : event.kind = lit "plan_updated")
    (hpayload : event.payload = planPayload agentId sessionGeneration revision items
      (boundedText explanation) toolCallId) (hitems : WellFormed items) (hrevision : 0 < revision)
    (hcall : toolCallId ≠ []) (htrimmed : Trimmed ((strip (explanation.getD [])).take 500)) :
    recoverCall builtins sessionGeneration calls event = .ok (store toolCallId
      (fingerprint items (boundedText explanation), revision) calls) := by
  have hvalid : validateItems builtins (.arr (items.map PlanItem.toJson)) = .ok items :=
    validateItems_itemsJson builtins hitems
  have hid : builtins.strOr (.str toolCallId) [] = toolCallId := by
    simp [Builtins.strOr, hcall]
  have htruthy : (Json.int revision).truthy = true := by
    simpa [Json.truthy] using hrevision.ne'
  simp [recoverCall, recoveredRevision, hcurrent, hkind, hpayload, planPayload, field, lookup,
    listOr_itemsJson, hvalid, hid, hcall, htruthy, orNone_strip_boundedText builtins htrimmed]

theorem restoreProgress_progressPayload (builtins : Builtins) {nextStep : Option Text}
    (hpayload : event.payload = progressPayload agentId sessionGeneration revision phase summary
      (boundedText nextStep) toolCallId) (hsummary : summary ≠ []) (hlength : summary.length ≤ 500)
    (hrevision : 0 ≤ revision) :
    restoreProgress builtins (some (recoveredProgress event)) = .ok {
      phase
      summary
      next := boundedText nextStep
      revision
      eventId := .str event.eventId } := by
  have hphase : builtins.strOr (.str phase.text) (lit "investigating") = phase.text := by
    cases phase <;> rfl
  have htext : (builtins.strOr (.str summary) []).take 500 = summary := by
    simp [Builtins.strOr, hsummary, hlength]
  simp [restoreProgress, recoveredProgress, hpayload, progressPayload, field, lookup, hphase, htext,
    orNone_take_boundedText, hrevision]

theorem recoverCall_progressPayload (builtins : Builtins) {next : Option Text}
    (calls : List (Text × (Text × ℤ))) (hcurrent : event.sessionGeneration = sessionGeneration)
    (hkind : event.kind = lit "progress_reported")
    (hpayload : event.payload = progressPayload agentId sessionGeneration revision phase
      summary next toolCallId) (hrevision : 0 < revision) (hcall : toolCallId ≠ []) :
    recoverCall builtins sessionGeneration calls event = .ok (store toolCallId
      (progressFingerprint (.str phase.text) (.str summary) (optionalText next), revision)
      calls) := by
  have hid : builtins.strOr (.str toolCallId) [] = toolCallId := by
    simp [Builtins.strOr, hcall]
  have htruthy : (Json.int revision).truthy = true := by
    simpa [Json.truthy] using hrevision.ne'
  simp [recoverCall, recoveredRevision, hcurrent, hkind, hpayload, progressPayload, field, lookup,
    hid, hcall, htruthy]

/-! ## The invariant -/

/-- Recovery from the ledger gives the live controller. -/
structure Recovers (builtins : Builtins) (agent : Agent) : Prop where
  generation : agent.world.ledger.generation = agent.sessionGeneration
  planRevision : 0 ≤ agent.controller.state.revision
  progressRevision : 0 ≤ agent.controller.progress.revision
  plan : restorePlan builtins agent.agentId agent.sessionGeneration
    ((lastEvent agent.sessionGeneration "plan_updated" agent.world.ledger.events).map
      recoveredPlan) = .ok agent.controller.state
  progress : restoreProgress builtins
    ((lastEvent agent.sessionGeneration "progress_reported" agent.world.ledger.events).map
      recoveredProgress) = .ok agent.controller.progress
  calls : recoverCalls builtins agent.sessionGeneration [] agent.world.ledger.events =
    .ok agent.controller.committedCalls

variable {agent : Agent} {builtins : Builtins}

theorem recovers_commitPlan (readings : Readings) (hrecovers : Recovers builtins agent)
    (hitems : WellFormed items) (hcall : toolCallId ≠ [])
    (htrimmed : Trimmed ((strip (explanation.getD [])).take 500)) :
    Recovers builtins (commitPlan agent readings agent.sessionGeneration items
      (boundedText explanation) toolCallId) := by
  have hrevision := hrecovers.planRevision
  generalize hpayload : planPayload agent.agentId agent.sessionGeneration
    (agent.controller.state.revision + 1) items (boundedText explanation) toolCallId = payload
  generalize hevent : newEvent agent.world.ledger readings.first (lit "plan_updated") payload {} =
    event
  have hcurrent : event.sessionGeneration = agent.sessionGeneration := by
    rw [← hevent]
    exact hrecovers.generation
  have hkind : event.kind = lit "plan_updated" := by
    rw [← hevent]
    rfl
  have hstored : event.payload = planPayload agent.agentId agent.sessionGeneration
      (agent.controller.state.revision + 1) items (boundedText explanation) toolCallId := by
    rw [← hevent, hpayload]
    rfl
  have hevents : (commitPlan agent readings agent.sessionGeneration items
      (boundedText explanation) toolCallId).world.ledger.events =
        agent.world.ledger.events ++ [event] := by
    rw [← hevent, ← hpayload]
    exact append_events ..
  constructor
  · exact (append_generation ..).trans hrecovers.generation
  · change 0 ≤ agent.controller.state.revision + 1
    omega
  · exact hrecovers.progressRevision
  · rw [hevents, lastEvent_append, if_pos ⟨hcurrent, hkind⟩, Option.map_some]
    refine (restorePlan_planPayload builtins hstored hitems (by omega)).trans ?_
    rw [← hevent]
    rfl
  · rw [hevents, lastEvent_append, if_neg (by simp [hkind])]
    exact hrecovers.progress
  · rw [hevents, recoverCalls_append]
    change (do
      let calls ← recoverCalls builtins agent.sessionGeneration [] agent.world.ledger.events
      recoverCall builtins agent.sessionGeneration calls event) = _
    rw [hrecovers.calls]
    exact recoverCall_planPayload builtins _ hcurrent hkind hstored hitems (by omega) hcall htrimmed

theorem recovers_commitProgress (readings : Readings) {nextStep : Option Text}
    (hrecovers : Recovers builtins agent) (hsummary : summary ≠ []) (hlength : summary.length ≤ 500)
    (hcall : toolCallId ≠ []) :
    Recovers builtins (commitProgress agent readings agent.sessionGeneration phase summary
      (boundedText nextStep) toolCallId) := by
  have hrevision := hrecovers.progressRevision
  generalize hpayload : progressPayload agent.agentId agent.sessionGeneration
    (agent.controller.progress.revision + 1) phase summary (boundedText nextStep) toolCallId =
      payload
  generalize hevent : newEvent agent.world.ledger readings.first (lit "progress_reported") payload
    {} = event
  have hcurrent : event.sessionGeneration = agent.sessionGeneration := by
    rw [← hevent]
    exact hrecovers.generation
  have hkind : event.kind = lit "progress_reported" := by
    rw [← hevent]
    rfl
  have hstored : event.payload = progressPayload agent.agentId agent.sessionGeneration
      (agent.controller.progress.revision + 1) phase summary (boundedText nextStep)
      toolCallId := by
    rw [← hevent, hpayload]
    rfl
  have hevents : (commitProgress agent readings agent.sessionGeneration phase summary
      (boundedText nextStep) toolCallId).world.ledger.events =
        agent.world.ledger.events ++ [event] := by
    rw [← hevent, ← hpayload]
    exact append_events ..
  constructor
  · exact (append_generation ..).trans hrecovers.generation
  · exact hrecovers.planRevision
  · change 0 ≤ agent.controller.progress.revision + 1
    omega
  · rw [hevents, lastEvent_append, if_neg (by simp [hkind])]
    exact hrecovers.plan
  · rw [hevents, lastEvent_append, if_pos ⟨hcurrent, hkind⟩, Option.map_some]
    refine (restoreProgress_progressPayload builtins hstored hsummary hlength (by omega)).trans ?_
    rw [← hevent]
    rfl
  · rw [hevents, recoverCalls_append]
    change (do
      let calls ← recoverCalls builtins agent.sessionGeneration [] agent.world.ledger.events
      recoverCall builtins agent.sessionGeneration calls event) = _
    rw [hrecovers.calls]
    exact recoverCall_progressPayload builtins _ hcurrent hkind hstored (by omega) hcall

/-- The calls whose data the recomputed fingerprint sees unchanged. -/
def Recoverable : Call → Prop
  | .update _ explanation toolCallId _ =>
      toolCallId ≠ [] ∧ Trimmed ((strip (explanation.getD [])).take 500)
  | .report _ _ _ toolCallId _ => toolCallId ≠ []

instance : ∀ call, Decidable (Recoverable call)
  | .update .. => inferInstanceAs (Decidable (_ ∧ _))
  | .report .. => inferInstanceAs (Decidable (_ ≠ _))

/-- A recoverable call whose ledger append does not raise. -/
def Admitted (builtins : Builtins) (agent : Agent) (action : Action) : Prop :=
  (perform builtins agent action).2 ≠ .ledgerFailed ∧ Recoverable action.1

instance (builtins : Builtins) (agent : Agent) (action : Action) :
    Decidable (Admitted builtins agent action) :=
  inferInstanceAs (Decidable (_ ∧ _))

/-- Recovery from the ledger gives the controller that is live, before and after each call. -/
theorem step_recovers {action : Action} (hrecovers : Recovers builtins agent)
    (hadmitted : Admitted builtins agent action) :
    Recovers builtins (step builtins agent action) := by
  obtain ⟨call, readings⟩ := action
  obtain ⟨hledger, hcall⟩ := hadmitted
  cases call with
  | update rawItems explanation toolCallId sessionGeneration =>
      change Recovers builtins
        (update builtins agent readings rawItems explanation toolCallId sessionGeneration).1
      rcases update_cases builtins agent readings rawItems explanation toolCallId
        sessionGeneration with hsame | hfailed | ⟨items, hitems, hcommit⟩
      · rwa [hsame]
      · exact absurd hfailed hledger
      · rw [hcommit]
        exact recovers_commitPlan readings hrecovers (validateItems_wellFormed hitems) hcall.1
          hcall.2
  | report phase summary nextStep toolCallId sessionGeneration =>
      change Recovers builtins
        (report agent readings phase summary nextStep toolCallId sessionGeneration).1
      rcases report_cases agent readings phase summary nextStep toolCallId
        sessionGeneration with hsame | hfailed | ⟨parsed, hsummary, hlength, hcommit⟩
      · rwa [hsame]
      · exact absurd hfailed hledger
      · rw [hcommit]
        exact recovers_commitProgress readings hrecovers hsummary hlength hcall

/-- A new controller over a ledger without control events of its generation. -/
structure Fresh (agent : Agent) : Prop where
  controller : agent.controller = freshController agent.agentId agent.sessionGeneration
  generation : agent.world.ledger.generation = agent.sessionGeneration
  events : ∀ event ∈ agent.world.ledger.events,
    event.sessionGeneration = agent.sessionGeneration →
      event.kind ≠ lit "plan_updated" ∧ event.kind ≠ lit "progress_reported"

theorem lastEvent_eq_none (kind : String) {events : List HistoryEvent}
    (hevents : ∀ event ∈ events, event.sessionGeneration = sessionGeneration →
      event.kind ≠ lit kind) : lastEvent sessionGeneration kind events = none := by
  induction events using List.reverseRecOn with
  | nil => rfl
  | append_singleton rest event ih =>
      have hlast : ¬(event.sessionGeneration = sessionGeneration ∧ event.kind = lit kind) := by
        rintro ⟨hcurrent, hkind⟩
        exact hevents event (by simp) hcurrent hkind
      rw [lastEvent_append, if_neg hlast]
      exact ih fun other hmem => hevents other (by simp [hmem])

theorem recoverCalls_eq_self (builtins : Builtins) (calls : List (Text × (Text × ℤ)))
    {events : List HistoryEvent}
    (hevents : ∀ event ∈ events, event.sessionGeneration = sessionGeneration →
      event.kind ≠ lit "plan_updated" ∧ event.kind ≠ lit "progress_reported") :
    recoverCalls builtins sessionGeneration calls events = .ok calls := by
  induction events with
  | nil => rfl
  | cons event rest ih =>
      have hskip : recoverCall builtins sessionGeneration calls event = .ok calls := by
        by_cases hcurrent : event.sessionGeneration = sessionGeneration
        · have hkind := hevents event List.mem_cons_self hcurrent
          simp [recoverCall, hcurrent, hkind.1, hkind.2]
        · simp [recoverCall, hcurrent]
      rw [recoverCalls, hskip]
      exact ih fun other hmem => hevents other (List.mem_cons_of_mem _ hmem)

theorem recovers_fresh (builtins : Builtins) (hfresh : Fresh agent) : Recovers builtins agent := by
  have hplan := lastEvent_eq_none "plan_updated" fun event hmem hcurrent =>
    (hfresh.events event hmem hcurrent).1
  have hprogress := lastEvent_eq_none "progress_reported" fun event hmem hcurrent =>
    (hfresh.events event hmem hcurrent).2
  constructor
  · exact hfresh.generation
  · simp [hfresh.controller, freshController]
  · simp [hfresh.controller, freshController]
  · rw [hplan, hfresh.controller]
    rfl
  · rw [hprogress, hfresh.controller]
    rfl
  · rw [recoverCalls_eq_self builtins [] hfresh.events, hfresh.controller]
    rfl

theorem Recovers.recoverFromLedger_eq (hrecovers : Recovers builtins agent) :
    recoverFromLedger builtins agent = .ok agent.controller := by
  simp [recoverFromLedger, restore, hrecovers.plan, hrecovers.progress, hrecovers.calls]

/-- After every run of recoverable calls whose appends did not raise, a
controller recovered from the ledger has the state and progress of the live one
and answers every later sequence of calls as the live one does. -/
theorem recover_after_run (builtins : Builtins) (start : Agent) (hfresh : Fresh start)
    (actions : List Action)
    (hmeets : Meets (step builtins) (Admitted builtins) start actions) :
    let live := actions.foldl (step builtins) start
    ∃ recovered, recoverFromLedger builtins live = .ok recovered ∧
      recovered.state = live.controller.state ∧
      recovered.progress = live.controller.progress ∧
      ∀ later, answers builtins { live with controller := recovered } later =
        answers builtins live later := by
  intro live
  have hrecovers : Recovers builtins live :=
    invariant_foldl (Recovers builtins) (fun _ _ => step_recovers)
      (recovers_fresh builtins hfresh) hmeets
  exact ⟨live.controller, hrecovers.recoverFromLedger_eq, rfl, rfl, fun _ => rfl⟩

/-- A plan and a report with padded texts are recovered as they were committed. -/
theorem recover_after_run_padded_texts :
    let actions : List Action :=
      [(.update singleStep (some (lit " first steps ")) (lit "call-1") 0, {}),
        (.report (lit "implementing") (lit " parsing ") none (lit "call-2") 0, {})]
    let live := actions.foldl (step plainBuiltins) (newAgent (lit "main"))
    (live.controller.state.revision = 1 ∧ live.controller.progress.summary = lit "parsing") ∧
      ∃ recovered, recoverFromLedger plainBuiltins live = .ok recovered ∧
        recovered.state = live.controller.state ∧
        recovered.progress = live.controller.progress ∧
        ∀ later, answers plainBuiltins { live with controller := recovered } later =
          answers plainBuiltins live later := by
  intro actions live
  have hfresh : Fresh (newAgent (lit "main")) := ⟨rfl, rfl, by simp [newAgent, HistoryLedger.create]⟩
  exact ⟨by decide +kernel, recover_after_run plainBuiltins _ hfresh actions (by decide +kernel)⟩

/-- An explanation whose first 500 characters end with a blank: the live
controller answers the retry of its call from memory, the recovered one refuses
it as a conflict. -/
theorem recover_blank_at_limit_conflicts :
    let explanation := List.replicate 499 (ofChar 'a') ++ lit " b"
    let retry : Action := (.update singleStep (some explanation) (lit "call-1") 0, {})
    let live := step plainBuiltins (newAgent (lit "main")) retry
    (perform plainBuiltins live retry).2 = .plan live.controller.state false ∧
      (recoverFromLedger plainBuiltins live).toOption.map
          (fun recovered =>
            (perform plainBuiltins { live with controller := recovered } retry).2) =
        some (.valueError "tool_call_id was already committed with different plan data") := by
  decide +kernel

end ReuleauxCoder.PlanController
