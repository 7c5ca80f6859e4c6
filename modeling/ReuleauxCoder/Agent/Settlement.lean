import ReuleauxCoder.Agent.Steering

/-!
# Settlement of user steering

The ledger accounts for steering by identifier: admissions, audit records of
application, committed messages and discards.  The invariant says that the
admissions are a permutation of what is queued, committed and discarded, and
that commits followed by the queue keep the order of admission.  Every lock
region preserves it except the one that ends a reset, which empties the queue
without a record.
-/

namespace ReuleauxCoder.Steering

open PyText PyJson Transition
open List hiding lookup
open History (Attribution Dict HistoryEvent Outcome Readings World append_events
  appendMessage_events eventId messagePayload newEvent semanticPayload)

/-! ## The ledger's account of steering -/

def steeringId? (payload : Dict) : Option Text :=
  match field payload "steering_id" with
  | .str id => some id
  | _ => none

/-- The steering identifiers of the events of one kind, in ledger order. -/
def idsOf (kind : String) (events : List HistoryEvent) : List Text :=
  events.filterMap fun event =>
    if event.kind = lit kind then steeringId? event.payload else none

structure Account where
  admitted : List Text
  applied : List Text
  committed : List Text
  discarded : List Text
  deriving DecidableEq

def account (events : List HistoryEvent) : Account where
  admitted := idsOf "steering_admitted" events
  applied := idsOf "steering_applied" events
  committed := idsOf "message_committed" events
  discarded := idsOf "steering_discarded" events

theorem idsOf_append (kind : String) (left right : List HistoryEvent) :
    idsOf kind (left ++ right) = idsOf kind left ++ idsOf kind right :=
  filterMap_append

theorem idsOf_record (kind other : String) (world : World) (readings : Readings)
    (payload : Dict) (attribution : Attribution) :
    idsOf kind (record world readings other payload attribution).1.ledger.events =
      idsOf kind world.ledger.events ++
        if other = kind then (steeringId? payload).toList else [] := by
  rw [record, append_events, idsOf_append]
  by_cases hkind : other = kind
  · cases hid : steeringId? payload <;> simp [idsOf, newEvent, hkind, hid]
  · simp [idsOf, newEvent, hkind]

/-- Events without a steering identifier do not count. -/
theorem idsOf_eq_nil {events : List HistoryEvent}
    (hnone : ∀ event ∈ events, steeringId? event.payload = none) (kind : String) :
    idsOf kind events = [] := by
  rw [idsOf, filterMap_eq_nil_iff]
  intro event hmem
  simp [hnone event hmem]

theorem account_record_of_none (world : World) (readings : Readings) (kind : String)
    {payload : Dict} (attribution : Attribution) (hnone : steeringId? payload = none) :
    account (record world readings kind payload attribution).1.ledger.events =
      account world.ledger.events := by
  simp [account, idsOf_record, hnone]

/-- The account after some identifiers are discarded. -/
def Account.discard (account : Account) (ids : List Text) : Account :=
  { account with discarded := account.discarded ++ ids }

/-- The account after some identifiers are applied and committed. -/
def Account.commit (account : Account) (ids : List Text) : Account :=
  { account with applied := account.applied ++ ids, committed := account.committed ++ ids }

theorem account_recordAdmission (world : World) (readings : Readings)
    (item : PendingUserSteering) (attribution : Attribution) :
    account (record world readings "steering_admitted" (admissionPayload item)
        attribution).1.ledger.events =
      { account world.ledger.events with
        admitted := (account world.ledger.events).admitted ++ [item.steeringId] } := by
  have hid : steeringId? (admissionPayload item) = some item.steeringId := by
    simp [steeringId?, admissionPayload, field]
  simp [account, idsOf_record, hid]

theorem account_recordDiscard (agentId reason : Text) (world : World) (readings : Readings)
    (item : PendingUserSteering) :
    account (recordDiscard agentId reason world readings item).1.ledger.events =
      (account world.ledger.events).discard [item.steeringId] := by
  have hid : steeringId? (discardPayload item reason) = some item.steeringId := by
    simp [steeringId?, discardPayload, field]
  simp [account, Account.discard, recordDiscard, idsOf_record, hid]

variable {after world : World}

/-- A discard loop that runs to its end discards every entry. -/
theorem account_discardItems (agentId reason : Text) (readings : ℕ → Readings) {index : ℕ}
    {items : List PendingUserSteering}
    (hdiscard : discardItems agentId reason readings index items world = (after, .returned)) :
    account after.ledger.events =
      (account world.ledger.events).discard (items.map PendingUserSteering.steeringId) := by
  induction items generalizing index world with
  | nil =>
      cases hdiscard
      simp [Account.discard]
  | cons item rest ih =>
      have hone := account_recordDiscard agentId reason world (readings index) item
      rw [discardItems] at hdiscard
      split at hdiscard
      · rename_i next hrecord
        rw [hrecord] at hone
        rw [ih hdiscard, hone]
        simp [Account.discard]
      · rename_i hfailed
        cases hfailed _ hdiscard

theorem account_appendSteeringMessage (agent : Agent) (attemptId : Option Text)
    (readings : Readings) (item : PendingUserSteering) (world : World) :
    account (History.appendMessage readings world
        (steeringArguments agent item attemptId)).1.ledger.events =
      { account world.ledger.events with
        committed := (account world.ledger.events).committed ++ [item.steeringId] } := by
  have hcommitted : steeringId? (messagePayload (steeringArguments agent item attemptId)) =
      some item.steeringId := by
    simp [steeringId?, messagePayload, steeringArguments, appliedPayload, History.updateDict,
      store, field, lookup]
  have hsemantic : ∀ ids, steeringId? (semanticPayload (steeringArguments agent item attemptId)
      (eventId readings.first) ids) = none := by
    simp [steeringId?, semanticPayload, field, lookup]
  obtain ⟨rest, hevents, hrest⟩ := appendMessage_events readings world
    (steeringArguments agent item attemptId)
  have hnone : ∀ event ∈ rest, steeringId? event.payload = none := by
    intro event hmem
    obtain ⟨ids, hpayload⟩ := hrest event hmem
    rw [hpayload]
    exact hsemantic ids
  have hids : ∀ kind, idsOf kind (History.appendMessage readings world
      (steeringArguments agent item attemptId)).1.ledger.events =
      idsOf kind world.ledger.events ++
        if "message_committed" = kind then [item.steeringId] else [] := by
    intro kind
    have hrestIds := idsOf_eq_nil hnone kind
    rw [hevents, idsOf_append]
    rw [idsOf] at hrestIds
    by_cases hkind : "message_committed" = kind
    · simp [idsOf, newEvent, hkind, hcommitted, hrestIds]
    · simp [idsOf, newEvent, hkind, hrestIds]
  simp [account, hids]

theorem account_applyItem (agent : Agent) (attemptId : Option Text) (readings : ItemReadings)
    (item : PendingUserSteering)
    (happly : applyItem agent attemptId readings item world = (after, .returned)) :
    account after.ledger.events = (account world.ledger.events).commit [item.steeringId] := by
  have hid : steeringId? (appliedPayload item attemptId) = some item.steeringId := by
    simp [steeringId?, appliedPayload, field]
  have haudit : account (record world readings.audit "steering_applied"
      (appliedPayload item attemptId)
      { agentId := some agent.agentId, turnId := some item.turnId }).1.ledger.events =
      { account world.ledger.events with
        applied := (account world.ledger.events).applied ++ [item.steeringId] } := by
    simp [account, idsOf_record, hid]
  rw [applyItem] at happly
  split at happly
  · rename_i audited hrecord
    have hmessage := account_appendSteeringMessage agent attemptId readings.message item audited
    rw [hrecord] at haudit
    rw [happly, haudit] at hmessage
    exact hmessage
  · rename_i hfailed
    cases hfailed _ happly

/-- The identifiers a drain commits, and those it discards as stale. -/
def staleItems (readings : ℕ → ItemReadings) :
    ℕ → List PendingUserSteering → List PendingUserSteering
  | _, [] => []
  | index, item :: rest =>
      if item.generation ≠ (readings index).generation then
        item :: staleItems readings (index + 1) rest
      else staleItems readings (index + 1) rest

theorem appliedItems_sublist (readings : ℕ → ItemReadings) (index : ℕ)
    (items : List PendingUserSteering) : (appliedItems readings index items).Sublist items := by
  induction items generalizing index with
  | nil => exact List.Sublist.refl []
  | cons item rest ih =>
      rw [appliedItems]
      split
      · exact (ih (index + 1)).cons item
      · exact (ih (index + 1)).cons_cons item

theorem perm_applied_stale (readings : ℕ → ItemReadings) (index : ℕ)
    (items : List PendingUserSteering) :
    items.Perm (appliedItems readings index items ++ staleItems readings index items) := by
  induction items generalizing index with
  | nil => exact List.Perm.refl []
  | cons item rest ih =>
      rw [appliedItems, staleItems]
      split
      · exact ((ih (index + 1)).cons item).trans perm_middle.symm
      · exact (ih (index + 1)).cons item

/-- A drain that runs to its end commits the current entries in queue order and
discards the stale ones. -/
theorem account_drainItems (agent : Agent) (attemptId : Option Text) (readings : ℕ → ItemReadings)
    {index : ℕ} {items : List PendingUserSteering}
    (hdrain : drainItems agent attemptId readings index items world = (after, .returned)) :
    account after.ledger.events =
      ((account world.ledger.events).commit
        ((appliedItems readings index items).map PendingUserSteering.steeringId)).discard
        ((staleItems readings index items).map PendingUserSteering.steeringId) := by
  induction items generalizing index world with
  | nil =>
      cases hdrain
      simp [Account.commit, Account.discard, appliedItems, staleItems]
  | cons item rest ih =>
      rw [drainItems] at hdrain
      split at hdrain
      · rename_i next hone
        rw [ih hdrain, appliedItems, staleItems]
        rw [drainItem] at hone
        split at hone
        · rename_i hstale
          have hdiscard := account_recordDiscard agent.agentId (lit "stale_generation") world
            (readings index).audit item
          rw [hone] at hdiscard
          rw [hdiscard, if_pos hstale, if_pos hstale]
          simp [Account.commit, Account.discard]
        · rename_i hcurrent
          rw [account_applyItem agent attemptId (readings index) item hone, if_neg hcurrent,
            if_neg hcurrent]
          simp [Account.commit, Account.discard]
      · rename_i hfailed
        cases hfailed _ hdrain

theorem account_appendContextView (readings : Readings) (world : World)
    (messages : List Dict) (reason : Text) (historyVersion : ℤ) :
    account (History.appendContextView readings world
        { messages, reason, historyVersion }).1.ledger.events =
      account world.ledger.events := by
  rw [(History.appendContextView_records readings world _ rfl).1]
  simp only [account, idsOf_append]
  simp [idsOf, newEvent]

/-! ## The invariant -/

def pendingIds (agent : Agent) : List Text :=
  agent.pendingUserSteering.map PendingUserSteering.steeringId

/-- The queue and the ledger's account agree. -/
structure Balanced (pending : List Text) (account : Account) : Prop where
  distinct : account.admitted.Nodup
  settled : account.admitted.Perm (pending ++ (account.committed ++ account.discarded))
  ordered : (account.committed ++ pending).Sublist account.admitted
  audited : account.applied = account.committed

def Settled (agent : Agent) : Prop :=
  Balanced (pendingIds agent) (account agent.world.ledger.events)

section

variable {account : Account} {pending : List Text}

theorem Balanced.admit (hbalanced : Balanced pending account) {id : Text}
    (hfresh : id ∉ account.admitted) :
    Balanced (pending ++ [id]) { account with admitted := account.admitted ++ [id] } := by
  constructor
  · rw [nodup_append]
    refine ⟨hbalanced.distinct, nodup_singleton id, ?_⟩
    rintro other hother _ hid rfl
    exact hfresh (mem_singleton.mp hid ▸ hother)
  · calc
      account.admitted ++ [id]
          |>.Perm (pending ++ (account.committed ++ account.discarded) ++ [id]) :=
        hbalanced.settled.append_right [id]
      _ |>.Perm (pending ++ [id] ++ (account.committed ++ account.discarded)) := by
        rw [append_assoc pending, append_assoc pending]
        exact perm_append_comm.append_left pending
  · rw [← append_assoc]
    exact hbalanced.ordered.append (List.Sublist.refl [id])
  · exact hbalanced.audited

/-- Settling the whole queue: some entries committed in order, the others
discarded. -/
theorem Balanced.settle {applied stale : List Text} (hbalanced : Balanced pending account)
    (hsublist : applied.Sublist pending) (hperm : pending.Perm (applied ++ stale)) :
    Balanced [] ((account.commit applied).discard stale) := by
  constructor
  · exact hbalanced.distinct
  · calc
      account.admitted
          |>.Perm (pending ++ (account.committed ++ account.discarded)) := hbalanced.settled
      _ |>.Perm (applied ++ stale ++ (account.committed ++ account.discarded)) :=
        hperm.append_right _
      _ |>.Perm (account.committed ++ applied ++ (account.discarded ++ stale)) := by
        rw [perm_iff_count]
        intro id
        simp only [count_append]
        omega
  · change (account.committed ++ applied ++ []).Sublist account.admitted
    rw [append_nil]
    exact (hsublist.append_left account.committed).trans hbalanced.ordered
  · change account.applied ++ applied = account.committed ++ applied
    rw [hbalanced.audited]

theorem Balanced.discardAll (hbalanced : Balanced pending account) :
    Balanced [] (account.discard pending) := by
  have hsettled := hbalanced.settle (nil_sublist pending) (List.Perm.refl pending)
  simpa [Account.commit] using hsettled

end

/-! ## Every action -/

variable {agent : Agent}

/-- A call whose result returned has run its continuation. -/
theorem proceed_returned {result : World × Outcome} {next : Agent → Agent × Outcome}
    (hreturned : (proceed agent result next).2 = .returned) :
    result = (result.1, .returned) ∧
      proceed agent result next = next { agent with world := result.1 } := by
  obtain ⟨world, outcome⟩ := result
  cases outcome with
  | returned => exact ⟨rfl, rfl⟩
  | sinkFailed => cases hreturned
  | typeError => cases hreturned

section

variable (hsettled : Settled agent)
include hsettled

theorem settled_of_eq {after : Agent}
    (hpending : after.pendingUserSteering = agent.pendingUserSteering)
    (haccount : account after.world.ledger.events = account agent.world.ledger.events) :
    Settled after := by
  rw [Settled, pendingIds, hpending, haccount]
  exact hsettled

theorem settled_admitUserSteering (input : SteeringInput) (uuid : Text)
    (readings : Readings)
    (hfresh : lit "steer_" ++ uuid ∉ (account agent.world.ledger.events).admitted)
    (hreturned : (admitUserSteering agent input uuid readings).2 = .returned) :
    Settled (admitUserSteering agent input uuid readings).1 := by
  unfold admitUserSteering at hreturned ⊢
  split
  · exact hsettled
  · rename_i hcontent
    rw [if_neg hcontent] at hreturned
    split
    · rename_i turnId haccepting hturn
      rw [haccepting, hturn] at hreturned
      rw [(proceed_returned hreturned).2, Settled, pendingIds, account_recordAdmission,
        map_append]
      exact hsettled.admit hfresh
    · exact hsettled

theorem settled_discardPendingLocked (reason : Text)
    (readings : ℕ → Readings)
    (hreturned : (discardPendingLocked agent reason readings).2 = .returned) :
    Settled (discardPendingLocked agent reason readings).1 := by
  unfold discardPendingLocked at hreturned ⊢
  obtain ⟨hloop, hproceed⟩ := proceed_returned hreturned
  rw [hproceed, Settled, account_discardItems _ _ _ hloop]
  exact hsettled.discardAll

theorem settled_discardPendingUserSteering (reason : Text)
    (readings : ℕ → Readings)
    (hreturned : (discardPendingUserSteering agent reason readings).2 = .returned) :
    Settled (discardPendingUserSteering agent reason readings).1 := by
  have hlocked := settled_discardPendingLocked hsettled reason readings
  unfold discardPendingUserSteering at hreturned ⊢
  split
  · rename_i discarded hdiscard
    rw [hdiscard] at hlocked
    exact settled_of_eq (hlocked rfl) rfl rfl
  · rename_i hfailed
    split at hreturned
    · rename_i discarded hdiscard
      cases hfailed _ hdiscard
    · exact hlocked hreturned

theorem settled_drainUserSteering (attemptId : Option Text)
    (readings : ℕ → ItemReadings)
    (hreturned : (drainUserSteering agent attemptId readings).2 = .returned) :
    Settled (drainUserSteering agent attemptId readings).1 := by
  unfold drainUserSteering at hreturned ⊢
  obtain ⟨hloop, hproceed⟩ := proceed_returned hreturned
  have haccount := account_drainItems agent attemptId readings hloop
  rw [hproceed, Settled, haccount]
  have hsublist := (appliedItems_sublist readings 0 agent.pendingUserSteering).map
    PendingUserSteering.steeringId
  have hperm := (perm_applied_stale readings 0 agent.pendingUserSteering).map
    PendingUserSteering.steeringId
  rw [map_append] at hperm
  exact hsettled.settle hsublist hperm

theorem settled_requestInterruptIntent (steeringOnly : Bool)
    (readings : ℕ → Readings)
    (hreturned : (requestInterruptIntent agent steeringOnly readings).1.2 = .returned) :
    Settled (requestInterruptIntent agent steeringOnly readings).1.1 := by
  have hlocked := settled_discardPendingLocked hsettled (lit "turn_stop") readings
  revert hreturned
  simp only [requestInterruptIntent]
  split
  · exact fun _ => hsettled
  split
  · split
    · exact fun _ => hsettled
    split
    · rename_i discarded hdiscard
      rw [hdiscard] at hlocked
      exact fun _ => settled_of_eq (hlocked rfl) rfl rfl
    · exact hlocked
  split
  · exact fun _ => settled_of_eq hsettled rfl rfl
  split
  · exact fun _ => hsettled
  · exact fun _ => settled_of_eq hsettled rfl rfl

theorem settled_resetRecord (historyVersion : ℤ)
    (reset lifecycle view : Readings)
    (hreturned : (resetRecord agent historyVersion reset lifecycle view).2 = .returned) :
    Settled (resetRecord agent historyVersion reset lifecycle view).1 := by
  unfold resetRecord at hreturned ⊢
  obtain ⟨-, hreset⟩ := proceed_returned hreturned
  rw [hreset] at hreturned ⊢
  obtain ⟨-, hlifecycle⟩ := proceed_returned hreturned
  rw [hlifecycle] at hreturned ⊢
  obtain ⟨-, hview⟩ := proceed_returned hreturned
  rw [hview]
  apply settled_of_eq hsettled
  · rfl
  · rw [account_appendContextView]
    simp only [History.advanceGeneration]
    rw [account_record_of_none, account_record_of_none]
    all_goals simp [steeringId?, field, lookup]

end

/-- What keeps steering settled across a step: no ledger call of the step raises,
an admission draws a fresh identifier, and the region that ends a reset finds the
queue empty. -/
def Orderly (agent : Agent) (action : Action) : Prop :=
  (perform agent action).2 = .returned ∧
    match action with
    | .admitUserSteering _ uuid _ =>
        lit "steer_" ++ uuid ∉ (account agent.world.ledger.events).admitted
    | .resetClear => agent.pendingUserSteering = []
    | _ => True

instance (agent : Agent) (action : Action) : Decidable (Orderly agent action) := by
  unfold Orderly
  cases action <;> infer_instance

/-- Each input that was admitted is pending, committed or discarded, and only one of these. -/
theorem step_settled {action : Action} (hsettled : Settled agent)
    (horderly : Orderly agent action) : Settled (step agent action) := by
  obtain ⟨hreturned, hrest⟩ := horderly
  cases action with
  | admitUserSteering input uuid readings =>
      exact settled_admitUserSteering hsettled input uuid readings hrest hreturned
  | drainUserSteering attemptId readings =>
      exact settled_drainUserSteering hsettled attemptId readings hreturned
  | requestInterruptIntent steeringOnly readings =>
      exact settled_requestInterruptIntent hsettled steeringOnly readings hreturned
  | discardPendingUserSteering reason readings =>
      exact settled_discardPendingUserSteering hsettled reason readings hreturned
  | resetAdvance => exact settled_of_eq hsettled rfl rfl
  | resetRecord historyVersion reset lifecycle view =>
      exact settled_resetRecord hsettled historyVersion reset lifecycle view hreturned
  | resetLeaveTurn => exact settled_of_eq hsettled rfl rfl
  | resetClear => exact settled_of_eq hsettled hrest.symm rfl
  | beginTurn turnId goalContinuation readings =>
      rw [step, perform, beginTurn, (proceed_returned hreturned).2]
      apply settled_of_eq hsettled
      · rfl
      · exact account_record_of_none _ _ _ _ (by simp [steeringId?, field, lookup])
  | finishLoop =>
      rw [step, perform, finishLoop]
      split
      · exact settled_of_eq hsettled rfl rfl
      · exact hsettled
  | stopAccepting => exact settled_of_eq hsettled rfl rfl
  | endTurn readings =>
      rw [step, perform, endTurn, (proceed_returned hreturned).2]
      apply settled_of_eq hsettled
      · rfl
      · exact account_record_of_none _ _ _ _ (by simp [steeringId?, field, lookup])
  | setStop requested => exact settled_of_eq hsettled rfl rfl

/-! ## Whole runs -/

/-- Every admitted entry is queued, committed once or discarded once, and commits
keep the order of admission. -/
def SettledOnce (agent : Agent) : Prop :=
  let ledger := account agent.world.ledger.events
  (∀ id ∈ ledger.admitted,
    (pendingIds agent).count id + ledger.committed.count id + ledger.discarded.count id = 1) ∧
  ledger.committed.Sublist ledger.admitted

instance (agent : Agent) : Decidable (SettledOnce agent) := by
  unfold SettledOnce
  infer_instance

theorem settledOnce_of_settled (hsettled : Settled agent) : SettledOnce agent := by
  constructor
  · intro id hid
    have hone := count_eq_one_of_mem hsettled.distinct hid
    rw [hsettled.settled.count_eq, count_append, count_append] at hone
    omega
  · exact (sublist_append_left _ _).trans hsettled.ordered

/-- In a run of orderly steps from a settled agent every state reached is
settled. -/
theorem run_steering_settledOnce {agent : Agent} {actions : List Action}
    (hsettled : Settled agent) (hmeets : Meets step Orderly agent actions) :
    SettledOnce (actions.foldl step agent) :=
  settledOnce_of_settled
    (invariant_foldl Settled (fun _ _ => step_settled) hsettled hmeets)

def newAgent : Agent :=
  { agentId := lit "main", world := { ledger := {}, files := fun _ => [] } }

def direction (line uuid : String) : Action :=
  .admitUserSteering (.typed (lit line)) (lit uuid) {}

/-- A turn with two directions: the first is committed, the second is discarded
by the reset that follows. -/
def steeredTurn : List Action :=
  [.beginTurn (lit "t") false {}, direction "use tabs" "a",
    .drainUserSteering (some (lit "t:0:1")) (fun _ => { generation := 0 }),
    direction "be brief" "b"] ++ resetActions 0 (fun _ => {}) {} {} {}

theorem run_steering_settledOnce_steeredTurn :
    SettledOnce (steeredTurn.foldl step newAgent) ∧
      account (steeredTurn.foldl step newAgent).world.ledger.events =
        { admitted := [lit "steer_a", lit "steer_b"], applied := [lit "steer_a"],
          committed := [lit "steer_a"], discarded := [lit "steer_b"] } := by
  have hstart : Settled newAgent := by
    constructor <;> decide
  have hmeets : Meets step Orderly newAgent steeredTurn := by decide +kernel
  exact ⟨run_steering_settledOnce hstart hmeets, by decide +kernel⟩

/-- A direction accepted between the two lock regions of a reset. -/
def resetRace : List Action :=
  [.beginTurn (lit "t") false {}, .discardPendingUserSteering (lit "session_reset") (fun _ => {}),
    .resetAdvance, direction "use tabs" "a", .resetRecord 0 {} {} {}, .resetLeaveTurn,
    .resetClear]

/-- The direction is admitted and then gone: it is not queued, not committed and
not discarded. -/
theorem resetRace_loses_steering :
    ¬ SettledOnce (resetRace.foldl step newAgent) ∧
      account (resetRace.foldl step newAgent).world.ledger.events =
        { admitted := [lit "steer_a"], applied := [], committed := [], discarded := [] } ∧
      pendingIds (resetRace.foldl step newAgent) = [] := by
  decide +kernel

end ReuleauxCoder.Steering
