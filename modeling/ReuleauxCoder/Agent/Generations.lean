import ReuleauxCoder.Agent.Settlement
import ReuleauxCoder.History.Durability

/-!
# Generations across process lifetimes

An agent counts its resets in `session_generation` and stamps the count on the
events it records.  A restore takes the events of the greatest generation as
current and discards the steering admissions among them that have no outcome.
The count starts at zero in every process.  One session is followed here
through any number of processes; what the process does with other sessions only
moves its own count.
-/

namespace ReuleauxCoder.Generations

open PyText PyJson Transition
open List hiding lookup
open History (Attribution Dict HistoryEvent HistoryLedger Numbered Outcome Readings World
  append_events append_records newEvent orText)
open Steering (Agent proceed_returned)

/-! ## Restoring the history runtime -/

/-- A `steering_id` that recovery looks at: a string that is not empty. -/
def steeringKey (payload : Dict) : Option Text :=
  match field payload "steering_id" with
  | .str id => if id = [] then none else some id
  | _ => none

def admittedKey (event : HistoryEvent) : Option Text :=
  if event.kind = lit "steering_admitted" then steeringKey event.payload else none

def terminalKey (event : HistoryEvent) : Option Text :=
  if event.kind = lit "steering_discarded" ∨ event.kind = lit "message_committed" then
    steeringKey event.payload
  else none

/-- `admitted[steering_id] = event`. -/
def noteAdmission (admitted : List (Text × HistoryEvent)) (event : HistoryEvent) :
    List (Text × HistoryEvent) :=
  match admittedKey event with
  | some id => store id event admitted
  | none => admitted

/-- The admissions of `events` without a terminal record. -/
def orphaned (events : List HistoryEvent) : List (Text × HistoryEvent) :=
  (events.foldl noteAdmission []).filter fun entry => entry.1 ∉ events.filterMap terminalKey

def recordRecovery (agentId : Text) (readings : Readings) (world : World)
    (entry : Text × HistoryEvent) : World :=
  (Steering.record world readings "steering_discarded"
    [(lit "steering_id", .str entry.1), (lit "reason", .str (lit "session_recovery"))]
    { agentId := orText entry.2.agentId (some agentId), turnId := entry.2.turnId }).1

/-- The loop of `_discard_recovered_steering_admissions`.  The ledger has no
sink yet, so its appends do not raise. -/
def discardRecovered (agentId : Text) (readings : ℕ → Readings) :
    ℕ → List (Text × HistoryEvent) → World → World
  | _, [], world => world
  | index, entry :: rest, world =>
      discardRecovered agentId readings (index + 1) rest
        (recordRecovery agentId (readings index) world entry)

def trustedGeneration (events : List HistoryEvent) : ℤ :=
  (events.map HistoryEvent.sessionGeneration).max?.getD 0

def behavioralEvents (events : List HistoryEvent) : List HistoryEvent :=
  events.filter fun event => event.sessionGeneration = trustedGeneration events

/-- What `restore_history_runtime` reads of a loaded session besides its events. -/
structure Loaded where
  sessionId : Option Text := none
  historyNextSeqFloor : ℕ := 0
  behaviorProjectionSafe : Bool := true
  degraded : Bool := false
  deriving DecidableEq

def Loaded.projectionSafe (loaded : Loaded) : Bool :=
  loaded.behaviorProjectionSafe && !loaded.degraded

structure Restored where
  agent : Agent
  discarded : List Text
  current : List HistoryEvent

/-- `restore_history_runtime`, as far as the ledger goes. -/
def restoreHistoryRuntime (agent : Agent) (events : List HistoryEvent) (loaded : Loaded)
    (readings : ℕ → Readings) : Restored :=
  let ledger := HistoryLedger.create events loaded.historyNextSeqFloor agent.sessionGeneration
    loaded.sessionId (some agent.agentId)
  let world : World := { ledger, files := agent.world.files }
  let behavioral := behavioralEvents ledger.events
  if loaded.projectionSafe then
    { agent := { agent with
        world := discardRecovered agent.agentId readings 0 (orphaned behavioral) world }
      discarded := (orphaned behavioral).map Prod.fst
      current := behavioral }
  else { agent := { agent with world }, discarded := [], current := [] }

/-! ## Lifetimes -/

/-- One session through several processes.  `mark` counts the events the session
had when the running process last reset, or started; `lastMark` is that count for
the process that last recorded events; `recovered` lists what restores discarded. -/
structure Lifetimes where
  agent : Agent
  attached : Bool := true
  mark : ℕ := 0
  lastMark : ℕ := 0
  recovered : List Text := []

def Lifetimes.events (state : Lifetimes) : List HistoryEvent :=
  state.agent.world.ledger.events

inductive Action where
  | start
  | detach
  | append (kind : Text) (payload : Dict) (attribution : Attribution) (readings : Readings)
  | reset (historyVersion : ℤ) (reset lifecycle view : Readings)
  | restore (loaded : Loaded) (readings : ℕ → Readings)

/-- A new process: its agent counts from zero, the session's events are stored. -/
def start (state : Lifetimes) : Lifetimes :=
  { state with
    agent := { agentId := state.agent.agentId, world := state.agent.world }
    attached := false
    mark := state.events.length }

def append (state : Lifetimes) (kind : Text) (payload : Dict) (attribution : Attribution)
    (readings : Readings) : Lifetimes :=
  if state.attached then
    { state with agent := { state.agent with
        world := (History.append readings readings.first state.agent.world kind payload
          attribution).1 } }
  else state

/-- A reset of an attached agent is recorded in the session, two events before
the ledger's generation advances and one after. -/
def reset (state : Lifetimes) (historyVersion : ℤ) (reset lifecycle view : Readings) :
    Lifetimes × Outcome :=
  if state.attached then
    let (agent, outcome) := Steering.resetRecord (Steering.resetAdvance state.agent)
      historyVersion reset lifecycle view
    ({ state with
        agent
        mark := state.events.length + 2
        lastMark := state.events.length + 2 }, outcome)
  else
    ({ state with
        agent := Steering.resetAdvance state.agent
        mark := state.events.length }, .returned)

def restore (state : Lifetimes) (loaded : Loaded) (readings : ℕ → Readings) : Lifetimes :=
  let restored := restoreHistoryRuntime state.agent state.events loaded readings
  { agent := restored.agent
    attached := true
    mark := state.mark
    lastMark := state.mark
    recovered := state.recovered ++ restored.discarded }

def perform (state : Lifetimes) : Action → Lifetimes × Outcome
  | .start => (start state, .returned)
  | .detach => ({ state with attached := false }, .returned)
  | .append kind payload attribution readings =>
      (append state kind payload attribution readings, .returned)
  | .reset historyVersion resetReadings lifecycle view =>
      reset state historyVersion resetReadings lifecycle view
  | .restore loaded readings => (restore state loaded readings, .returned)

def step (state : Lifetimes) (action : Action) : Lifetimes :=
  (perform state action).1

/-- A session that a process with the given count has just begun. -/
def newSession (agentId : Text) (sessionId : Option Text) (generation : ℤ) : Lifetimes where
  agent := {
    agentId
    sessionGeneration := generation
    world := {
      ledger := HistoryLedger.create [] 0 generation sessionId (some agentId)
      files := fun _ => [] } }

/-! ## Growing ledgers -/

/-- The ledger grew by `added`, all of it in the ledger's generation. -/
structure Grew (before after : HistoryLedger) (added : List HistoryEvent) : Prop where
  events : after.events = before.events ++ added
  generation : after.generation = before.generation
  stamped : ∀ event ∈ added, event.sessionGeneration = before.generation
  numbered : Numbered before → Numbered after

theorem Grew.trans {first second third : HistoryLedger} {left right : List HistoryEvent}
    (hleft : Grew first second left) (hright : Grew second third right) :
    Grew first third (left ++ right) := by
  constructor
  · rw [hright.events, hleft.events, append_assoc]
  · rw [hright.generation, hleft.generation]
  · intro event hevent
    rcases mem_append.mp hevent with hmem | hmem
    · exact hleft.stamped event hmem
    · rw [hright.stamped event hmem, hleft.generation]
  · exact fun hnumbered => hright.numbered (hleft.numbered hnumbered)

theorem grew_of_record {before after : HistoryLedger} {stamp : History.Stamp} {kind : Text}
    {payload : Dict} {attribution : Attribution}
    (hevents : after.events = before.events ++ [newEvent before stamp kind payload attribution])
    (hnext : after.nextSeq = before.nextSeq + 1)
    (hgeneration : after.generation = before.generation) :
    Grew before after [newEvent before stamp kind payload attribution] := by
  constructor
  · exact hevents
  · exact hgeneration
  · intro event hevent
    rw [mem_singleton.mp hevent]
    rfl
  · intro hnumbered
    constructor
    · rw [hevents, map_append, pairwise_append]
      refine ⟨hnumbered.increasing, pairwise_singleton _ _, ?_⟩
      intro seq hseq new hnew
      obtain ⟨event, hevent, rfl⟩ := mem_map.mp hseq
      rw [map_singleton, mem_singleton] at hnew
      rw [hnew]
      exact hnumbered.below event hevent
    · intro event hevent
      rw [hevents] at hevent
      rw [hnext]
      rcases mem_append.mp hevent with hold | hnew
      · have hbelow := hnumbered.below event hold
        omega
      · rw [mem_singleton.mp hnew]
        exact lt_add_one before.nextSeq

theorem grew_append (readings : Readings) (stamp : History.Stamp) (world : World) (kind : Text)
    (payload : Dict) (attribution : Attribution) :
    Grew world.ledger (History.append readings stamp world kind payload attribution).1.ledger
      [newEvent world.ledger stamp kind payload attribution] := by
  obtain ⟨hevents, hnext, hgeneration, -⟩ :=
    append_records readings stamp world kind payload attribution
  exact grew_of_record hevents hnext hgeneration

theorem grew_appendContextView (readings : Readings) (world : World) (messages : List Dict)
    (reason : Text) (historyVersion : ℤ) :
    Grew world.ledger
      (History.appendContextView readings world { messages, reason, historyVersion }).1.ledger
      [newEvent world.ledger readings.first (lit "context_view_committed")
        (History.viewPayload { messages, reason, historyVersion }) {}] := by
  obtain ⟨hevents, hnext, hgeneration⟩ := History.appendContextView_records readings world
    { messages, reason, historyVersion } rfl
  exact grew_of_record hevents hnext hgeneration

theorem resetRecord_sessionGeneration (agent : Agent) (historyVersion : ℤ)
    (reset lifecycle view : Readings) :
    (Steering.resetRecord agent historyVersion reset lifecycle view).1.sessionGeneration =
      agent.sessionGeneration := by
  simp only [Steering.resetRecord, Steering.proceed]
  repeat' split
  all_goals rfl

/-- The records of a reset that returned: two events of the old generation, the
advance, and one event of the new generation. -/
theorem grew_resetRecord {agent : Agent} {historyVersion : ℤ} {reset lifecycle view : Readings}
    (hreturned : (Steering.resetRecord agent historyVersion reset lifecycle view).2 = .returned) :
    ∃ (middle : HistoryLedger) (announced : List HistoryEvent) (viewed : HistoryEvent),
      Grew agent.world.ledger middle announced ∧ announced.length = 2 ∧
      (∀ event ∈ announced, steeringKey event.payload = none) ∧
      Grew { middle with generation := agent.sessionGeneration }
        (Steering.resetRecord agent historyVersion reset lifecycle view).1.world.ledger [viewed] ∧
      steeringKey viewed.payload = none := by
  unfold Steering.resetRecord at hreturned ⊢
  obtain ⟨-, hreset⟩ := proceed_returned hreturned
  rw [hreset] at hreturned ⊢
  obtain ⟨-, hlifecycle⟩ := proceed_returned hreturned
  rw [hlifecycle] at hreturned ⊢
  obtain ⟨-, hview⟩ := proceed_returned hreturned
  rw [hview]
  have hannounced := (grew_append reset reset.first agent.world (lit "runtime_reset")
    [(lit "next_generation", .int agent.sessionGeneration)] {}).trans
    (grew_append lifecycle lifecycle.first _ (lit "session_lifecycle")
      [(lit "action", .str (lit "runtime_reset")),
        (lit "generation", .int agent.sessionGeneration)] { agentId := some agent.agentId })
  have hviewed := grew_appendContextView view
    (History.advanceGeneration (History.append lifecycle lifecycle.first
      (History.append reset reset.first agent.world (lit "runtime_reset")
        [(lit "next_generation", .int agent.sessionGeneration)] {}).1 (lit "session_lifecycle")
      [(lit "action", .str (lit "runtime_reset")),
        (lit "generation", .int agent.sessionGeneration)]
      { agentId := some agent.agentId }).1 agent.sessionGeneration)
    [] (lit "runtime reset") historyVersion
  refine ⟨_, _, _, hannounced, rfl, ?_, hviewed, ?_⟩
  · intro event hevent
    simp only [cons_append, nil_append, mem_cons, not_mem_nil,
      or_false] at hevent
    rcases hevent with rfl | rfl
    · simp [newEvent, steeringKey, field, lookup]
    · simp [newEvent, steeringKey, field, lookup]
  · simp [newEvent, History.viewPayload, steeringKey, field, lookup]

end ReuleauxCoder.Generations
