import ReuleauxCoder.Library.JsonText
import ReuleauxCoder.Library.Transition

/-!
# The history ledger

`HistoryLedger` keeps the semantic history of a session in memory and mirrors
it to a JSONL sink.  A single append writes its event at once; the two compound
appends collect their events in a batch and flush the batch on leaving it;
events appended while no sink is bound wait for the next bind.  The environment
chooses event identifiers, timestamps and which file operations raise.
-/

namespace ReuleauxCoder.History

open PyText PyJson

/-- A Python dictionary with string keys. -/
abbrev Dict := List (Text × Json)

abbrev Path := Text

structure HistoryEvent where
  schemaVersion : ℤ
  seq : ℤ
  eventId : Text
  kind : Text
  createdAt : PyJson.Float
  sessionGeneration : ℤ
  payload : Dict
  sessionId : Option Text := none
  agentId : Option Text := none
  parentAgentId : Option Text := none
  jobId : Option Text := none
  turnId : Option Text := none
  apiRoundId : Option Text := none
  role : Option Text := none
  artifactRefs : List Text := []
  supersedesEventIds : List Text := []
  deriving DecidableEq

def optionalText : Option Text → Json
  | none => .null
  | some text => .str text

def HistoryEvent.toDict (event : HistoryEvent) : Dict :=
  [(lit "schema_version", .int event.schemaVersion),
    (lit "seq", .int event.seq),
    (lit "event_id", .str event.eventId),
    (lit "kind", .str event.kind),
    (lit "created_at", .float event.createdAt),
    (lit "session_generation", .int event.sessionGeneration),
    (lit "payload", .obj event.payload),
    (lit "session_id", optionalText event.sessionId),
    (lit "agent_id", optionalText event.agentId),
    (lit "parent_agent_id", optionalText event.parentAgentId),
    (lit "job_id", optionalText event.jobId),
    (lit "turn_id", optionalText event.turnId),
    (lit "api_round_id", optionalText event.apiRoundId),
    (lit "role", optionalText event.role),
    (lit "artifact_refs", .arr (event.artifactRefs.map .str)),
    (lit "supersedes_event_ids", .arr (event.supersedesEventIds.map .str)),
    (lit "timestamp", .float event.createdAt)]

/-- The line `json.dumps(event.to_dict(), ensure_ascii=False)` of the sink. -/
def HistoryEvent.line (event : HistoryEvent) : Text :=
  dumps spaced (.obj event.toDict)

structure HistoryLedger where
  events : List HistoryEvent := []
  nextSeq : ℤ := 1
  generation : ℤ := 0
  sinkPath : Option Path := none
  sessionId : Option Text := none
  agentId : Option Text := none
  sinkBatchDepth : ℕ := 0
  pendingSinkEvents : List HistoryEvent := []
  unboundEvents : List HistoryEvent := []
  deriving DecidableEq

def HistoryLedger.create (events : List HistoryEvent) (nextSeqFloor : ℕ) (generation : ℤ)
    (sessionId agentId : Option Text) : HistoryLedger where
  events := events.insertionSort fun left right => left.seq ≤ right.seq
  nextSeq := max ((events.map HistoryEvent.seq).max?.getD 0) nextSeqFloor + 1
  generation
  sessionId
  agentId

/-- The keyword arguments of `append`. -/
structure Attribution where
  agentId : Option Text := none
  parentAgentId : Option Text := none
  jobId : Option Text := none
  turnId : Option Text := none
  apiRoundId : Option Text := none
  role : Option Text := none
  artifactRefs : List Text := []
  supersedesEventIds : List Text := []
  deriving DecidableEq

/-- The `uuid4` part of an event identifier and the `time.time()` reading. -/
structure Stamp where
  uuid : Text := []
  time : PyJson.Float := .posInf
  deriving DecidableEq

/-- What one operation reads from its environment: a stamp for each event it may
create, `str` of values that are not strings, and the failures of opening and of
writing the sink. -/
structure Readings where
  first : Stamp := {}
  second : Stamp := {}
  reprOf : Json → Text := fun _ => []
  openFails : Bool := false
  writeFails : Bool := false

/-- The ledger and the decoded lines of every file. -/
structure World where
  ledger : HistoryLedger
  files : Path → List HistoryEvent

/-- How a ledger operation ends: it returns, the sink raises, or the message
handed to it is malformed. -/
inductive Outcome where
  | returned
  | sinkFailed
  | typeError
  deriving DecidableEq

/-! ## The sink -/

/-- `_write_sink_events` raises: the file refuses, or a line is not UTF-8. -/
def writeRaises (readings : Readings) (events : List HistoryEvent) : Bool :=
  readings.writeFails || !events.all fun event => utf8Encodable event.line

def extend (files : Path → List HistoryEvent) (path : Path) (events : List HistoryEvent) :
    Path → List HistoryEvent :=
  Function.update files path (files path ++ events)

def writeSinkEvents (readings : Readings) (world : World) (events : List HistoryEvent) :
    World × Outcome :=
  match world.ledger.sinkPath with
  | none => (world, .returned)
  | some path =>
      if events = [] then (world, .returned)
      else if writeRaises readings events then (world, .sinkFailed)
      else ({ world with files := extend world.files path events }, .returned)

def appendToSink (readings : Readings) (world : World) (event : HistoryEvent) :
    World × Outcome :=
  if world.ledger.sinkPath = none then
    ({ world with ledger := { world.ledger with
        unboundEvents := world.ledger.unboundEvents ++ [event] } }, .returned)
  else if world.ledger.sinkBatchDepth ≠ 0 then
    ({ world with ledger := { world.ledger with
        pendingSinkEvents := world.ledger.pendingSinkEvents ++ [event] } }, .returned)
  else writeSinkEvents readings world [event]

/-- `value or other` for optional strings. -/
def orText (value other : Option Text) : Option Text :=
  if value = none ∨ value = some [] then other else value

def eventId (stamp : Stamp) : Text :=
  lit "he_" ++ stamp.uuid

def newEvent (ledger : HistoryLedger) (stamp : Stamp) (kind : Text) (payload : Dict)
    (attribution : Attribution) : HistoryEvent where
  schemaVersion := 2
  seq := ledger.nextSeq
  eventId := eventId stamp
  kind
  createdAt := stamp.time
  sessionGeneration := ledger.generation
  payload
  sessionId := ledger.sessionId
  agentId := orText attribution.agentId ledger.agentId
  parentAgentId := attribution.parentAgentId
  jobId := attribution.jobId
  turnId := attribution.turnId
  apiRoundId := attribution.apiRoundId
  role := attribution.role
  artifactRefs := attribution.artifactRefs
  supersedesEventIds := attribution.supersedesEventIds

def record (ledger : HistoryLedger) (event : HistoryEvent) : HistoryLedger :=
  { ledger with events := ledger.events ++ [event], nextSeq := ledger.nextSeq + 1 }

def append (readings : Readings) (stamp : Stamp) (world : World) (kind : Text)
    (payload : Dict) (attribution : Attribution) : World × Outcome :=
  let event := newEvent world.ledger stamp kind payload attribution
  appendToSink readings { world with ledger := record world.ledger event } event

def enterBatch (world : World) : World :=
  { world with ledger := { world.ledger with
      sinkBatchDepth := world.ledger.sinkBatchDepth + 1 } }

/-- The `finally` block of `_batch_sink_writes`. -/
def leaveBatch (readings : Readings) (world : World) : World × Outcome :=
  let world := { world with ledger := { world.ledger with
      sinkBatchDepth := world.ledger.sinkBatchDepth - 1 } }
  if world.ledger.sinkBatchDepth = 0 ∧ world.ledger.pendingSinkEvents ≠ [] then
    match writeSinkEvents readings world world.ledger.pendingSinkEvents with
    | (written, .returned) =>
        ({ written with ledger := { written.ledger with pendingSinkEvents := [] } }, .returned)
    | failed => failed
  else (world, .returned)

/-! ## Messages -/

/-- `RESERVED_CONTEXT_TAGS`. -/
def reservedContextTags : List Text :=
  [lit "context_summary", lit "delegated_worker_data", lit "execution_state",
    lit "guidance_resolution", lit "inter_agent_message", lit "legacy_runtime_context",
    lit "project_context", lit "request_interrupted", lit "runtime_context_update",
    lit "runtime_instruction", lit "session_diagnostic", lit "subagent_conflict",
    lit "turn_interrupted"]

def isSyntheticContextMessage (message : Dict) : Bool :=
  match lookup (lit "_rc_synthetic_context") message with
  | some (.obj marker) =>
      match lookup (lit "tag") marker with
      | some (.str tag) => tag ∈ reservedContextTags
      | _ => false
  | _ => false

/-- `str(value or "").startswith("[SESSION_")`: only a string has that start. -/
def isSessionNotice : Json → Bool
  | .str content => (lit "[SESSION_").isPrefixOf content
  | _ => false

def messageSemanticKind (message : Dict) (source : Text) : Option Text :=
  let role := field message "role"
  if source = lit "subagent_result" ∨ source = lit "subagent_deferred" then
    some (lit "subagent_result")
  else if source = lit "subagent_communication" then some (lit "subagent_communication")
  else if source = lit "subagent_conflict" then some (lit "attention_raised")
  else if source = lit "session_exit" ∨ source = lit "session_resume" ∨
      isSessionNotice (field message "content") then some (lit "session_lifecycle")
  else if role = .str (lit "user") ∧ !isSyntheticContextMessage message then
    some (lit "user_message")
  else if role = .str (lit "assistant") ∧ (field message "tool_calls").truthy then
    some (lit "tool_call")
  else if role = .str (lit "assistant") then some (lit "assistant_response")
  else if role = .str (lit "tool") then some (lit "tool_result")
  else none

/-- `str(call["id"])` for one tool call with a true identifier. -/
def toolCallId (reprOf : Json → Text) (call : Json) : Option Text :=
  match call.get? (lit "id") with
  | some (.str id) => if id = [] then none else some id
  | some other => if other.truthy then some (reprOf other) else none
  | none => none

/-- `_message_tool_call_ids`; `none` when the value cannot be iterated. -/
def messageToolCallIds (reprOf : Json → Text) (message : Dict) : Option (List Text) :=
  match field message "tool_calls" with
  | .arr calls => some (calls.filterMap (toolCallId reprOf))
  | .str _ | .obj _ => some []
  | other => if other.truthy then none else some []

def optionalStr : Json → Option Text
  | .str text => some text
  | _ => none

def dropTokenCount (message : Dict) : Dict :=
  drop (lit "_rc_token_count") message

/-- `payload.update(metadata)`. -/
def updateDict (payload metadata : Dict) : Dict :=
  metadata.foldl (fun payload entry => store entry.1 entry.2 payload) payload

structure MessageArguments where
  message : Dict
  source : Text
  agentId : Option Text := none
  turnId : Option Text := none
  apiRoundId : Option Text := none
  metadata : Dict := []
  deriving DecidableEq

/-! ## Operations -/

/-- A `TypeError` that passes a `finally` block, unless the block itself raises. -/
def raiseTypeError : World × Outcome → World × Outcome
  | (world, .returned) => (world, .typeError)
  | failed => failed

def messagePayload (arguments : MessageArguments) : Dict :=
  updateDict
    [(lit "source", .str arguments.source),
      (lit "message", .obj (dropTokenCount arguments.message))] arguments.metadata

def messageAttribution (arguments : MessageArguments) : Attribution where
  agentId := arguments.agentId
  turnId := arguments.turnId
  apiRoundId := arguments.apiRoundId
  role := optionalStr (field arguments.message "role")

/-- The payload of the semantic event that follows a committed message. -/
def semanticPayload (arguments : MessageArguments) (committedId : Text) (ids : List Text) :
    Dict :=
  [(lit "message_event_id", .str committedId), (lit "source", .str arguments.source),
    (lit "tool_call_ids", .arr (ids.map .str)),
    (lit "tool_call_id", field arguments.message "tool_call_id")]

def appendMessage (readings : Readings) (world : World) (arguments : MessageArguments) :
    World × Outcome :=
  let attribution := messageAttribution arguments
  let (world, _) := append readings readings.first (enterBatch world) (lit "message_committed")
    (messagePayload arguments) attribution
  match messageSemanticKind arguments.message arguments.source with
  | none => leaveBatch readings world
  | some kind =>
      match messageToolCallIds readings.reprOf arguments.message with
      | none => raiseTypeError (leaveBatch readings world)
      | some ids =>
          let (world, _) := append readings readings.second world kind
            (semanticPayload arguments (eventId readings.first) ids) attribution
          leaveBatch readings world

structure ViewArguments where
  messages : List Dict
  reason : Text
  historyVersion : ℤ
  checkpointId : Option Text := none
  deriving DecidableEq

def viewPayload (arguments : ViewArguments) : Dict :=
  [(lit "reason", .str arguments.reason),
    (lit "history_version", .int arguments.historyVersion),
    (lit "checkpoint_id", optionalText arguments.checkpointId),
    (lit "items", .arr (arguments.messages.map fun item => .obj (dropTokenCount item)))]

def appendContextView (readings : Readings) (world : World) (arguments : ViewArguments) :
    World × Outcome :=
  let (world, _) := append readings readings.first (enterBatch world)
    (lit "context_view_committed") (viewPayload arguments) {}
  match arguments.checkpointId with
  | none => leaveBatch readings world
  | some checkpointId =>
      let (world, _) := append readings readings.second world (lit "context_checkpoint")
        [(lit "checkpoint_id", .str checkpointId),
          (lit "context_view_event_id", .str (eventId readings.first)),
          (lit "history_version", .int arguments.historyVersion)]
        { supersedesEventIds := [eventId readings.first] }
      leaveBatch readings world

/-- `bind_jsonl`: the queue of unbound events goes to the new sink, and the old
sink stays bound when that write raises. -/
def bindJsonl (readings : Readings) (world : World) (path : Path) : World × Outcome :=
  if readings.openFails then (world, .sinkFailed)
  else
    let bound := { world with ledger := { world.ledger with sinkPath := some path } }
    match writeSinkEvents readings bound world.ledger.unboundEvents with
    | (written, .returned) =>
        ({ written with ledger := { written.ledger with unboundEvents := [] } }, .returned)
    | (_, failed) => (world, failed)

def unbindJsonl (world : World) : World :=
  { world with ledger := { world.ledger with sinkPath := none, pendingSinkEvents := [] } }

def raiseFloor (world : World) (floor : ℕ) : World :=
  if world.ledger.nextSeq ≤ floor then
    { world with ledger := { world.ledger with nextSeq := floor + 1 } }
  else world

def advanceGeneration (world : World) (generation : ℤ) : World :=
  { world with ledger := { world.ledger with generation } }

def bindContext (world : World) (sessionId agentId : Option Text) : World :=
  { world with ledger := { world.ledger with
      sessionId := sessionId.or world.ledger.sessionId
      agentId := agentId.or world.ledger.agentId } }

inductive Operation where
  | append (kind : Text) (payload : Dict) (attribution : Attribution)
  | appendMessage (arguments : MessageArguments)
  | appendContextView (arguments : ViewArguments)
  | bindJsonl (path : Path)
  | unbindJsonl
  | raiseFloor (floor : ℕ)
  | advanceGeneration (generation : ℤ)
  | bindContext (sessionId agentId : Option Text)
  deriving DecidableEq

abbrev Action := Operation × Readings

def perform (world : World) : Action → World × Outcome
  | (.append kind payload attribution, readings) =>
      append readings readings.first world kind payload attribution
  | (.appendMessage arguments, readings) => appendMessage readings world arguments
  | (.appendContextView arguments, readings) => appendContextView readings world arguments
  | (.bindJsonl path, readings) => bindJsonl readings world path
  | (.unbindJsonl, _) => (unbindJsonl world, .returned)
  | (.raiseFloor floor, _) => (raiseFloor world floor, .returned)
  | (.advanceGeneration generation, _) => (advanceGeneration world generation, .returned)
  | (.bindContext sessionId agentId, _) => (bindContext world sessionId agentId, .returned)

def step (world : World) (action : Action) : World :=
  (perform world action).1

/-! ## What an append always does -/

section Append

variable (readings : Readings) (stamp : Stamp) (world : World) (kind : Text) (payload : Dict)
  (attribution : Attribution)

/-- Whether or not the sink raises, an append records its event in memory and
changes no other identity of the ledger. -/
theorem append_records :
    (append readings stamp world kind payload attribution).1.ledger.events =
        world.ledger.events ++ [newEvent world.ledger stamp kind payload attribution] ∧
      (append readings stamp world kind payload attribution).1.ledger.nextSeq =
        world.ledger.nextSeq + 1 ∧
      (append readings stamp world kind payload attribution).1.ledger.generation =
        world.ledger.generation ∧
      (append readings stamp world kind payload attribution).1.ledger.sessionId =
        world.ledger.sessionId ∧
      (append readings stamp world kind payload attribution).1.ledger.agentId =
        world.ledger.agentId := by
  simp only [append, appendToSink, writeSinkEvents]
  repeat' split
  all_goals simp [record]

theorem append_events :
    (append readings stamp world kind payload attribution).1.ledger.events =
      world.ledger.events ++ [newEvent world.ledger stamp kind payload attribution] :=
  (append_records readings stamp world kind payload attribution).1

theorem append_generation :
    (append readings stamp world kind payload attribution).1.ledger.generation =
      world.ledger.generation :=
  (append_records readings stamp world kind payload attribution).2.2.1

end Append

theorem leaveBatch_records (readings : Readings) (world : World) :
    (leaveBatch readings world).1.ledger.events = world.ledger.events ∧
      (leaveBatch readings world).1.ledger.nextSeq = world.ledger.nextSeq ∧
      (leaveBatch readings world).1.ledger.generation = world.ledger.generation := by
  simp only [leaveBatch, writeSinkEvents]
  split
  · split
    · rename_i hwritten
      repeat' split at hwritten
      all_goals cases hwritten
      all_goals simp
    · repeat' split
      all_goals simp
  · simp

/-- A view without a checkpoint is one event. -/
theorem appendContextView_records (readings : Readings) (world : World)
    (arguments : ViewArguments) (hcheckpoint : arguments.checkpointId = none) :
    (appendContextView readings world arguments).1.ledger.events =
        world.ledger.events ++ [newEvent world.ledger readings.first
          (lit "context_view_committed") (viewPayload arguments) {}] ∧
      (appendContextView readings world arguments).1.ledger.nextSeq =
        world.ledger.nextSeq + 1 ∧
      (appendContextView readings world arguments).1.ledger.generation =
        world.ledger.generation := by
  obtain ⟨hevents, hnext, hgeneration, -⟩ := append_records readings readings.first
    (enterBatch world) (lit "context_view_committed") (viewPayload arguments) {}
  obtain ⟨hleaveEvents, hleaveNext, hleaveGeneration⟩ := leaveBatch_records readings
    (append readings readings.first (enterBatch world) (lit "context_view_committed")
      (viewPayload arguments) {}).1
  simp only [appendContextView, hcheckpoint]
  rw [hleaveEvents, hleaveNext, hleaveGeneration, hevents, hnext, hgeneration]
  exact ⟨rfl, rfl, rfl⟩

theorem raiseTypeError_fst (result : World × Outcome) : (raiseTypeError result).1 = result.1 := by
  obtain ⟨world, outcome⟩ := result
  cases outcome <;> rfl

/-- A message is recorded as one `message_committed` event, followed by at most
one event that only points back at it. -/
theorem appendMessage_events (readings : Readings) (world : World)
    (arguments : MessageArguments) :
    ∃ rest, (appendMessage readings world arguments).1.ledger.events =
        world.ledger.events ++ newEvent world.ledger readings.first (lit "message_committed")
          (messagePayload arguments) (messageAttribution arguments) :: rest ∧
      ∀ event ∈ rest, ∃ ids, event.payload =
        semanticPayload arguments (eventId readings.first) ids := by
  have hfirst := append_events readings readings.first (enterBatch world)
    (lit "message_committed") (messagePayload arguments) (messageAttribution arguments)
  simp only [appendMessage]
  cases messageSemanticKind arguments.message arguments.source with
  | none =>
      refine ⟨[], ?_, by simp⟩
      rw [(leaveBatch_records _ _).1, hfirst]
      rfl
  | some kind =>
      cases messageToolCallIds readings.reprOf arguments.message with
      | none =>
          refine ⟨[], ?_, by simp⟩
          simp only [raiseTypeError_fst]
          rw [(leaveBatch_records _ _).1, hfirst]
          rfl
      | some ids =>
          refine ⟨[newEvent (append readings readings.first (enterBatch world)
            (lit "message_committed") (messagePayload arguments)
            (messageAttribution arguments)).1.ledger readings.second kind
            (semanticPayload arguments (eventId readings.first) ids)
            (messageAttribution arguments)], ?_, ?_⟩
          · simp only []
            rw [(leaveBatch_records _ _).1, append_events, hfirst, List.append_assoc]
            rfl
          · intro event hevent
            rw [List.mem_singleton.mp hevent]
            exact ⟨ids, rfl⟩

end ReuleauxCoder.History
