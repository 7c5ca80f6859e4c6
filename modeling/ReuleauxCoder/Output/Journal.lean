import ReuleauxCoder.History.Ledger
import ReuleauxCoder.Library.Grouping

/-!
# The output journal

`OutputJournal` checkpoints output that no provider message holds yet.  Tokens
and tool output are buffered per stream and flushed to the ledger by a timer, at
a size boundary, at the end of a tool call and before a message is committed.
The committed message names the streams it acknowledges, and
`interrupted_output` reassembles the streams that no message acknowledged.

Every method runs under the journal's lock, so a method is one action.  The
ledger's appends are taken in memory, where they never raise; what they do to
the sink is the subject of `History.Durability`.
-/

namespace ReuleauxCoder.Output

open PyText PyJson
open History (Attribution Dict HistoryEvent HistoryLedger MessageArguments Stamp newEvent
  optionalText)

inductive OutputKind where
  | response
  | reasoning
  | tool
  deriving DecidableEq

def OutputKind.text : OutputKind → Text
  | .response => lit "response"
  | .reasoning => lit "reasoning"
  | .tool => lit "tool"

/-- The event types that the journal tells apart. -/
inductive AgentEventType where
  | chatStart
  | chatEnd
  | streamToken
  | streamReasoning
  | assistantStreamInterrupted
  | toolOutputDelta
  | toolCallEnd
  | other
  deriving DecidableEq

structure AgentEvent where
  eventType : AgentEventType
  agentId : Option Text := none
  turnId : Option Text := none
  correlationId : Option Text := none
  data : List (Text × Text) := []
  toolName : Option Text := none
  toolResult : Option Text := none
  deriving DecidableEq

/-- `_Stream`. -/
structure OutputStream where
  id : Text
  kind : OutputKind
  turnId : Option Text
  toolCallId : Option Text
  toolName : Option Text
  parts : List Text := []
  replace : Bool := false
  deriving DecidableEq

/-- The key of a stream in the journal's dictionary. -/
def OutputStream.key (stream : OutputStream) : OutputKind × Option Text :=
  (stream.kind, stream.toolCallId)

/-- The journal and its ledger.  `streams` is the dictionary in insertion order;
`timers` counts the timers that were started, each of which has its own number. -/
structure OutputJournal where
  ledger : HistoryLedger
  agentId : Text
  streams : List OutputStream := []
  timer : Option ℕ := none
  timers : ℕ := 0
  pendingChars : ℤ := 0
  deriving DecidableEq

/-- The readings of the environment: the stamp of the event with each sequence
number, and `str` of values that are not strings. -/
structure Environment where
  stamps : ℤ → Stamp
  reprOf : Json → Text

def append (environment : Environment) (ledger : HistoryLedger) (kind : Text) (payload : Dict)
    (attribution : Attribution) : HistoryLedger :=
  History.record ledger
    (newEvent ledger (environment.stamps ledger.nextSeq) kind payload attribution)

/-- The ledger after `append_message`, and whether the call returns: a message
whose `tool_calls` cannot be iterated raises between the two events. -/
def appendMessage (environment : Environment) (ledger : HistoryLedger)
    (arguments : MessageArguments) : HistoryLedger × Bool :=
  let attribution := History.messageAttribution arguments
  let committedId := History.eventId (environment.stamps ledger.nextSeq)
  let ledger := append environment ledger (lit "message_committed")
    (History.messagePayload arguments) attribution
  match History.messageSemanticKind arguments.message arguments.source with
  | none => (ledger, true)
  | some kind =>
      match History.messageToolCallIds environment.reprOf arguments.message with
      | none => (ledger, false)
      | some ids =>
          (append environment ledger kind
            (History.semanticPayload arguments committedId ids) attribution, true)

/-! ## Flushing -/

def OutputStream.pending (stream : OutputStream) : Bool :=
  stream.parts ≠ []

def OutputStream.buffered (stream : OutputStream) : Text :=
  stream.parts.flatten

def checkpointPayload (stream : OutputStream) : Dict :=
  [(lit "stream_id", .str stream.id),
    (lit "kind", .str stream.kind.text),
    (lit "text", .str stream.buffered),
    (lit "tool_call_id", optionalText stream.toolCallId),
    (lit "tool_name", optionalText stream.toolName),
    (lit "replace", .bool stream.replace)]

/-- One round of the flush loop on the ledger. -/
def checkpoint (environment : Environment) (agentId : Text) (ledger : HistoryLedger)
    (stream : OutputStream) : HistoryLedger :=
  append environment ledger (lit "output_checkpoint") (checkpointPayload stream)
    { agentId := some agentId, turnId := stream.turnId }

/-- One round of the flush loop on the stream. -/
def OutputStream.flushed (stream : OutputStream) : OutputStream :=
  if stream.pending then { stream with parts := [], replace := false } else stream

def flushLocked (environment : Environment) (journal : OutputJournal) : OutputJournal :=
  { journal with
    timer := none
    ledger := (journal.streams.filter OutputStream.pending).foldl
      (checkpoint environment journal.agentId) journal.ledger
    streams := journal.streams.map OutputStream.flushed
    pendingChars := journal.pendingChars -
      (journal.streams.map fun stream => (stream.buffered.length : ℤ)).sum }

/-! ## Recording -/

def AgentEventType.kind : AgentEventType → Option OutputKind
  | .streamToken => some .response
  | .streamReasoning => some .reasoning
  | .toolOutputDelta => some .tool
  | .toolCallEnd => some .tool
  | _ => none

def AgentEvent.final (event : AgentEvent) : Bool :=
  event.eventType = .toolCallEnd

def AgentEvent.text (event : AgentEvent) (kind : OutputKind) : Text :=
  if event.final then event.toolResult.getD []
  else (lookup (if kind = .tool then lit "text" else lit "token") event.data).getD []

/-- A chat boundary and an interrupted stream flush, then forget streams. -/
def settle (environment : Environment) (journal : OutputJournal) :
    AgentEventType → OutputJournal
  | .chatStart | .chatEnd => { flushLocked environment journal with streams := [] }
  | .assistantStreamInterrupted =>
      let journal := flushLocked environment journal
      { journal with streams := journal.streams.filter fun stream => stream.kind = .tool }
  | _ => journal

/-- The stream of a key, created when the dictionary has none. -/
def openStream (event : AgentEvent) (kind : OutputKind) (uuid : Text)
    (streams : List OutputStream) : List OutputStream :=
  if streams.any fun stream => stream.key = (kind, event.correlationId) then streams
  else streams ++ [{
    id := uuid
    kind
    turnId := event.turnId
    toolCallId := event.correlationId
    toolName := event.toolName }]

/-- The text of an event joins the buffer; a final text replaces it. -/
def OutputStream.write (final : Bool) (text : Text) (stream : OutputStream) : OutputStream :=
  if final then { stream with parts := [text], replace := true }
  else { stream with parts := stream.parts ++ [text] }

/-- The characters that a final text takes out of the buffer. -/
def discardedChars (final : Bool) (key : OutputKind × Option Text)
    (streams : List OutputStream) : ℤ :=
  if final then
    ((streams.filter fun stream => stream.key = key).map fun stream =>
      (stream.buffered.length : ℤ)).sum
  else 0

def startTimer (journal : OutputJournal) : OutputJournal :=
  match journal.timer with
  | some _ => journal
  | none => { journal with timer := some journal.timers, timers := journal.timers + 1 }

/-- The text of a stream event is buffered, then flushed or left to the timer. -/
def buffer (environment : Environment) (journal : OutputJournal) (event : AgentEvent)
    (kind : OutputKind) (uuid : Text) : OutputJournal :=
  let key := (kind, event.correlationId)
  let text := event.text kind
  let streams := openStream event kind uuid journal.streams
  let journal := { journal with
    streams := streams.map fun stream =>
      if stream.key = key then stream.write event.final text else stream
    pendingChars :=
      journal.pendingChars - discardedChars event.final key streams + text.length }
  if event.final ∨ journal.pendingChars ≥ 65536 then flushLocked environment journal
  else startTimer journal

def record (environment : Environment) (journal : OutputJournal) (event : AgentEvent)
    (uuid : Text) : OutputJournal :=
  if event.agentId ≠ some journal.agentId then journal
  else
    let journal := settle environment journal event.eventType
    match event.eventType.kind with
    | none => journal
    | some kind =>
        if event.text kind = [] ∧ !event.final then journal
        else buffer environment journal event kind uuid

def flushScheduled (environment : Environment) (journal : OutputJournal) (timer : ℕ) :
    OutputJournal :=
  if journal.timer = some timer then flushLocked environment journal else journal

/-! ## Committing -/

/-- The streams that a message completes, by their keys. -/
def acknowledges (message : Dict) (key : OutputKind × Option Text) : Bool :=
  (field message "role" = .str (lit "assistant") && key.1 ≠ .tool) ||
    (field message "role" = .str (lit "tool") && key.1 = .tool &&
      optionalText key.2 = field message "tool_call_id")

/-- `{"output_stream_ids": [...]} if keys else {}`. -/
def outputMetadata (acknowledged : List OutputStream) : Dict :=
  if acknowledged = [] then []
  else [(lit "output_stream_ids", .arr (acknowledged.map fun stream => .str stream.id))]

/-- The call of `append_message` in `Agent._append_message`, with the metadata of
its caller and that of `commit`. -/
def acknowledging (arguments : MessageArguments) (acknowledged : List OutputStream) :
    MessageArguments :=
  { arguments with
    metadata := History.updateDict arguments.metadata (outputMetadata acknowledged) }

/-- The `with` statement of `Agent._append_message`: the message is appended
inside `commit`, and an append that raises leaves the streams in place. -/
def commit (environment : Environment) (journal : OutputJournal)
    (arguments : MessageArguments) : OutputJournal :=
  let acknowledged := journal.streams.filter fun stream =>
    acknowledges arguments.message stream.key
  let journal := flushLocked environment journal
  let (ledger, returned) :=
    appendMessage environment journal.ledger (acknowledging arguments acknowledged)
  { journal with
    ledger
    streams :=
      if returned then
        journal.streams.filter fun stream => !acknowledges arguments.message stream.key
      else journal.streams }

def close (environment : Environment) (journal : OutputJournal) : OutputJournal :=
  { flushLocked environment journal with streams := [] }

inductive Action where
  | record (event : AgentEvent) (uuid : Text)
  | flushScheduled (timer : ℕ)
  | commit (arguments : MessageArguments)
  | close
  | rebind (agentId : Text)
  | append (kind : Text) (payload : Dict) (attribution : Attribution)

/-- `rebind` is `bind_session_persistence`, which closes the journal and starts
another on the same ledger; `append` is any other fact of the runtime. -/
def step (environment : Environment) (journal : OutputJournal) : Action → OutputJournal
  | .record event uuid => record environment journal event uuid
  | .flushScheduled timer => flushScheduled environment journal timer
  | .commit arguments => commit environment journal arguments
  | .close => close environment journal
  | .rebind agentId =>
      { ledger := (close environment journal).ledger, agentId, timers := journal.timers }
  | .append kind payload attribution =>
      { journal with ledger := append environment journal.ledger kind payload attribution }

/-! ## Recovery -/

/-- What `interrupted_output` reads from a checkpoint event. -/
structure Checkpoint where
  seq : ℤ
  streamId : Text
  kind : Text
  toolName : Option Text
  text : Text
  replace : Bool
  deriving DecidableEq

/-- An optional string of a payload; `none` for a value of another type. -/
def optionalStr? : Json → Option (Option Text)
  | .null => some none
  | .str text => some (some text)
  | _ => none

def streamId? (event : HistoryEvent) : Option Text :=
  match lookup (lit "stream_id") event.payload with
  | some (.str id) => some id
  | _ => none

/-- `none` for a payload that `normalize_history_event` refuses. -/
def readCheckpoint (event : HistoryEvent) : Option Checkpoint :=
  match streamId? event, lookup (lit "kind") event.payload, lookup (lit "text") event.payload,
      optionalStr? (field event.payload "tool_name") with
  | some streamId, some (.str kind), some (.str text), some toolName => some {
      seq := event.seq
      streamId
      kind
      toolName
      text
      replace := (field event.payload "replace").truthy }
  | _, _, _, _ => none

def streamLabel (kind : Text) (toolName : Option Text) : Text :=
  kind ++ if toolName.getD [] = [] then [] else lit " / " ++ toolName.getD []

/-- An entry of the dictionary `streams`. -/
structure Recovered where
  seq : ℤ
  label : Text
  parts : List Text
  deriving DecidableEq

def Recovered.start (checkpoint : Checkpoint) : Recovered where
  seq := checkpoint.seq
  label := streamLabel checkpoint.kind checkpoint.toolName
  parts := []

def Recovered.add (recovered : Recovered) (checkpoint : Checkpoint) : Recovered :=
  { recovered with
    parts := (if checkpoint.replace then [] else recovered.parts) ++ [checkpoint.text] }

/-- The identifiers that one committed message acknowledges. -/
def acknowledgedIds (event : HistoryEvent) : Option (List Text) :=
  match lookup (lit "output_stream_ids") event.payload with
  | none => some []
  | some (.arr ids) => ids.mapM History.optionalStr
  | some _ => none

def completedStreams (events : List HistoryEvent) : Option (List Text) :=
  ((events.filter fun event => event.kind = lit "message_committed").mapM
    acknowledgedIds).map List.flatten

def recoverStep (completed : List Text) (streams : List (Text × Recovered))
    (event : HistoryEvent) : Option (List (Text × Recovered)) :=
  if event.kind ≠ lit "output_checkpoint" then some streams
  else
    match streamId? event with
    | none => none
    | some id =>
        if id ∈ completed then some streams
        else (readCheckpoint event).map
          (Grouping.put Checkpoint.streamId Recovered.start Recovered.add streams)

def recoveredText (label text : Text) : Text :=
  lit "[Recovered " ++ label ++ lit " — session interrupted]\n" ++ text

/-- The result is `none` on a payload of a type that a validated ledger never
holds. -/
def interruptedOutput (events : List HistoryEvent) : Option (List (ℤ × Text)) := do
  let completed ← completedStreams events
  let streams ← events.foldlM (recoverStep completed) []
  pure (streams.map fun entry =>
    (entry.2.seq, recoveredText entry.2.label entry.2.parts.flatten))

end ReuleauxCoder.Output
