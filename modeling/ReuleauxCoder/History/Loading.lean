import ReuleauxCoder.History.Index
import ReuleauxCoder.Persistence.Validation

/-!
# Loading the ledger

`_load_history_events` reads the same `events.jsonl` as the index, but line by line and
with the strict validator: what it cannot use it drops and reports.  It renumbers one
old pattern of reused sequence numbers, rewriting the file, and keeps an event only
behind smaller sequence numbers.
-/

namespace ReuleauxCoder.History

open PyText PyJson Context Persistence

/-! ## The file -/

/-- A line of the ledger; `constants` says that it spells a number such as `NaN`. -/
structure LedgerLine extends Line where
  constants : Bool := false
  filled : 0 < size

/-- The lines that end, and a last one that does not. -/
structure LedgerFile where
  device : Text
  inode : Text
  mtime : ℤ
  lines : List LedgerLine
  tail : Option LedgerLine := none

def LedgerFile.source (file : LedgerFile) : Source where
  device := file.device
  inode := file.inode
  mtime := file.mtime
  lines := file.lines.map LedgerLine.toLine
  tail := (file.tail.map fun line => line.size).getD 0

/-! ## One line -/

/-- Conversions that the loader makes: `str`, `int` and `float` of values. -/
structure Conversions where
  builtins : Builtins
  float : ℤ → PyJson.Float

def intOf : Json → ℤ
  | .int value => value
  | _ => 0

def Conversions.floatOf (conversions : Conversions) : Json → PyJson.Float
  | .float value => value
  | value => conversions.float (intOf value)

/-- `HistoryEvent.from_dict` on a validated object. -/
def HistoryEvent.fromDict (conversions : Conversions) (data : Dict) : HistoryEvent where
  schemaVersion := intOf (fieldOr data "schema_version" (.int 1))
  seq := intOf (fieldOr data "seq" (.int 0))
  eventId := textOf (field data "event_id")
  kind := textOf (field data "kind")
  createdAt := conversions.floatOf (fieldOr data "timestamp" (fieldOr data "created_at" (.int 0)))
  sessionGeneration := intOf (fieldOr data "session_generation" (.int 0))
  payload := fieldsOf (field data "payload")
  sessionId := optionalStr (field data "session_id")
  agentId := optionalStr (field data "agent_id")
  parentAgentId := optionalStr (field data "parent_agent_id")
  jobId := optionalStr (field data "job_id")
  turnId := optionalStr (field data "turn_id")
  apiRoundId := optionalStr (field data "api_round_id")
  role := optionalStr (field data "role")
  artifactRefs := (itemsOf (field data "artifact_refs")).map textOf
  supersedesEventIds := (itemsOf (field data "supersedes_event_ids")).map textOf

/-- `len(value or ())`. -/
def length? (value : Json) : Option Json :=
  if value.truthy then
    match value with
    | .arr items => some (.int items.length)
    | .obj fields => some (.int fields.length)
    | .str text => some (.int text.length)
    | _ => none
  else some (.int 0)

/-- `_compact_legacy_request_event`. -/
def compactLegacyRequestEvent (event : HistoryEvent) : Option HistoryEvent :=
  if event.kind ≠ lit "request_committed" then some event
  else
    match lookup (lit "replay") event.payload with
    | some (.obj replay) =>
        if lookup (lit "items") replay = none then some event
        else do
          let instructions ← length? (field replay "instructions")
          let tools ← length? (field replay "tools")
          let items ← length? (field replay "items")
          let compacted : Dict := [
            (lit "schema_version", field replay "schema_version"),
            (lit "view_id", field replay "view_id"),
            (lit "cache_epoch", fieldOr replay "cache_epoch" (.int 0)),
            (lit "history_version", fieldOr replay "history_version" (.int 0)),
            (lit "model_profile", field replay "model_profile"),
            (lit "provider_family", field replay "provider_family"),
            (lit "request_mode", field replay "request_mode"),
            (lit "instruction_count", instructions),
            (lit "tool_count", tools),
            (lit "item_count", items),
            (lit "stable_prefix_hash", field replay "stable_prefix_hash"),
            (lit "canonical_payload_hash", field replay "canonical_payload_hash"),
            (lit "migrated_from_full_replay", .bool true)]
          return { event with payload := store (lit "replay") (.obj compacted) event.payload }
    | _ => some event

/-- What the loader makes of a line; `none` is reported and dropped. -/
def LedgerLine.load? (conversions : Conversions) (sessionId : Text) (line : LedgerLine) :
    Option HistoryEvent :=
  match line.decoded with
  | .event (.obj data) =>
      if line.constants || !isStrictUtf8Tree (.obj data) 0 then none
      else
        match validateHistoryEventPayload conversions.builtins (some sessionId) (.obj data) with
        | .error _ => none
        | .ok _ => compactLegacyRequestEvent (.fromDict conversions data)
  | _ => none

/-! ## Reused sequence numbers -/

/-- The content of the message of an event. -/
def messageContentOf (event : HistoryEvent) : Option Text :=
  match lookup (lit "message") event.payload with
  | some (.obj message) => optionalStr (field message "content")
  | _ => none

/-- `matches_legacy_bug`. -/
def matchesLegacyBug (diagnostic exitMessage exitLifecycle following : HistoryEvent) : Bool :=
  diagnostic.kind = lit "message_committed" &&
    field diagnostic.payload "source" = .str (lit "session_diagnostic") &&
    (messageContentOf diagnostic).any (fun content =>
      decide (lit "[LLM_ERROR_DIAGNOSTIC]" <:+: content)) &&
    exitMessage.kind = lit "message_committed" &&
    field exitMessage.payload "source" = .str (lit "session_exit") &&
    (messageContentOf exitMessage).any (fun content =>
      (lit "[SESSION_EXIT]").isPrefixOf content) &&
    exitMessage.seq = diagnostic.seq &&
    exitLifecycle.kind = lit "session_lifecycle" &&
    field exitLifecycle.payload "source" = .str (lit "session_exit") &&
    field exitLifecycle.payload "message_event_id" = .str exitMessage.eventId &&
    exitLifecycle.seq = diagnostic.seq + 1 &&
    following.seq = diagnostic.seq + 3

/-- `_repair_legacy_store_side_sequence_reuse`. -/
def repairSequenceReuse : List HistoryEvent → List HistoryEvent × Bool
  | diagnostic :: exitMessage :: exitLifecycle :: following :: rest =>
      if matchesLegacyBug diagnostic exitMessage exitLifecycle following then
        (diagnostic :: { exitMessage with seq := diagnostic.seq + 1 } ::
          { exitLifecycle with seq := diagnostic.seq + 2 } ::
          (repairSequenceReuse (following :: rest)).1, true)
      else
        let (later, changed) := repairSequenceReuse
          (exitMessage :: exitLifecycle :: following :: rest)
        (diagnostic :: later, changed)
  | events => (events, false)

/-- `_encode_history_event`: the line that is written for an event. -/
def encodeHistoryEvent? (event : HistoryEvent) : Option LedgerLine := do
  let event ← compactLegacyRequestEvent event
  let payload : Json := .obj event.toDict
  if isStrictUtf8Tree payload 0 && isFiniteTree payload then
    return {
      size := utf8Size (dumps compact payload.sortKeys) + 1
      decoded := .event payload.sortKeys
      filled := Nat.succ_pos _ }
  else none

/-! ## The whole file -/

/-- An event with the line that holds it. -/
structure Told where
  line : LedgerLine
  event : HistoryEvent

/-- The loop that drops repeated identifiers and sequence numbers that do not grow. -/
def keepOrdered : List Text → ℤ → List Told → List Told
  | _, _, [] => []
  | seen, previous, told :: rest =>
      if told.event.eventId ∈ seen ∨ told.event.seq ≤ previous then
        keepOrdered seen previous rest
      else told :: keepOrdered (told.event.eventId :: seen) told.event.seq rest

/-- `_history_event_ordering_is_valid`. -/
def isOrdered : List Text → ℤ → List HistoryEvent → Bool
  | _, _, [] => true
  | seen, previous, event :: rest =>
      !(event.eventId ∈ seen || event.seq ≤ previous) &&
        isOrdered (event.eventId :: seen) event.seq rest

/-- How a replacement of the file ends. -/
structure Replacement where
  fails : Bool
  inode : Text
  mtime : ℤ

/-- The file as the loader leaves it, and the events that it decoded: those of ended
lines and that of the last line. -/
structure Loaded where
  file : LedgerFile
  told : List Told
  unended : Option Told

def Loaded.events (loaded : Loaded) : List Told :=
  keepOrdered [] 0 (loaded.told ++ loaded.unended.toList)

def LedgerLine.told? (conversions : Conversions) (sessionId : Text) (line : LedgerLine) :
    Option Told :=
  (line.load? conversions sessionId).map (Told.mk line)

/-- `_atomic_replace_history`, where the repaired events allow it. -/
def replaceHistory? (replacement : Replacement) (file : LedgerFile) (events : List HistoryEvent) :
    Option Loaded := do
  if replacement.fails then none
  else
    let told ← events.mapM fun event => (encodeHistoryEvent? event).map fun line => ⟨line, event⟩
    return {
      file := { file with
        inode := replacement.inode
        mtime := replacement.mtime
        lines := told.map Told.line
        tail := none }
      told
      unended := none }

/-- `_load_history_events`. -/
def load (conversions : Conversions) (sessionId : Text) (replacement : Replacement)
    (file : LedgerFile) : Loaded :=
  let told := file.lines.filterMap (LedgerLine.told? conversions sessionId)
  let unended := file.tail.bind (LedgerLine.told? conversions sessionId)
  let decoded := told ++ unended.toList
  let (repaired, changed) := repairSequenceReuse (decoded.map Told.event)
  let complete := changed && decoded.length = (file.lines ++ file.tail.toList).length &&
    isOrdered [] 0 repaired
  if complete then (replaceHistory? replacement file repaired).getD ⟨file, told, unended⟩
  else ⟨file, told, unended⟩

end ReuleauxCoder.History
