import ReuleauxCoder.History.Ledger
import ReuleauxCoder.Library.Pieces

/-!
# The history index

`SessionHistory._sync` reads the session's `events.jsonl` on from where it stopped and
inserts one row for each event and one for each chunk of its content, a bounded number
of bytes at a time.  The tables keep sequence numbers and event identifiers unique; an
exception rolls the whole batch back.  What SQLite makes of a bound value is a parameter.
-/

namespace ReuleauxCoder.History

open PyText PyJson

/-! ## The file -/

/-- What `json.loads` makes of a line: `undecodable` is one of the two exceptions that
`_sync` expects, `raised` any other. -/
inductive Decoded where
  | event (event : Json)
  | undecodable
  | raised

/-- A line of the ledger, with its size in bytes. -/
structure Line where
  size : ℕ
  decoded : Decoded

/-- The ledger as `fstat` and `readline` see it; `tail` counts the bytes after the last
line end. -/
structure Source where
  device : Text
  inode : Text
  mtime : ℤ
  lines : List Line
  tail : ℕ := 0

def Source.size (source : Source) : ℕ :=
  (source.lines.map Line.size).sum + source.tail

/-! ## The tables -/

/-- What the columns hold after a Python value was bound; `none` is an exception.
For a primary key that is `NULL` SQLite chooses one, beside the keys of the table. -/
structure Sqlite where
  key : Json → Option (Option ℤ)
  nextKey : List ℤ → ℤ
  text : Json → Option (Option Text)
  real : Json → Option Json

structure Row where
  seq : ℤ
  eventId : Text
  turnId : Option Text
  kind : Text
  role : Option Text
  createdAt : Json
  artifactRefs : Json
  totalChars : ℕ
  message : Bool

structure Chunk where
  seq : ℤ
  offset : ℕ
  content : Text

/-- The row of the table `source`. -/
structure Progress where
  device : Text
  inode : Text
  position : ℕ
  mtime : ℤ
  skipped : ℕ

/-- The tables; `events` is in the order of its primary key. -/
structure Database where
  progress : Option Progress := none
  events : List Row := []
  chunks : List Chunk := []

def chunkChars : ℕ := 4096

/-- The range of an integer column. -/
def fitsInteger (value : ℤ) : Bool :=
  -(2 ^ 63) ≤ value && value < 2 ^ 63

/-! ## Rows -/

/-- `value or ""`, dumped where it is no string. -/
def messageContent (content : Json) : Text :=
  if content.truthy then
    match content with
    | .str text => text
    | value => dumps spaced value
  else []

/-- A value that can be looked up in a set. -/
def isHashable : Json → Bool
  | .arr _ | .obj _ => false
  | _ => true

/-- `is_synthetic_context_message`, which raises on a tag that has no hash. -/
def isSynthetic? (message : Dict) : Option Bool :=
  match field message "_rc_synthetic_context" with
  | .obj marker =>
      if isHashable (field marker "tag") then some (isSyntheticContextMessage message) else none
  | _ => some false

/-- Whether `_content` counts a message as visible. -/
def visible? (message : Dict) : Option Bool :=
  match field message "role" with
  | .str role =>
      if role = lit "user" ∨ role = lit "assistant" ∨ role = lit "tool" then
        (isSynthetic? message).map not
      else some false
  | .arr _ | .obj _ => none
  | _ => some false

/-- The text of a committed message. -/
def messageText (message : Dict) : Option Text := do
  let content := messageContent (field message "content")
  let reasoning := field message "reasoning_content"
  let content ←
    if reasoning.truthy then
      match reasoning with
      | .str text => some (lit "[Reasoning]\n" ++ text ++ lit "\n\n[Response]\n" ++ content)
      | _ => none
    else some content
  let calls := field message "tool_calls"
  return if calls.truthy then content ++ lit "\n" ++ dumps spaced calls else content

/-- The text of a checkpoint; an empty list or object is as good as an empty text. -/
def checkpointText (payload : Dict) : Option Text :=
  match (lookup (lit "text") payload).getD (.str []) with
  | .str text => some text
  | .arr [] | .obj [] => some []
  | _ => none

/-- `_content`. -/
def content? (event : Dict) : Option (Text × Bool) := do
  let payload ← lookup (lit "payload") event
  let kind ← lookup (lit "kind") event
  if kind = .str (lit "message_committed") then
    match payload with
    | .obj payload =>
        match lookup (lit "message") payload with
        | some (.obj message) => return (← messageText message, ← visible? message)
        | _ => none
    | _ => none
  else if kind = .str (lit "output_checkpoint") then
    match payload with
    | .obj payload => return (← checkpointText payload, false)
    | _ => none
  else return (dumps spaced payload, false)

/-- The row and the content of an event; a key that is `NULL` is passed on. -/
structure Entry where
  key : Option ℤ
  row : ℤ → Row
  content : Text

def entryOf? (sqlite : Sqlite) : Json → Option Entry
  | .obj event => do
      let (content, message) ← content? event
      let key ← sqlite.key (← lookup (lit "seq") event)
      let eventId ← (← sqlite.text (← lookup (lit "event_id") event))
      let turnId ← sqlite.text (field event "turn_id")
      let kind ← (← sqlite.text (← lookup (lit "kind") event))
      let role ← sqlite.text (field event "role")
      let createdAt ← sqlite.real
        ((lookup (lit "created_at") event).getD ((lookup (lit "timestamp") event).getD (.int 0)))
      let artifactRefs := (lookup (lit "artifact_refs") event).getD (.arr [])
      if fitsInteger content.length && utf8Encodable content &&
          (key.isSome || content.isEmpty) then
        return {
          key
          row := fun seq =>
            { seq, eventId, turnId, kind, role, createdAt, artifactRefs
              totalChars := content.length
              message }
          content }
      else none
  | _ => none

def insertRow (row : Row) : List Row → List Row :=
  List.orderedInsert (fun left right => left.seq ≤ right.seq) row

def chunkRows (seq : ℤ) (content : Text) : List Chunk :=
  (Pieces.chunks chunkChars content).map fun chunk => ⟨seq, chunk.1, chunk.2⟩

/-- Both `INSERT` statements; `none` is an `IntegrityError`. -/
def Database.insert (sqlite : Sqlite) (db : Database) (entry : Entry) : Option Database :=
  let row := entry.row (entry.key.getD (sqlite.nextKey (db.events.map Row.seq)))
  if row.seq ∉ db.events.map Row.seq ∧ row.eventId ∉ db.events.map Row.eventId then
    some
      { db with
        events := insertRow row db.events
        chunks := db.chunks ++ chunkRows row.seq entry.content }
  else none

/-! ## `_sync` -/

/-- `position`, size, `skipped` and `awaiting_tail`, which every page repeats. -/
structure Status where
  indexedBytes : ℕ
  sourceBytes : ℕ
  skippedRecords : ℕ
  awaitingTail : Bool

/-- The lines that follow a position. -/
def linesFrom : ℕ → List Line → List Line
  | _, [] => []
  | 0, lines => lines
  | position + 1, line :: rest => linesFrom (position + 1 - line.size) rest

/-- The loop of `_sync`: position, skipped lines, tables, and whether an unfinished
line was met before `last`. -/
def indexLines (sqlite : Sqlite) (last : ℕ) :
    List Line → ℕ → ℕ → Database → Option (ℕ × ℕ × Database × Bool)
  | [], position, skipped, db => some (position, skipped, db, position < last)
  | line :: rest, position, skipped, db =>
      if position < last then
        match line.decoded with
        | .raised => none
        | .undecodable => indexLines sqlite last rest (position + line.size) (skipped + 1) db
        | .event event => do
            let db ← db.insert sqlite (← entryOf? sqlite event)
            indexLines sqlite last rest (position + line.size) skipped db
      else some (position, skipped, db, false)

/-- The file is not the one that was indexed so far. -/
def replaced (source : Source) (progress : Progress) : Bool :=
  (progress.device, progress.inode) != (source.device, source.inode) ||
    source.size < progress.position ||
    (source.size == progress.position && source.mtime != progress.mtime)

/-- `_sync` from a position, with the rows that are kept. -/
def syncFrom (sqlite : Sqlite) (batch : ℕ) (source : Source) (position skipped : ℕ)
    (db : Database) : Option (Database × Status) := do
  let last := min source.size (position + batch)
  let (position, skipped, db, awaiting) ←
    indexLines sqlite last (linesFrom position source.lines) position skipped db
  let progress : Progress :=
    { device := source.device, inode := source.inode, position, mtime := source.mtime, skipped }
  return ({ db with progress := some progress },
    ⟨position, max position source.size, skipped, awaiting⟩)

/-- `_sync` with at most about `batch` bytes; `none` is an exception, after which the
tables are as before. -/
def sync (sqlite : Sqlite) (batch : ℕ) (source : Source) (db : Database) :
    Option (Database × Status) :=
  match db.progress with
  | none => syncFrom sqlite batch source 0 0 db
  | some progress =>
      if replaced source progress then syncFrom sqlite batch source 0 0 {}
      else if progress.position = source.size then
        some (db, ⟨progress.position, source.size, progress.skipped, false⟩)
      else syncFrom sqlite batch source progress.position progress.skipped db

end ReuleauxCoder.History
