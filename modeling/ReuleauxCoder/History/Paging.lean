import ReuleauxCoder.History.Index

/-!
# Pages of the history

`SessionHistory.read` hands out the indexed events in order, from a cursor that names
an event and an offset into its content.  A page ends after a number of records, of
characters or of encoded characters; a record is cut where it does not fit.  This is
the forward direction, without `event_id`.
-/

namespace ReuleauxCoder.History

open PyText PyJson

def pageChars : ℕ := 12000

def pageEncodedChars : ℕ := 24000

/-! ## Records -/

structure HistoryRecord where
  eventId : Text
  seq : ℤ
  turnId : Option Text
  kind : Text
  role : Option Text
  createdAt : Json
  content : Text
  offset : ℕ
  totalChars : ℕ
  nextOffset : Option ℕ
  artifactRefs : List Json

def optionalNat : Option ℕ → Json
  | none => .null
  | some value => .int value

/-- `asdict(record)`. -/
def HistoryRecord.asDict (record : HistoryRecord) : Json :=
  .obj [(lit "event_id", .str record.eventId),
    (lit "seq", .int record.seq),
    (lit "turn_id", optionalText record.turnId),
    (lit "kind", .str record.kind),
    (lit "role", optionalText record.role),
    (lit "created_at", record.createdAt),
    (lit "content", .str record.content),
    (lit "offset", .int record.offset),
    (lit "total_chars", .int record.totalChars),
    (lit "next_offset", optionalNat record.nextOffset),
    (lit "artifact_refs", .arr record.artifactRefs)]

/-- `len(json.dumps(asdict(record), ensure_ascii=False))`. -/
def HistoryRecord.encodedChars (record : HistoryRecord) : ℕ :=
  (dumps spaced record.asDict).length

/-- `tuple(value)`, which raises on what cannot be iterated. -/
def tuple? : Json → Option (List Json)
  | .arr items => some items
  | .obj fields => some (fields.map fun item => .str item.1)
  | .str text => some (text.map fun c => .str [c])
  | _ => none

/-- `_record`. -/
def Database.record (db : Database) (row : Row) (offset limit : ℕ) : Option HistoryRecord := do
  let start := offset / chunkChars * chunkChars
  let chunks := db.chunks.filter fun chunk =>
    chunk.seq = row.seq && (start ≤ chunk.offset && decide (chunk.offset < offset + limit))
  let ordered := chunks.insertionSort fun left right => left.offset ≤ right.offset
  let content := ((ordered.flatMap Chunk.content).drop (offset - start)).take limit
  let next := offset + content.length
  return {
    eventId := row.eventId
    seq := row.seq
    turnId := row.turnId
    kind := row.kind
    role := row.role
    createdAt := row.createdAt
    content
    offset
    totalChars := row.totalChars
    nextOffset := if next < row.totalChars then some next else none
    artifactRefs := ← tuple? row.artifactRefs }

/-- `_fit_record`. -/
def fitRecord (record : HistoryRecord) (budget : ℕ) : Option (HistoryRecord × ℕ) :=
  let size := record.encodedChars + 2
  if size ≤ budget then some (record, size)
  else
    let overhead := { record with content := [] }.encodedChars + 34
    if budget ≤ overhead then none
    else
      let content := record.content.take ((budget - overhead) / 6)
      if content = [] then none
      else
        let result :=
          { record with content, nextOffset := some (record.offset + content.length) }
        some (result, result.encodedChars + 2)

/-! ## Cursors -/

/-- An event and an offset into its content. -/
structure Position where
  seq : ℤ
  offset : ℕ
  deriving DecidableEq

/-- `f"{seq}:{offset}"`. -/
def Position.cursor (position : Position) : Text :=
  intText position.seq ++ ofChar ':' :: decimal position.offset

/-- `int(text)` on decimal digits with a sign. -/
def int? (text : Text) : Option ℤ :=
  match text with
  | [] => none
  | c :: rest =>
      let digits := if c = '-' ∨ c = '+' then rest else text
      if digits ≠ [] && digits.all isDigit then
        some (if c = '-' then -(digitsValue digits) else digitsValue digits)
      else none

/-- `_cursor`. -/
def position? (cursor : Text) : Option Position :=
  match cursor.splitOn (ofChar ':') with
  | [seq, offset] => do
      let seq ← int? seq
      let offset ← int? offset
      if 1 ≤ seq ∧ 0 ≤ offset then some ⟨seq, offset.toNat⟩ else none
  | _ => none

/-- `_indexed_cursor`. -/
def Database.indexedCursor (db : Database) (start : ℤ) : Position :=
  ⟨max start ((db.events.map Row.seq).max?.getD 0 + 1), 0⟩

/-! ## `read` -/

/-- The arguments that choose events. -/
structure Selection where
  startSeq : ℤ := 1
  turnId : Option Text := none
  messagesOnly : Bool := true

def Selection.keeps (selection : Selection) (row : Row) : Bool :=
  (!selection.messagesOnly || row.message) &&
    selection.turnId.all fun turnId => turnId.isEmpty || row.turnId == some turnId

/-- `limit` and `max_chars`. -/
structure Limits where
  records : ℕ
  chars : ℕ

/-- `_limits`. -/
def Limits.valid (limits : Limits) : Bool :=
  1 ≤ limits.records && limits.records ≤ 200 && 1 ≤ limits.chars && limits.chars ≤ pageChars

inductive ReadError where
  | limits
  | startSeq
  | cursor
  | index
  | overflow
  | artifactRefs
  | beyond
  | metadata
  deriving DecidableEq

structure HistoryPage where
  records : List HistoryRecord
  nextCursor : Option Text
  status : Status

/-- The loop of `read`: the records of the page and where the next one starts. -/
def fill (db : Database) (position : Position) (limit : ℕ) :
    List Row → List HistoryRecord → ℕ → ℕ →
      Except ReadError (List HistoryRecord × Option Position)
  | [], records, _, _ => .ok (records, none)
  | row :: rest, records, chars, encoded =>
      let offset := if row.seq = position.seq then position.offset else 0
      if row.totalChars < offset then .error .beyond
      else if records.length = limit ∨ chars = 0 then .ok (records, some ⟨row.seq, offset⟩)
      else
        match db.record row offset chars with
        | none => .error .artifactRefs
        | some record =>
            match fitRecord record encoded with
            | none =>
                if records = [] then .error .metadata
                else .ok (records, some ⟨row.seq, offset⟩)
            | some (record, size) =>
                match record.nextOffset with
                | some next => .ok (records ++ [record], some ⟨record.seq, next⟩)
                | none =>
                    fill db position limit rest (records ++ [record])
                      (chars - record.content.length) (encoded - size)

/-- The page at a position, from the tables as `_sync` left them. -/
def page (selection : Selection) (limits : Limits) (position : Position) (db : Database)
    (status : Status) : Except ReadError HistoryPage := do
  if !fitsInteger position.seq then .error .overflow
  else
    let rows := (db.events.filter fun row =>
      decide (position.seq ≤ row.seq) && selection.keeps row).take (limits.records + 1)
    let (records, next) ← fill db position limits.records rows [] limits.chars pageEncodedChars
    let next :=
      if next.isNone && decide (status.indexedBytes < status.sourceBytes) then
        some (db.indexedCursor position.seq)
      else next
    return { records, nextCursor := next.map Position.cursor, status }

/-- Where a read starts. -/
def startPosition (selection : Selection) : Option Text → Except ReadError Position
  | none | some [] => .ok ⟨selection.startSeq, 0⟩
  | some cursor =>
      match position? cursor with
      | some position => .ok position
      | none => .error .cursor

/-- `read`, and the tables after it. -/
def read (sqlite : Sqlite) (batch : ℕ) (source : Source) (selection : Selection)
    (limits : Limits) (cursor : Option Text) (db : Database) :
    Database × Except ReadError HistoryPage :=
  if !limits.valid then (db, .error .limits)
  else if selection.startSeq < 1 then (db, .error .startSeq)
  else
    match startPosition selection cursor with
    | .error error => (db, .error error)
    | .ok position =>
        match sync sqlite batch source db with
        | none => (db, .error .index)
        | some (db, status) => (db, page selection limits position db status)

/-! ## Reading on -/

inductive Reading where
  | reading (cursor : Option Text)
  | finished
  | failed (error : ReadError)

/-- A caller that passes each cursor on. -/
structure Reader where
  db : Database
  pages : List (Limits × HistoryPage) := []
  state : Reading := .reading none

def Reader.step (sqlite : Sqlite) (batch : ℕ) (source : Source) (selection : Selection)
    (reader : Reader) (limits : Limits) : Reader :=
  match reader.state with
  | .finished | .failed _ => reader
  | .reading cursor =>
      let (db, result) := read sqlite batch source selection limits cursor reader.db
      match result with
      | .error error => { reader with db, state := .failed error }
      | .ok page =>
          { db
            pages := reader.pages ++ [(limits, page)]
            state :=
              match page.nextCursor with
              | some cursor => .reading (some cursor)
              | none => .finished }

/-- Everything that the reader was given, in order. -/
def Reader.records (reader : Reader) : List HistoryRecord :=
  reader.pages.flatMap fun page => page.2.records

end ReuleauxCoder.History
