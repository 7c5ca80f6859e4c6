import ReuleauxCoder.History.Paging
import ReuleauxCoder.Library.Occurrences

/-!
# Searching the history

`SessionHistory.search` goes through the stored chunks from its cursor on, each together
with the end of the chunk before it, and writes an excerpt for the first match of each.
A page ends after a number of chunks, of records or of characters, or where the next
excerpt has no room.
-/

namespace ReuleauxCoder.History

open PyText PyJson Occurrences

def searchChunks : ℕ := 256

/-- What is looked for; `same` is how the regular expression compares characters when it
ignores case. -/
structure Query where
  same : CodePoint → CodePoint → Bool
  pattern : Text
  messagesOnly : Bool := true

inductive SearchError where
  | limits
  | pattern
  | cursor
  | index
  | overflow
  | artifactRefs
  | metadata
  deriving DecidableEq

/-! ## The stored chunks -/

/-- A chunk and its event, as the two tables are joined. -/
abbrev Stored := Chunk × Row

def Chunk.position (chunk : Chunk) : Position :=
  ⟨chunk.seq, chunk.offset⟩

/-- `(left.seq, left.offset) <= (right.seq, right.offset)`. -/
def Position.AtMost (left right : Position) : Prop :=
  left.seq < right.seq ∨ left.seq = right.seq ∧ left.offset ≤ right.offset

instance (left right : Position) : Decidable (left.AtMost right) :=
  inferInstanceAs (Decidable (_ ∨ _))

/-- The chunks from a position on, in order. -/
def Database.chunksFrom (db : Database) (position : Position) : List Stored :=
  let chunks := db.chunks.filter fun chunk => decide (position.AtMost chunk.position)
  let ordered := chunks.insertionSort fun left right => left.position.AtMost right.position
  ordered.filterMap fun chunk =>
    (db.events.find? fun row => row.seq = chunk.seq).map fun row => (chunk, row)

/-- `lead`: what an occurrence that ends in the chunk may begin in. -/
def Database.leadOf (db : Database) (query : Query) (chunk : Chunk) : Text :=
  match db.chunks.find? fun other =>
      other.seq = chunk.seq && decide (other.offset + chunkChars = chunk.offset) with
  | some before => if 1 < query.pattern.length then lead query.pattern before.content else []
  | none => []

/-- `found.start()`, in the chunk with its lead. -/
def Database.foundIn (db : Database) (query : Query) (chunk : Chunk) : Option ℕ :=
  find? query.same query.pattern (db.leadOf query chunk ++ chunk.content)

/-- Where the excerpt of a match starts. -/
def Database.excerptStart (db : Database) (query : Query) (chunk : Chunk) (found : ℕ) : ℕ :=
  chunk.offset - (db.leadOf query chunk).length + found - 120

/-! ## One page -/

/-- The variables of the loop. -/
structure Scan where
  records : List HistoryRecord := []
  chars : ℕ
  encoded : ℕ := pageEncodedChars

/-- The page ends before the chunk. -/
def Scan.full (scan : Scan) (limits : Limits) (index : ℕ) : Bool :=
  index == searchChunks || scan.records.length == limits.records || scan.chars == 0

/-- One pass of the loop, where the page goes on; `none` ends the page. -/
def Scan.visit (db : Database) (query : Query) (scan : Scan) (stored : Stored) :
    Except SearchError (Option Scan) :=
  if query.messagesOnly && !stored.2.message then .ok (some scan)
  else
    match db.foundIn query stored.1 with
    | none => .ok (some scan)
    | some found =>
        let start := db.excerptStart query stored.1 found
        match db.record stored.2 start (min scan.chars 400) with
        | none => .error .artifactRefs
        | some record =>
            match fitRecord record scan.encoded with
            | none => if scan.records = [] then .error .metadata else .ok none
            | some (record, size) =>
                .ok (some {
                  records := scan.records ++ [record]
                  chars := scan.chars - record.content.length
                  encoded := scan.encoded - size })

/-- The loop of `search`: the records of the page and where the next one starts. -/
def Scan.run (db : Database) (query : Query) (limits : Limits) :
    List Stored → ℕ → Scan → Except SearchError (Scan × Option Position)
  | [], _, scan => .ok (scan, none)
  | stored :: rest, index, scan =>
      if scan.full limits index then .ok (scan, some stored.1.position)
      else
        match scan.visit db query stored with
        | .error error => .error error
        | .ok none => .ok (scan, some stored.1.position)
        | .ok (some next) => Scan.run db query limits rest (index + 1) next

/-- The page at a position, from the tables as `_sync` left them. -/
def searchPage (query : Query) (limits : Limits) (position : Position) (db : Database)
    (status : Status) : Except SearchError HistoryPage :=
  if !(fitsInteger position.seq && fitsInteger position.offset) then .error .overflow
  else
    match Scan.run db query limits ((db.chunksFrom position).take (searchChunks + 1)) 0
      { chars := limits.chars } with
    | .error error => .error error
    | .ok (scan, next) =>
        let next :=
          if next.isNone && decide (status.indexedBytes < status.sourceBytes) then
            some (db.indexedCursor position.seq)
          else next
        .ok { records := scan.records, nextCursor := next.map Position.cursor, status }

/-- Where a search starts. -/
def searchPosition? : Option Text → Option Position
  | none | some [] => some ⟨1, 0⟩
  | some cursor => position? cursor

/-- `search`, and the tables after it. -/
def search (sqlite : Sqlite) (batch : ℕ) (source : Source) (query : Query) (limits : Limits)
    (cursor : Option Text) (db : Database) : Database × Except SearchError HistoryPage :=
  if !limits.valid then (db, .error .limits)
  else if query.pattern.length < 1 ∨ 256 < query.pattern.length then (db, .error .pattern)
  else
    match searchPosition? cursor with
    | none => (db, .error .cursor)
    | some position =>
        match sync sqlite batch source db with
        | none => (db, .error .index)
        | some (db, status) => (db, searchPage query limits position db status)

/-! ## Searching on -/

inductive Searching where
  | searching (cursor : Option Text)
  | finished
  | failed (error : SearchError)
  deriving DecidableEq

/-- A caller that passes each cursor on. -/
structure Seeker where
  db : Database
  records : List HistoryRecord := []
  state : Searching := .searching none

def Seeker.step (sqlite : Sqlite) (batch : ℕ) (source : Source) (query : Query)
    (seeker : Seeker) (limits : Limits) : Seeker :=
  match seeker.state with
  | .finished | .failed _ => seeker
  | .searching cursor =>
      let (db, result) := search sqlite batch source query limits cursor seeker.db
      match result with
      | .error error => { seeker with db, state := .failed error }
      | .ok page =>
          { db
            records := seeker.records ++ page.records
            state :=
              match page.nextCursor with
              | some cursor => .searching (some cursor)
              | none => .finished }

theorem Seeker.step_page {sqlite : Sqlite} {batch : ℕ} {source : Source} {query : Query}
    {limits : Limits} {seeker : Seeker} {cursor : Option Text} {db : Database}
    {page : HistoryPage} (hstate : seeker.state = .searching cursor)
    (hsearch : search sqlite batch source query limits cursor seeker.db = (db, .ok page)) :
    seeker.step sqlite batch source query limits =
      { db
        records := seeker.records ++ page.records
        state :=
          match page.nextCursor with
          | some cursor => .searching (some cursor)
          | none => .finished } := by
  simp only [step, hstate, hsearch]

/-- The content of an event, as the index holds it. -/
def Database.contentOf (db : Database) (row : Row) : Text :=
  ((db.chunks.filter fun chunk => chunk.seq = row.seq).insertionSort fun left right =>
    left.offset ≤ right.offset).flatMap Chunk.content

/-- The event is one that the search is to report. -/
def Database.Matches (db : Database) (query : Query) (row : Row) : Prop :=
  (query.messagesOnly = true → row.message = true) ∧
    Contains query.same query.pattern (db.contentOf row)

end ReuleauxCoder.History
