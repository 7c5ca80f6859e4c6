import ReuleauxCoder.History.PagedReading
import ReuleauxCoder.History.Tables

/-!
# Reading the tables of any ledger

A reader of tables that have caught up with their file gets the messages of the ledger
in the order of their sequence numbers.  It fails exactly where a message does not fit
on a page, or where the cursor behind the last row leaves the range of a key.
-/

namespace ReuleauxCoder.History

open PyText PyJson Pieces List

/-- What SQLite documents of its columns. -/
structure Lawful (sqlite : Sqlite) : Prop where
  key_int : ∀ value, fitsInteger value = true → sqlite.key (.int value) = some (some value)
  text_str : ∀ text, utf8Encodable text = true → sqlite.text (.str text) = some (some text)
  key_fits : ∀ value key, sqlite.key value = some (some key) → fitsInteger key = true
  next_fits : ∀ keys, fitsInteger (sqlite.nextKey keys) = true

/-- Wherever a page begins in an event, some of it fits. -/
def FitsPage (item : Row × Text) : Prop :=
  (tuple? item.1.artifactRefs).isSome ∧
    ∀ offset chars, offset = 0 ∨ offset < item.2.length → 1 ≤ chars → chars ≤ pageChars →
      fitRecord (describe item offset chars) pageEncodedChars ≠ none

/-- The rows of the table. -/
abbrev Source.shelf (source : Source) (sqlite : Sqlite) : List (Row × Text) :=
  shelve (tableRows sqlite source.lines)

/-- The messages of a ledger, in the order of the table. -/
def served (sqlite : Sqlite) (source : Source) : List (Row × Text) :=
  selected (source.shelf sqlite) {} ⟨1, 0⟩

variable {sqlite : Sqlite} {source : Source}

theorem mem_shelve {rows : List (Row × Text)} {item : Row × Text} :
    item ∈ shelve rows ↔ item ∈ rows :=
  (perm_shelve rows).mem_iff

theorem mem_served {item : Row × Text} :
    item ∈ served sqlite source ↔ item ∈ tableRows sqlite source.lines ∧ 1 ≤ item.1.seq ∧
      item.1.message = true := by
  rw [served, selected, mem_filter, mem_shelve, from_iff]
  simp [Selection.keeps]

theorem row_total {lines : List Line} {item : Row × Text} (hitem : item ∈ tableRows sqlite lines) :
    item.1.totalChars = item.2.length ∧ item.2.length < 2 ^ 63 := by
  obtain ⟨line, -, event, entry, seq, -, hentry, rfl, -⟩ := mem_tableRows hitem
  obtain ⟨-, htotal, hfits⟩ := entryOf?_eq_some hentry seq
  rw [fitsInteger, Bool.and_eq_true, decide_eq_true_eq, decide_eq_true_eq] at hfits
  exact ⟨htotal, by exact_mod_cast hfits.2⟩

theorem row_fits (hlawful : Lawful sqlite) {lines : List Line} {item : Row × Text}
    (hitem : item ∈ tableRows sqlite lines) : item.1.seq < 2 ^ 63 := by
  obtain ⟨line, -, event, entry, seq, -, hentry, rfl, hkey⟩ := mem_tableRows hitem
  have hseq := (entryOf?_eq_some hentry seq).1
  have hfits : fitsInteger seq = true := by
    rcases hkey with hkey | ⟨keys, rfl⟩
    · obtain ⟨fields, -, hentered⟩ := entered_of_entryOf? hentry
      obtain ⟨value, -, hvalue⟩ := hentered.key
      exact hlawful.key_fits value seq (hkey ▸ hvalue)
    · exact hlawful.next_fits keys
  rw [fitsInteger, Bool.and_eq_true, decide_eq_true_eq, decide_eq_true_eq] at hfits
  rw [hseq]
  exact hfits.2

theorem shelf_increasing (hsound : Sound sqlite source.lines) :
    (source.shelf sqlite).Pairwise fun left right => left.1.seq < right.1.seq :=
  shelve_sorted hsound.seqs

theorem record_of_tabled {db : Database} {rows : List (Row × Text)} (htabled : Tabled db rows)
    (hseqs : (rows.map fun item => item.1.seq).Nodup) {item : Row × Text} (hitem : item ∈ rows)
    (htotal : item.1.totalChars = item.2.length) (offset limit : ℕ) :
    db.record item.1 offset limit =
      (tuple? item.1.artifactRefs).map fun _ => describe item offset limit :=
  record_eq htabled.chunks hseqs hitem htotal offset limit

/-- Tables that have caught up are a shelf of everything. -/
theorem IndexedTo.shelved {db : Database}
    (hindexed : IndexedTo sqlite source source.lines.length db)
    (hsound : Sound sqlite source.lines) (hfits : ∀ item ∈ served sqlite source, FitsPage item) :
    Shelved db (source.shelf sqlite) {} (source.shelf sqlite).length := by
  have htabled := hindexed.tabled
  rw [take_length] at htabled
  refine ⟨?_, shelf_increasing hsound, fun item hitem => (row_total (mem_shelve.mp hitem)).1,
    fun item hitem => (row_total (mem_shelve.mp hitem)).2, ?_⟩
  · rw [take_length, htabled.events]
  · intro item hitem hseq hkeeps offset limit
    rw [take_length] at hitem
    have hrow := mem_shelve.mp hitem
    have hserved : item ∈ served sqlite source := by
      refine mem_served.mpr ⟨hrow, hseq, ?_⟩
      simpa [Selection.keeps] using hkeeps
    obtain ⟨references, hreferences⟩ := Option.isSome_iff_exists.mp (hfits item hserved).1
    rw [record_of_tabled htabled hsound.seqs hrow (row_total hrow).1, hreferences, Option.map_some]

/-! ## Reading on -/

/-- The cursor behind the last row is a key, where a reader can get that far. -/
def InRange (sqlite : Sqlite) (source : Source) : Prop :=
  source.tail = 0 ∨ ∀ item ∈ tableRows sqlite source.lines, item.1.seq + 1 < 2 ^ 63

/-- A reader with a cursor to pass on. -/
structure Follows (sqlite : Sqlite) (source : Source) (requests : ℕ) (reader : Reader)
    (cursor : Option Text) (position : Position) : Prop where
  parsed : startPosition {} cursor = .ok position
  stands : At (source.shelf sqlite) (source.shelf sqlite).length position
  below : position.seq < 2 ^ 63
  delivers : Delivers (remaining (source.shelf sqlite) {} ⟨1, 0⟩)
    (reader.records.map HistoryRecord.piece) (remaining (source.shelf sqlite) {} position)
  bounded : requests + (remaining (source.shelf sqlite) {} position).room ≤
      (remaining (source.shelf sqlite) {} ⟨1, 0⟩).room ∨
    remaining (source.shelf sqlite) {} position = ⟨[], 0⟩

/-- A reader of tables that have caught up. -/
structure Serves (sqlite : Sqlite) (source : Source) (requests : ℕ) (reader : Reader) : Prop where
  indexed : IndexedTo sqlite source source.lines.length reader.db
  unfailed : ∀ error, reader.state ≠ .failed error
  finished : reader.state = .finished →
    Delivers (remaining (source.shelf sqlite) {} ⟨1, 0⟩)
      (reader.records.map HistoryRecord.piece) ⟨[], 0⟩
  reading : ∀ cursor, reader.state = .reading cursor →
    ∃ position, Follows sqlite source requests reader cursor position

theorem selectedAfter_length (ledger : List (Row × Text)) (selection : Selection)
    (position : Position) : selectedAfter ledger selection ledger.length position = [] := by
  rw [selectedAfter, drop_length, filter_nil]

/-- Tables that have caught up stay as they are. -/
theorem sync_indexedTo (hsized : ∀ line ∈ source.lines, 0 < line.size) {batch : ℕ}
    (hbatch : 0 < batch) (hsound : Sound sqlite source.lines) {db : Database}
    (hindexed : IndexedTo sqlite source source.lines.length db) :
    ∃ next status, sync sqlite batch source db = some (next, status) ∧
      IndexedTo sqlite source source.lines.length next ∧
      (status.indexedBytes < status.sourceBytes ↔ source.tail ≠ 0) := by
  rcases sync_cases hsized hbatch hindexed with
    ⟨-, hunsound⟩ | ⟨later, next, status, hsync, hadvanced⟩
  · exact absurd hsound hunsound
  · have hlater : later = source.lines.length := by
      have honward := hadvanced.onward
      have hwithin := hadvanced.indexed.within
      omega
    refine ⟨next, status, hsync, hlater ▸ hadvanced.indexed, ?_⟩
    rw [hadvanced.indexedBytes, hadvanced.sourceBytes, size_eq, hlater]
    omega

variable {position : Position}

theorem indexedCursor_inRange (hrange : InRange sqlite source) (htail : source.tail ≠ 0)
    {db : Database} (hshelved : Shelved db (source.shelf sqlite) {} (source.shelf sqlite).length)
    (hpos : 1 ≤ position.seq) (hlt : position.seq < 2 ^ 63) :
    (db.indexedCursor position.seq).seq < 2 ^ 63 := by
  obtain ⟨-, hbelow⟩ := indexedCursor_spec hshelved.events hpos
  have hrows := hrange.resolve_left htail
  have hnext := hbelow (2 ^ 63 - 1) (by omega) fun item hitem => by
    have hrow := hrows item (mem_shelve.mp (mem_of_mem_take hitem))
    omega
  omega

/-- Every message fits: no page can get stuck. -/
theorem not_stuck (hfits : ∀ item ∈ served sqlite source, FitsPage item) {limits : Limits}
    (hvalid : limits.valid = true) {db : Database}
    (hshelved : Shelved db (source.shelf sqlite) {} (source.shelf sqlite).length)
    (hat : At (source.shelf sqlite) (source.shelf sqlite).length position) :
    ¬ Stuck (source.shelf sqlite) {} (source.shelf sqlite).length limits position := by
  rintro ⟨item, others, hrows, hfit⟩
  have hshelf := hshelved.shelf hat
  rw [hrows] at hshelf
  have hitem : item ∈ selectedBefore (source.shelf sqlite) {} (source.shelf sqlite).length
      position := by
    rw [hrows]
    exact mem_cons_self
  obtain ⟨hseq, hkeeps⟩ := from_iff.mp (of_mem_filter hitem)
  have hserved : item ∈ served sqlite source := by
    refine mem_served.mpr ⟨mem_shelve.mp (mem_of_mem_take (mem_of_mem_filter hitem)),
      hat.seq_pos.trans hseq, ?_⟩
    simpa [Selection.keeps] using hkeeps
  simp only [Limits.valid, Bool.and_eq_true, decide_eq_true_eq] at hvalid
  exact (hfits item hserved).2 _ _ hshelf.offsetIn_lt hvalid.1.2 hvalid.2 hfit

/-- A page of tables that have caught up does not fail, and goes on where the last page ended. -/
theorem Serves.step (hsized : ∀ line ∈ source.lines, 0 < line.size) {batch : ℕ}
    (hbatch : 0 < batch) (hlawful : Lawful sqlite) (hsound : Sound sqlite source.lines)
    (hfits : ∀ item ∈ served sqlite source, FitsPage item) (hrange : InRange sqlite source)
    {requests : ℕ} {reader : Reader} (hserves : Serves sqlite source requests reader)
    {limits : Limits} (hvalid : limits.valid = true) :
    Serves sqlite source (requests + 1) (reader.step sqlite batch source {} limits) := by
  cases hstate : reader.state with
  | failed error => exact absurd hstate (hserves.unfailed error)
  | finished =>
      have hstep : reader.step sqlite batch source {} limits = reader := by
        simp [Reader.step, hstate]
      rw [hstep]
      refine { hserves with reading := fun cursor hreading => ?_ }
      rw [hstate] at hreading
      cases hreading
  | reading cursor =>
      obtain ⟨position, hfollows⟩ := hserves.reading cursor hstate
      obtain ⟨next, status, hsync, hindexed, hmore⟩ :=
        sync_indexedTo hsized hbatch hsound hserves.indexed
      have hshelved := hindexed.shelved hsound hfits
      have hread := read_eq le_rfl hfollows.parsed hsync hvalid
      rcases page_spec hshelved hfollows.stands
          (fitsInteger_of_lt hfollows.stands.seq_pos hfollows.below) hvalid status with
        ⟨result, hpage, hturned⟩ | ⟨-, hstuck⟩
      · rw [hpage] at hread
        have hrecords : (reader.pages ++ [(limits, result)]).flatMap (fun page => page.2.records) =
            reader.records ++ result.records := reader.records_append limits result
        cases hcursor : result.nextCursor with
        | none =>
            obtain ⟨-, hdelivers⟩ := hturned.finished hcursor
            rw [selectedAfter_length] at hdelivers
            simp only [Reader.step, hstate, hread, hcursor]
            refine ⟨hindexed, fun error herror => (by cases herror), fun _ => ?_,
              fun cursor hreading => (by cases hreading)⟩
            rw [Reader.records, hrecords, map_append]
            exact hfollows.delivers.trans hdelivers
        | some named =>
            obtain ⟨after, rfl, hstands, hdelivers, hnext⟩ := hturned.continued named hcursor
            simp only [Reader.step, hstate, hread, hcursor]
            refine ⟨hindexed, fun error herror => (by cases herror),
              fun hfinished => (by cases hfinished), fun cursor hreading => ?_⟩
            cases hreading
            refine ⟨after, startPosition_cursor _ hstands.seq_pos, hstands, ?_, ?_, ?_⟩
            · rcases hnext with ⟨-, item, hitem, hseq⟩ | ⟨hless, rfl⟩
              · rw [← hseq]
                exact row_fits hlawful (mem_shelve.mp hitem)
              · exact indexedCursor_inRange hrange (hmore.mp hless) hshelved
                  hfollows.stands.seq_pos hfollows.below
            · rw [Reader.records, hrecords, map_append]
              exact hfollows.delivers.trans hdelivers
            · rcases hnext with ⟨hfound, -⟩ | ⟨-, rfl⟩
              · rcases hfollows.bounded with hroom | hdone
                · left
                  have hused := hdelivers.room_le
                  rw [length_map] at hused
                  have hpositive := length_pos_of_ne_nil hfound
                  omega
                · rw [hdone] at hdelivers
                  have hnone := hdelivers.eq_of_nil.1
                  rw [map_eq_nil_iff] at hnone
                  exact absurd hnone hfound
              · right
                rw [remaining_indexedCursor hshelved hfollows.stands.seq_pos, selectedAfter_length,
                  map_nil]
      · exact absurd hstuck (not_stuck hfits hvalid hshelved hfollows.stands)

/-- By induction on the requests, which may each have their own limits. -/
theorem Serves.run (hsized : ∀ line ∈ source.lines, 0 < line.size) {batch : ℕ}
    (hbatch : 0 < batch) (hlawful : Lawful sqlite) (hsound : Sound sqlite source.lines)
    (hfits : ∀ item ∈ served sqlite source, FitsPage item) (hrange : InRange sqlite source)
    {requests : List Limits} (hvalid : ∀ limits ∈ requests, limits.valid = true) {done : ℕ}
    {reader : Reader} (hserves : Serves sqlite source done reader) :
    Serves sqlite source (done + requests.length)
      (requests.foldl (Reader.step sqlite batch source {}) reader) := by
  induction requests generalizing done reader with
  | nil => exact hserves
  | cons limits rest ih =>
      have hnext := hserves.step hsized hbatch hlawful hsound hfits hrange
        (hvalid limits mem_cons_self)
      have hrest := ih (fun later hlater => hvalid later (mem_cons_of_mem _ hlater)) hnext
      rwa [Nat.add_assoc, Nat.add_comm 1] at hrest

theorem serves_start {db : Database} (hindexed : IndexedTo sqlite source source.lines.length db) :
    Serves sqlite source 0 { db } where
  indexed := hindexed
  unfailed _ herror := by cases herror
  finished hfinished := by cases hfinished
  reading cursor hreading := by
    cases hreading
    refine ⟨⟨1, 0⟩, rfl, ⟨le_rfl, .inl rfl⟩, by decide, .done _, .inl ?_⟩
    rw [Nat.zero_add]

/-- A long enough reading has handed out every message, and none fails. -/
theorem reading_serves (hsized : ∀ line ∈ source.lines, 0 < line.size) {batch : ℕ}
    (hbatch : 0 < batch) (hlawful : Lawful sqlite) (hsound : Sound sqlite source.lines)
    (hfits : ∀ item ∈ served sqlite source, FitsPage item) (hrange : InRange sqlite source)
    {db : Database} (hindexed : IndexedTo sqlite source source.lines.length db)
    {requests : List Limits} (hvalid : ∀ limits ∈ requests, limits.valid = true) :
    let reader := requests.foldl (Reader.step sqlite batch source {}) { db }
    (∀ error, reader.state ≠ .failed error) ∧
    ((remaining (source.shelf sqlite) {} ⟨1, 0⟩).room < requests.length →
      assemble (reader.records.map HistoryRecord.piece) =
        some ((served sqlite source).map keyed)) := by
  intro reader
  have hserves : Serves sqlite source (0 + requests.length) reader :=
    (serves_start hindexed).run hsized hbatch hlawful hsound hfits hrange hvalid
  rw [Nat.zero_add] at hserves
  refine ⟨hserves.unfailed, fun hmany => ?_⟩
  have hzero : remaining (source.shelf sqlite) {} ⟨1, 0⟩ =
      ⟨(served sqlite source).map keyed, 0⟩ := restFrom_eq fun _ _ _ => rfl
  have hdelivers : Delivers (remaining (source.shelf sqlite) {} ⟨1, 0⟩)
      (reader.records.map HistoryRecord.piece) ⟨[], 0⟩ := by
    cases hstate : reader.state with
    | failed error => exact absurd hstate (hserves.unfailed error)
    | finished => exact hserves.finished hstate
    | reading cursor =>
        obtain ⟨position, hfollows⟩ := hserves.reading cursor hstate
        have hdone := hfollows.bounded.resolve_left (by omega)
        rw [← hdone]
        exact hfollows.delivers
  rw [hzero] at hdelivers
  exact assemble_of_delivers hdelivers

/-! ## Where a reading gets -/

theorem selectedBefore_length (ledger : List (Row × Text)) (selection : Selection)
    (position : Position) :
    selectedBefore ledger selection ledger.length position = selected ledger selection position := by
  rw [selectedBefore, take_length, selected]

theorem IndexedTo.events_eq {db : Database}
    (hindexed : IndexedTo sqlite source source.lines.length db) :
    db.events = ((source.shelf sqlite).take (source.shelf sqlite).length).map Prod.fst := by
  have htabled := hindexed.tabled
  rw [take_length] at htabled
  rw [take_length, htabled.events]

theorem page_of_indexed {db : Database} (hindexed : IndexedTo sqlite source source.lines.length db)
    (hfits : fitsInteger position.seq = true) (limits : Limits) (status : Status) :
    page {} limits position db status = do
      let (records, next) ← fill db position limits.records
        ((selected (source.shelf sqlite) {} position).map Prod.fst) [] limits.chars
        pageEncodedChars
      let next :=
        if next.isNone && decide (status.indexedBytes < status.sourceBytes) then
          some (db.indexedCursor position.seq)
        else next
      return { records, nextCursor := next.map Position.cursor, status } := by
  rw [page_eq hindexed.events_eq hfits, selectedBefore_length]

/-- A page for one record. -/
theorem fill_one {db : Database} {item : Row × Text} {others : List (Row × Text)} {chars : ℕ}
    (encoded : ℕ) (hrecord : db.record item.1 (position.offsetIn item.1) chars =
      (tuple? item.1.artifactRefs).map fun _ => describe item (position.offsetIn item.1) chars)
    (htotal : item.1.totalChars = item.2.length)
    (hoffset : position.offsetIn item.1 ≤ item.2.length)
    (hothers : ∀ other ∈ others, position.offsetIn other.1 = 0) (hchars : chars ≠ 0) :
    fill db position 1 ((item :: others).map Prod.fst) [] chars encoded =
      if (tuple? item.1.artifactRefs).isNone then .error .artifactRefs
      else
        match fitRecord (describe item (position.offsetIn item.1) chars) encoded with
        | none => .error .metadata
        | some (record, _) =>
            .ok ([record],
              match record.nextOffset with
              | some next => some ⟨record.seq, next⟩
              | none => others.head?.map fun other => ⟨other.1.seq, 0⟩) := by
  have hfull : ¬ (([] : List HistoryRecord).length = 1 ∨ chars = 0) := by simp [hchars]
  rw [map_cons, fill, ← Position.offsetIn, htotal, if_neg (Nat.not_lt.mpr hoffset),
    if_neg hfull, hrecord]
  cases hreferences : tuple? item.1.artifactRefs with
  | none => rfl
  | some references =>
      simp only [Option.map_some, Option.isNone_some, Bool.false_eq_true, if_false]
      cases hfit : fitRecord (describe item (position.offsetIn item.1) chars) encoded with
      | none => rfl
      | some fitted =>
          obtain ⟨record, size⟩ := fitted
          cases hnext : record.nextOffset with
          | some next => simp only [hnext, nil_append]
          | none =>
              simp only [hnext, nil_append]
              cases others with
              | nil => rfl
              | cons other rest =>
                  rw [map_cons, fill, ← Position.offsetIn,
                    hothers other mem_cons_self, if_neg (Nat.not_lt_zero _),
                    if_pos (.inl rfl)]
                  rfl

/-- The reader is about to read on in a message. -/
structure Visits (sqlite : Sqlite) (source : Source) (reader : Reader) (item : Row × Text)
    (others : List (Row × Text)) (offset : ℕ) : Prop where
  indexed : IndexedTo sqlite source source.lines.length reader.db
  place : ∃ cursor position, reader.state = .reading cursor ∧
    startPosition {} cursor = .ok position ∧ 1 ≤ position.seq ∧ position.seq < 2 ^ 63 ∧
    selected (source.shelf sqlite) {} position = item :: others ∧
    position.offsetIn item.1 = offset
  offset : offset = 0 ∨ offset < item.2.length

/-- Where a page for one record leads to. -/
def afterOne (source : Source) (db : Database) (position : Position) (record : HistoryRecord)
    (others : List (Row × Text)) : Option Position :=
  match record.nextOffset with
  | some next => some ⟨record.seq, next⟩
  | none =>
      match others with
      | other :: _ => some ⟨other.1.seq, 0⟩
      | [] => if source.tail = 0 then none else some (db.indexedCursor position.seq)

variable {offset : ℕ}

/-- A page for one record fails, or hands out the next piece of the message that is read and goes
on behind it. -/
theorem Visits.step (hsized : ∀ line ∈ source.lines, 0 < line.size) {batch : ℕ} (hbatch : 0 < batch)
    (hsound : Sound sqlite source.lines) {reader : Reader} {item : Row × Text}
    {others : List (Row × Text)} (hvisits : Visits sqlite source reader item others offset)
    {chars : ℕ} (hvalid : (⟨1, chars⟩ : Limits).valid = true) :
    (∃ error, (reader.step sqlite batch source {} ⟨1, chars⟩).state = .failed error) ∨
    ((tuple? item.1.artifactRefs).isSome ∧ ∃ record size next position,
      fitRecord (describe item offset chars) pageEncodedChars = some (record, size) ∧
      IndexedTo sqlite source source.lines.length next ∧
      1 ≤ position.seq ∧ selected (source.shelf sqlite) {} position = item :: others ∧
      (reader.step sqlite batch source {} ⟨1, chars⟩).db = next ∧
      (reader.step sqlite batch source {} ⟨1, chars⟩).state =
        match afterOne source next position record others with
        | some after => .reading (some after.cursor)
        | none => .finished) := by
  obtain ⟨hindexed, ⟨cursor, position, hstate, hparsed, hpos, hlt, hselected, hplace⟩, hoffset⟩ :=
    hvisits
  obtain ⟨next, status, hsync, hnext, hmore⟩ :=
    sync_indexedTo hsized hbatch hsound hindexed
  have hread := read_eq le_rfl hparsed hsync hvalid
  have hpage := page_of_indexed hnext (fitsInteger_of_lt hpos hlt) ⟨1, chars⟩ status
  have htabled := hnext.tabled
  rw [take_length] at htabled
  have hmem : item ∈ selected (source.shelf sqlite) {} position := by
    rw [hselected]
    exact mem_cons_self
  have hrow := mem_shelve.mp (mem_of_mem_filter hmem)
  have htotal := (row_total hrow).1
  have hbegin : position.offsetIn item.1 ≤ item.2.length := by omega
  have hothers : ∀ other ∈ others, position.offsetIn other.1 = 0 := by
    intro other hother
    have hincreasing := (shelf_increasing hsound).filter (Selection.from {} position)
    rw [← selected, hselected, pairwise_cons] at hincreasing
    have hless := hincreasing.1 other hother
    have hstart := (from_iff.mp (of_mem_filter hmem)).1
    exact if_neg (by omega)
  simp only [Limits.valid, Bool.and_eq_true, decide_eq_true_eq] at hvalid
  have hfill := fill_one pageEncodedChars
    (record_of_tabled htabled hsound.seqs hrow htotal (position.offsetIn item.1) chars) htotal
    hbegin hothers (by omega : chars ≠ 0)
  rw [hselected, hfill] at hpage
  rw [hplace] at hpage
  have hfailed : ∀ error, page {} ⟨1, chars⟩ position next status = .error error →
      reader.step sqlite batch source {} ⟨1, chars⟩ =
        { reader with db := next, state := .failed error } := by
    intro error herror
    simp only [Reader.step, hstate, hread, herror]
  have hserved : ∀ page, History.page {} ⟨1, chars⟩ position next status = .ok page →
      reader.step sqlite batch source {} ⟨1, chars⟩ =
        { db := next
          pages := reader.pages ++ [(⟨1, chars⟩, page)]
          state := page.nextCursor.elim .finished fun cursor => .reading (some cursor) } := by
    intro page hpage
    cases hcursor : page.nextCursor with
    | none => simp only [Reader.step, hstate, hread, hpage, hcursor, Option.elim_none]
    | some cursor => simp only [Reader.step, hstate, hread, hpage, hcursor, Option.elim_some]
  cases hreferences : tuple? item.1.artifactRefs with
  | none =>
      rw [hreferences] at hpage
      exact .inl ⟨.artifactRefs, by rw [hfailed _ hpage]⟩
  | some references =>
      rw [hreferences, Option.isNone_some] at hpage
      cases hfit : fitRecord (describe item offset chars) pageEncodedChars with
      | none =>
          rw [hfit] at hpage
          exact .inl ⟨.metadata, by rw [hfailed _ hpage]⟩
      | some fitted =>
          obtain ⟨record, size⟩ := fitted
          rw [hfit] at hpage
          refine .inr ⟨rfl, record, size, next, position, rfl, hnext, hpos, hselected, ?_, ?_⟩
          · rw [hserved _ hpage]
          · rw [hserved _ hpage]
            cases hoffset : record.nextOffset with
            | some later => simp [afterOne, hoffset]
            | none =>
                cases others with
                | cons other rest => simp [afterOne, hoffset]
                | nil =>
                    by_cases htail : source.tail = 0
                    · have hend := (not_congr hmore).mpr (not_not.mpr htail)
                      simp [afterOne, hoffset, htail, hend]
                    · have hless := hmore.mpr htail
                      simp [afterOne, hoffset, htail, hless]

/-- Whatever limits the reader goes on with, it does not fail. -/
def Unfailing (sqlite : Sqlite) (batch : ℕ) (source : Source) (reader : Reader) : Prop :=
  ∀ requests : List Limits, (∀ limits ∈ requests, limits.valid = true) →
    ∀ error, (requests.foldl (Reader.step sqlite batch source {}) reader).state ≠ .failed error

section Visiting

variable {batch : ℕ} {reader : Reader} {item : Row × Text} {others : List (Row × Text)}

theorem Unfailing.step (hunfailing : Unfailing sqlite batch source reader) {limits : Limits}
    (hvalid : limits.valid = true) :
    Unfailing sqlite batch source (reader.step sqlite batch source {} limits) := by
  intro requests hrequests
  refine hunfailing (limits :: requests) fun other hother => ?_
  rcases mem_cons.mp hother with rfl | hmem
  · exact hvalid
  · exact hrequests other hmem

theorem Unfailing.now (hunfailing : Unfailing sqlite batch source reader) (error : ReadError) :
    reader.state ≠ .failed error :=
  hunfailing [] (fun _ hnone => absurd hnone not_mem_nil) error

/-- A page for one character goes on by one character. -/
theorem nextOffset_one {encoded : ℕ} {record : HistoryRecord} {size : ℕ}
    (hhands : Hands item offset 1 encoded record size) :
    (∀ next, record.nextOffset = some next → next = offset + 1 ∧ offset + 1 < item.2.length) ∧
    (record.nextOffset = none → item.2.length ≤ offset + 1) := by
  have hlength := hhands.chars
  constructor
  · intro next hnext
    obtain ⟨count, hcount, hless, hvalue, hpiece⟩ := hhands.part next hnext
    have hcontent : record.content = (item.2.drop offset).take count :=
      congrArg Piece.content hpiece
    rw [hcontent, length_take_of_le (by rw [length_drop]; omega)] at hlength
    omega
  · intro hnone
    have hcontent : record.content = item.2.drop offset :=
      congrArg Piece.content (hhands.whole hnone)
    rw [hcontent, length_drop] at hlength
    omega

theorem Visits.mem (hvisits : Visits sqlite source reader item others offset) :
    item ∈ tableRows sqlite source.lines ∧ 1 ≤ item.1.seq := by
  obtain ⟨-, ⟨cursor, position, -, -, hpos, -, hselected, -⟩, -⟩ := hvisits
  have hmem : item ∈ selected (source.shelf sqlite) {} position := by
    rw [hselected]
    exact mem_cons_self
  exact ⟨mem_shelve.mp (mem_of_mem_filter hmem),
    hpos.trans (from_iff.mp (of_mem_filter hmem)).1⟩

section

variable (hsized : ∀ line ∈ source.lines, 0 < line.size)
include hsized

/-- One page for one character, from a reader that does not fail. -/
theorem Visits.one (hbatch : 0 < batch)
    (hsound : Sound sqlite source.lines) (hunfailing : Unfailing sqlite batch source reader)
    (hvisits : Visits sqlite source reader item others offset) :
    ∃ record size next position, Hands item offset 1 pageEncodedChars record size ∧
      IndexedTo sqlite source source.lines.length next ∧ 1 ≤ position.seq ∧
      selected (source.shelf sqlite) {} position = item :: others ∧
      (reader.step sqlite batch source {} ⟨1, 1⟩).db = next ∧
      (reader.step sqlite batch source {} ⟨1, 1⟩).state =
        match afterOne source next position record others with
        | some after => .reading (some after.cursor)
        | none => .finished := by
  have hvalid : (⟨1, 1⟩ : Limits).valid = true := rfl
  rcases hvisits.step hsized hbatch hsound hvalid with
    ⟨error, herror⟩ | ⟨-, record, size, next, position, hfit, hnext, hpos, hselected, hdb, hstate⟩
  · exact absurd herror ((hunfailing.step hvalid).now error)
  · have hoffset := hvisits.offset
    have hhands := hands_of_fitRecord Nat.one_pos (by omega) (row_total hvisits.mem.1).2 hfit
    exact ⟨record, size, next, position, hhands, hnext, hpos, hselected, hdb, hstate⟩

theorem Visits.next_offset (hbatch : 0 < batch)
    (hlawful : Lawful sqlite) (hsound : Sound sqlite source.lines)
    (hunfailing : Unfailing sqlite batch source reader)
    (hvisits : Visits sqlite source reader item others offset)
    (hmore : offset + 1 < item.2.length) :
    Visits sqlite source (reader.step sqlite batch source {} ⟨1, 1⟩) item others (offset + 1) := by
  obtain ⟨record, size, next, position, hhands, hnext, hpos, hselected, hdb, hstate⟩ :=
    hvisits.one hsized hbatch hsound hunfailing
  obtain ⟨hsome, hnone⟩ := nextOffset_one hhands
  obtain ⟨hrow, hseq⟩ := hvisits.mem
  cases hoffset : record.nextOffset with
  | none =>
      have hend := hnone hoffset
      omega
  | some later =>
      obtain ⟨rfl, -⟩ := hsome later hoffset
      simp only [afterOne, hoffset] at hstate
      have hplace : (⟨record.seq, offset + 1⟩ : Position).seq = item.1.seq := hhands.seq
      refine ⟨hdb ▸ hnext, ⟨_, ⟨record.seq, offset + 1⟩, hstate, startPosition_cursor _ ?_, ?_, ?_, ?_,
        ?_⟩, .inr hmore⟩
      · rw [hplace]
        exact hseq
      · rw [hplace]
        exact hseq
      · rw [hplace]
        exact row_fits hlawful hrow
      · have hsplit : selected (source.shelf sqlite) {} position = [] ++ item :: others := hselected
        exact selected_of_split (shelf_increasing hsound) hsplit hplace.symm
      · exact if_pos hplace.symm

theorem Visits.next_item (hbatch : 0 < batch)
    (hlawful : Lawful sqlite) (hsound : Sound sqlite source.lines)
    (hunfailing : Unfailing sqlite batch source reader) {other : Row × Text}
    {rest : List (Row × Text)} (hvisits : Visits sqlite source reader item (other :: rest) offset)
    (hlast : item.2.length ≤ offset + 1) :
    Visits sqlite source (reader.step sqlite batch source {} ⟨1, 1⟩) other rest 0 := by
  obtain ⟨record, size, next, position, hhands, hnext, hpos, hselected, hdb, hstate⟩ :=
    hvisits.one hsized hbatch hsound hunfailing
  obtain ⟨hsome, -⟩ := nextOffset_one hhands
  cases hoffset : record.nextOffset with
  | some later =>
      obtain ⟨-, hmore⟩ := hsome later hoffset
      omega
  | none =>
      simp only [afterOne, hoffset] at hstate
      have hmem : other ∈ selected (source.shelf sqlite) {} position := by
        rw [hselected]
        exact mem_cons_of_mem _ mem_cons_self
      have hrow := mem_shelve.mp (mem_of_mem_filter hmem)
      have hseq := hpos.trans (from_iff.mp (of_mem_filter hmem)).1
      refine ⟨hdb ▸ hnext, ⟨_, ⟨other.1.seq, 0⟩, hstate, startPosition_cursor _ hseq, hseq,
        row_fits hlawful hrow, ?_, if_pos rfl⟩, .inl rfl⟩
      have hsplit : selected (source.shelf sqlite) {} position = [item] ++ other :: rest := hselected
      exact selected_of_split (shelf_increasing hsound) hsplit rfl

/-- A reader that does not fail gets to each character of the message. -/
theorem Visits.reaches (hbatch : 0 < batch)
    (hlawful : Lawful sqlite) (hsound : Sound sqlite source.lines)
    (hunfailing : Unfailing sqlite batch source reader)
    (hvisits : Visits sqlite source reader item others 0)
    (hoffset : offset = 0 ∨ offset < item.2.length) :
    ∃ later, Unfailing sqlite batch source later ∧
      Visits sqlite source later item others offset := by
  induction offset with
  | zero => exact ⟨reader, hunfailing, hvisits⟩
  | succ offset ih =>
      have hless := hoffset.resolve_left (Nat.succ_ne_zero offset)
      obtain ⟨later, hlater, hthere⟩ := ih (.inr (by omega))
      exact ⟨_, hlater.step rfl,
        hthere.next_offset hsized hbatch hlawful hsound hlater hless⟩

theorem Visits.reaches_end (hbatch : 0 < batch)
    (hlawful : Lawful sqlite) (hsound : Sound sqlite source.lines)
    (hunfailing : Unfailing sqlite batch source reader)
    (hvisits : Visits sqlite source reader item others 0) :
    ∃ later offset, Unfailing sqlite batch source later ∧
      Visits sqlite source later item others offset ∧ item.2.length ≤ offset + 1 := by
  have hlast : item.2.length - 1 = 0 ∨ item.2.length - 1 < item.2.length := by omega
  obtain ⟨later, hlater, hthere⟩ :=
    hvisits.reaches hsized hbatch hlawful hsound hunfailing hlast
  exact ⟨later, _, hlater, hthere, by omega⟩

/-- And to each message that follows. -/
theorem Visits.reaches_item (hbatch : 0 < batch)
    (hlawful : Lawful sqlite) (hsound : Sound sqlite source.lines)
    (hunfailing : Unfailing sqlite batch source reader)
    (hvisits : Visits sqlite source reader item others 0) {front back : List (Row × Text)}
    {target : Row × Text} (hsplit : item :: others = front ++ target :: back) :
    ∃ later, Unfailing sqlite batch source later ∧ Visits sqlite source later target back 0 := by
  induction front generalizing reader item others with
  | nil =>
      cases hsplit
      exact ⟨reader, hunfailing, hvisits⟩
  | cons first front ih =>
      rw [cons_append, List.cons.injEq] at hsplit
      obtain ⟨rfl, hothers⟩ := hsplit
      obtain ⟨middle, offset, hmiddle, hthere, hlast⟩ :=
        hvisits.reaches_end hsized hbatch hlawful hsound hunfailing
      obtain ⟨other, rest, hcons⟩ : ∃ other rest, others = other :: rest := by
        cases others with
        | nil => simp at hothers
        | cons other rest => exact ⟨other, rest, rfl⟩
      subst hcons
      exact ih (hmiddle.step rfl) (hthere.next_item hsized hbatch hlawful hsound hmiddle hlast)
        hothers

end

variable {db : Database}

theorem visits_start (hindexed : IndexedTo sqlite source source.lines.length db)
    (hserved : served sqlite source = item :: others) :
    Visits sqlite source { db } item others 0 := by
  refine ⟨hindexed, ⟨none, ⟨1, 0⟩, rfl, rfl, le_rfl, by decide, hserved, ?_⟩, .inl rfl⟩
  simp [Position.offsetIn]

section

variable (hsized : ∀ line ∈ source.lines, 0 < line.size)
include hsized

theorem reaches_served (hbatch : 0 < batch)
    (hlawful : Lawful sqlite) (hsound : Sound sqlite source.lines)
    (hindexed : IndexedTo sqlite source source.lines.length db)
    (hunfailing : Unfailing sqlite batch source { db }) {front back : List (Row × Text)}
    (hserved : served sqlite source = front ++ item :: back) :
    ∃ later, Unfailing sqlite batch source later ∧ Visits sqlite source later item back 0 := by
  cases hall : served sqlite source with
  | nil =>
      rw [hall] at hserved
      simp at hserved
  | cons first others =>
      have hstart := visits_start hindexed hall
      exact hstart.reaches_item hsized hbatch hlawful hsound hunfailing (hall.symm.trans hserved)

/-- Where no reading fails, every message fits. -/
theorem fitsPage_of_unfailing
    (hbatch : 0 < batch) (hlawful : Lawful sqlite) (hsound : Sound sqlite source.lines)
    (hindexed : IndexedTo sqlite source source.lines.length db)
    (hunfailing : Unfailing sqlite batch source { db }) (hitem : item ∈ served sqlite source) :
    FitsPage item := by
  obtain ⟨front, back, hserved⟩ := append_of_mem hitem
  obtain ⟨middle, hmiddle, hthere⟩ :=
    reaches_served hsized hbatch hlawful hsound hindexed hunfailing hserved
  have hturn : ∀ offset chars, offset = 0 ∨ offset < item.2.length → 1 ≤ chars → chars ≤ pageChars →
      (tuple? item.1.artifactRefs).isSome ∧
        fitRecord (describe item offset chars) pageEncodedChars ≠ none := by
    intro offset chars hoffset hpositive hbounded
    obtain ⟨later, hlater, hvisits⟩ :=
      hthere.reaches hsized hbatch hlawful hsound hmiddle hoffset
    have hvalid : (⟨1, chars⟩ : Limits).valid = true := by
      simp [Limits.valid, hpositive, hbounded]
    rcases hvisits.step hsized hbatch hsound hvalid with
      ⟨error, herror⟩ | ⟨hreferences, record, size, -, -, hfit, -⟩
    · exact absurd herror ((hlater.step hvalid).now error)
    · refine ⟨hreferences, ?_⟩
      rw [hfit]
      exact Option.some_ne_none _
  exact ⟨(hturn 0 1 (.inl rfl) le_rfl (by decide)).1,
    fun offset chars hoffset hpositive hbounded => (hturn offset chars hoffset hpositive hbounded).2⟩

/-- A cursor that is no key is an error. -/
theorem step_overflow (hbatch : 0 < batch)
    (hsound : Sound sqlite source.lines)
    (hindexed : IndexedTo sqlite source source.lines.length reader.db)
    (hstate : reader.state = .reading (some position.cursor)) (hpos : 1 ≤ position.seq)
    (hlarge : 2 ^ 63 ≤ position.seq) :
    (reader.step sqlite batch source {} ⟨1, 1⟩).state = .failed .overflow := by
  obtain ⟨next, status, hsync, -, -⟩ := sync_indexedTo hsized hbatch hsound hindexed
  have hparsed := startPosition_cursor {} hpos
  have hvalid : (⟨1, 1⟩ : Limits).valid = true := rfl
  have hread := read_eq le_rfl hparsed hsync hvalid
  have hfits : fitsInteger position.seq = false := by
    rw [fitsInteger, Bool.and_eq_false_iff]
    exact .inr (decide_eq_false (by omega))
  have hpage : page {} ⟨1, 1⟩ position next status = .error .overflow := by
    simp only [page, hfits, Bool.not_false, if_true]
  rw [hpage] at hread
  simp only [Reader.step, hstate, hread]

/-- Past the last message, an unended line makes the reader ask behind the last row. -/
theorem reaches_behind (hbatch : 0 < batch)
    (hlawful : Lawful sqlite) (hsound : Sound sqlite source.lines)
    (hindexed : IndexedTo sqlite source source.lines.length db)
    (hunfailing : Unfailing sqlite batch source { db }) (htail : source.tail ≠ 0) :
    ∃ (later : Reader) (position : Position),
      Unfailing sqlite batch source later ∧ 1 ≤ position.seq ∧
      IndexedTo sqlite source source.lines.length later.db ∧
      later.state = .reading (some (later.db.indexedCursor position.seq).cursor) := by
  rcases eq_nil_or_concat (served sqlite source) with hnone | ⟨front, last, hserved⟩
  · obtain ⟨next, status, hsync, hnext, hmore⟩ := sync_indexedTo hsized hbatch hsound hindexed
    have hvalid : (⟨1, 1⟩ : Limits).valid = true := rfl
    have hparsed : startPosition {} none = .ok ⟨1, 0⟩ := rfl
    have hread := read_eq le_rfl hparsed hsync hvalid
    have hpage := page_of_indexed hnext (by decide : fitsInteger (⟨1, 0⟩ : Position).seq = true)
      ⟨1, 1⟩ status
    rw [show selected (source.shelf sqlite) {} ⟨1, 0⟩ = [] from hnone, map_nil, fill,
      decide_eq_true (hmore.mpr htail)] at hpage
    rw [hpage] at hread
    have hstep : Reader.step sqlite batch source {} { db } ⟨1, 1⟩ =
        { db := next
          pages := [(⟨1, 1⟩, ⟨[], some (next.indexedCursor 1).cursor, status⟩)]
          state := .reading (some (next.indexedCursor 1).cursor) } := by
      simp only [Reader.step, hread]
      rfl
    have hlater := hunfailing.step hvalid
    rw [hstep] at hlater
    exact ⟨_, ⟨1, 0⟩, hlater, le_rfl, hnext, rfl⟩
  · rw [concat_eq_append] at hserved
    obtain ⟨middle, hmiddle, hthere⟩ :=
      reaches_served hsized hbatch hlawful hsound hindexed hunfailing hserved
    obtain ⟨later, offset, hlater, hvisits, hlast⟩ :=
      hthere.reaches_end hsized hbatch hlawful hsound hmiddle
    obtain ⟨record, size, next, position, hhands, hnext, hpos, hselected, hdb, hstate⟩ :=
      hvisits.one hsized hbatch hsound hlater
    obtain ⟨hsome, -⟩ := nextOffset_one hhands
    refine ⟨_, position, hlater.step rfl, hpos, hdb ▸ hnext, ?_⟩
    cases hoffset : record.nextOffset with
    | some after =>
        obtain ⟨-, hmore⟩ := hsome after hoffset
        omega
    | none =>
        rw [hstate, hdb]
        simp only [afterOne, hoffset, if_neg htail]

/-- Where no reading fails, the cursor behind the last row is a key. -/
theorem inRange_of_unfailing
    (hbatch : 0 < batch) (hlawful : Lawful sqlite) (hsound : Sound sqlite source.lines)
    (hindexed : IndexedTo sqlite source source.lines.length db)
    (hunfailing : Unfailing sqlite batch source { db }) : InRange sqlite source := by
  by_contra hout
  obtain ⟨htail, hrows⟩ := not_or.mp hout
  obtain ⟨later, position, hlater, hpos, hnext, hstate⟩ :=
    reaches_behind hsized hbatch hlawful hsound hindexed hunfailing htail
  obtain ⟨habove, -⟩ := indexedCursor_spec hnext.events_eq hpos
  rw [not_forall] at hrows
  obtain ⟨item, hitem⟩ := hrows
  rw [Classical.not_imp] at hitem
  have hless := habove item (by rw [take_length]; exact mem_shelve.mpr hitem.1)
  have hfrom : position.seq ≤ (later.db.indexedCursor position.seq).seq := le_max_left _ _
  have hfailed := step_overflow hsized hbatch hsound hnext hstate (hpos.trans hfrom) (by omega)
  exact (hlater.step rfl).now _ hfailed

end

end Visiting

end ReuleauxCoder.History
