import ReuleauxCoder.History.Indexed
import ReuleauxCoder.History.Pages

/-!
# Reading on from page to page

A reader that passes each cursor on gets every selected event of a well-formed ledger,
piece by piece and in order, while the index itself is still being built.  Each page
hands out something or is followed by more of the index, so the reading ends.
-/

namespace ReuleauxCoder.History

open PyText PyJson Pieces List

variable {sqlite : Sqlite} {source : Source} {selection : Selection} {count : ℕ}
  {position : Position} {db : Database}

/-! ## The index as a shelf -/

abbrev Source.ledger (source : Source) (sqlite : Sqlite) : List (Row × Text) :=
  items sqlite source.lines

theorem items_stored {lines : List Line} {item : Row × Text} (hitem : item ∈ items sqlite lines) :
    item.1.totalChars = item.2.length ∧ item.2.length < 2 ^ 63 := by
  obtain ⟨line, -, hstored⟩ := mem_filterMap.mp hitem
  obtain ⟨-, -, -, -, -, -, -, htotal, hshort⟩ := stored?_eq_some hstored
  exact ⟨htotal, hshort⟩

theorem Holds.shelved (hformed : WellFormed sqlite source) (hholds : Holds sqlite source count db) :
    Shelved db (source.ledger sqlite) selection count := by
  have htake := items_take hformed.indexable count
  obtain ⟨hevents, hchunks⟩ := hholds
  rw [htake] at hevents hchunks
  refine ⟨hevents, hformed.increasing, fun item hitem => (items_stored hitem).1,
    fun item hitem => (items_stored hitem).2, fun item hitem _ _ => ?_⟩
  have hmem := mem_of_mem_take hitem
  have hdistinct : (((source.ledger sqlite).take count).map fun item => item.1.seq).Nodup :=
    pairwise_map.mpr (hformed.increasing.take.imp fun hless => hless.ne)
  obtain ⟨references, hreferences⟩ :=
    Option.isSome_iff_exists.mp (hformed.references item hmem)
  intro offset limit
  rw [record_eq hchunks hdistinct hitem (items_stored hmem).1, hreferences, Option.map_some]

theorem selectedAfter_eq_nil (hformed : WellFormed sqlite source)
    (hcount : ¬ count < source.lines.length) :
    selectedAfter (source.ledger sqlite) selection count position = [] := by
  rw [selectedAfter, drop_eq_nil_of_le, filter_nil]
  rw [length_items hformed.indexable]
  exact Nat.not_lt.mp hcount

/-- The cursor behind the index stays in range while there is more to index. -/
theorem indexedCursor_lt (hformed : WellFormed sqlite source)
    (hholds : Holds sqlite source count db) (hpos : 1 ≤ position.seq) (hlt : position.seq < 2 ^ 63)
    (hmore : count < source.lines.length) : (db.indexedCursor position.seq).seq < 2 ^ 63 := by
  have hshelved : Shelved db (source.ledger sqlite) {} count := hholds.shelved hformed
  obtain ⟨-, hbelow⟩ := indexedCursor_spec hshelved.events hpos
  have hlength := length_items hformed.indexable
  obtain ⟨item, rest, hrest⟩ := exists_cons_of_ne_nil
    (drop_eq_nil_iff.not.mpr (hlength ▸ hmore.not_ge) :
      (source.ledger sqlite).drop count ≠ [])
  have hitem : item ∈ (source.ledger sqlite).drop count := by
    rw [hrest]
    exact mem_cons_self
  have hbound := hformed.bounded item (mem_of_mem_drop hitem)
  have hnext := hbelow (max position.seq item.1.seq) (le_max_left _ _) fun other hother =>
    lt_max_of_lt_right (take_lt_drop hshelved hother hitem)
  omega

theorem fitsInteger_of_lt {value : ℤ} (hpos : 1 ≤ value) (hlt : value < 2 ^ 63) :
    fitsInteger value = true := by
  rw [fitsInteger, Bool.and_eq_true, decide_eq_true_eq, decide_eq_true_eq]
  exact ⟨by omega, hlt⟩

/-! ## All pages -/

variable {ledger : List (Row × Text)}

theorem At.mono {later : ℕ} (hat : At ledger count position) (hlater : count ≤ later) :
    At ledger later position := by
  refine ⟨hat.seq_pos, hat.reached.imp_right ?_⟩
  rintro ⟨item, hitem, hseq⟩
  obtain ⟨between, hbetween⟩ : ledger.take count <+: ledger.take later :=
    take_prefix_take_left hlater
  refine ⟨item, ?_, hseq⟩
  rw [← hbetween]
  exact mem_append_left _ hitem

/-- A selected event whose metadata leaves a page no room. -/
def Oversized (ledger : List (Row × Text)) (selection : Selection) : Prop :=
  ∃ item ∈ ledger, selection.keeps item.1 = true ∧ ∃ offset limit,
    pageEncodedChars < (describe item offset limit).metadataChars + 40

variable {limits : Limits}

theorem Stuck.oversized (hstuck : Stuck ledger selection count limits position) :
    Oversized ledger selection := by
  obtain ⟨item, others, hrows, hfit⟩ := hstuck
  have hitem : item ∈ selectedBefore ledger selection count position := by
    rw [hrows]
    exact mem_cons_self
  exact ⟨item, mem_of_mem_take (mem_of_mem_filter hitem),
    (from_iff.mp (of_mem_filter hitem)).2, _, _, fitRecord_eq_none hfit⟩

/-- No reading takes more pages: one for each line to index and for each character. -/
def pageBound (sqlite : Sqlite) (source : Source) (selection : Selection) : ℕ :=
  source.lines.length + (remaining (source.ledger sqlite) selection selection.start).room + 1

/-- Every page handed out something, or the index grew behind it. -/
def Moving (pages : List (Limits × HistoryPage)) : Prop :=
  pages.Pairwise fun earlier later => earlier.2.records ≠ [] ∨
    earlier.2.status.indexedBytes < later.2.status.indexedBytes

/-- What holds while a reader has a cursor to pass on. -/
structure Continues (sqlite : Sqlite) (source : Source) (selection : Selection) (reader : Reader)
    (cursor : Option Text) (count : ℕ) (position : Position) : Prop where
  parsed : startPosition selection cursor = .ok position
  stands : At (source.ledger sqlite) count position
  below : position.seq < 2 ^ 63
  delivers : Delivers (remaining (source.ledger sqlite) selection selection.start)
    (reader.records.map HistoryRecord.piece)
    (remaining (source.ledger sqlite) selection position)
  indexed : Indexed sqlite source count reader.db
  settled : Settled source reader.db
  behind : ∀ page ∈ reader.pages, page.2.status.indexedBytes ≤ source.prefixSize count
  unfinished : ∀ page ∈ reader.pages, page.2.records = [] →
    page.2.status.indexedBytes < source.size
  bounded : reader.pages.length + (source.lines.length - count) +
    (remaining (source.ledger sqlite) selection position).room ≤
      pageBound sqlite source selection

/-- What holds of a reader at any time. -/
structure Reads (sqlite : Sqlite) (source : Source) (selection : Selection) (requests : ℕ)
    (reader : Reader) : Prop where
  within : ∀ page ∈ reader.pages,
    Within page.1.records page.1.chars pageEncodedChars page.2.records
  moving : Moving reader.pages
  failed : ∀ error, reader.state = .failed error →
    error = .metadata ∧ Oversized (source.ledger sqlite) selection
  finished : reader.state = .finished →
    Delivers (remaining (source.ledger sqlite) selection selection.start)
      (reader.records.map HistoryRecord.piece) ⟨[], 0⟩
  turned : ∀ cursor, reader.state = .reading cursor → reader.pages.length = requests
  reading : ∀ cursor, reader.state = .reading cursor →
    (reader.pages = [] ∧ cursor = none ∧ Usable sqlite source reader.db) ∨
      ∃ count position, Continues sqlite source selection reader cursor count position

theorem start_at (hstart : 1 ≤ selection.startSeq) : At ledger count selection.start :=
  ⟨hstart, .inl rfl⟩

theorem Reader.records_append (reader : Reader) (limits : Limits) (result : HistoryPage) :
    (reader.pages ++ [(limits, result)]).flatMap (fun page => page.2.records) =
      reader.records ++ result.records := by
  simp [Reader.records]

variable {reader : Reader}

variable {requests batch : ℕ}

/-- One more page. -/
theorem reads_of_turned (hformed : WellFormed sqlite source)
    (hreads : Reads sqlite source selection requests reader) {cursor : Option Text}
    (hstate : reader.state = .reading cursor)
    (hdelivers : Delivers (remaining (source.ledger sqlite) selection selection.start)
      (reader.records.map HistoryRecord.piece)
      (remaining (source.ledger sqlite) selection position))
    {next : Database} {status : Status} (hsynced : Synced sqlite source count next status)
    {result : HistoryPage}
    (hat : At (source.ledger sqlite) count position) (hlt : position.seq < 2 ^ 63)
    (hturned : Turned next (source.ledger sqlite) selection limits position count status result)
    (hmoves : ∀ page ∈ reader.pages, page.2.records ≠ [] ∨
      page.2.status.indexedBytes < source.prefixSize count)
    (hbehind : ∀ page ∈ reader.pages, page.2.status.indexedBytes ≤ source.prefixSize count)
    (hunfinished : ∀ page ∈ reader.pages, page.2.records = [] →
      page.2.status.indexedBytes < source.size)
    (hroom : ∀ found : ℕ, (found = 0 → count < source.lines.length) →
      reader.pages.length + 1 + (source.lines.length - count) +
        (remaining (source.ledger sqlite) selection position).room ≤
          pageBound sqlite source selection + found)
    {after : Reading}
    (hafter : after = match result.nextCursor with
      | some cursor => .reading (some cursor)
      | none => .finished) :
    Reads sqlite source selection (requests + 1)
      { db := next, pages := reader.pages ++ [(limits, result)], state := after } := by
  have hbytes : result.status.indexedBytes = source.prefixSize count := by
    rw [hturned.reported]
    exact hsynced.indexedBytes
  have hpieces : (reader.records ++ result.records).map HistoryRecord.piece =
      reader.records.map HistoryRecord.piece ++ result.records.map HistoryRecord.piece :=
    map_append
  constructor
  · intro page hpage
    rcases mem_append.mp hpage with hold | hnew
    · exact hreads.within page hold
    · rw [mem_singleton.mp hnew]
      exact hturned.within
  · refine pairwise_append.mpr ⟨hreads.moving, pairwise_singleton _ _, ?_⟩
    intro earlier hearlier later hlater
    rw [mem_singleton.mp hlater]
    dsimp only
    rw [hbytes]
    exact hmoves earlier hearlier
  · intro error herror
    subst hafter
    cases hcursor : result.nextCursor with
    | none => simp [hcursor] at herror
    | some cursor => simp [hcursor] at herror
  · intro hfinished
    subst hafter
    cases hcursor : result.nextCursor with
    | none =>
        obtain ⟨hend, hpage⟩ := hturned.finished hcursor
        rw [hsynced.more_iff hformed] at hend
        rw [selectedAfter_eq_nil hformed hend] at hpage
        rw [Reader.records, Reader.records_append, hpieces]
        exact hdelivers.trans hpage
    | some cursor => simp [hcursor] at hfinished
  · intro _ _
    rw [length_append, length_singleton, hreads.turned cursor hstate]
  · intro passed hreading
    subst hafter
    cases hcursor : result.nextCursor with
    | none => simp [hcursor] at hreading
    | some named =>
        simp only [hcursor, Reading.reading.injEq] at hreading
        subst hreading
        obtain ⟨later, rfl, hstands, hpage, hnext⟩ := hturned.continued _ hcursor
        rw [hsynced.more_iff hformed] at hnext
        have hmore : result.records = [] → count < source.lines.length := by
          intro hempty
          rcases hnext with ⟨hfound, -⟩ | ⟨hmore, -⟩
          · exact absurd hempty hfound
          · exact hmore
        have hbelow : later.seq < 2 ^ 63 := by
          rcases hnext with ⟨-, item, hitem, hseq⟩ | ⟨hmore, rfl⟩
          · rw [← hseq]
            exact hformed.bounded item hitem
          · exact indexedCursor_lt hformed hsynced.indexed.holds hat.seq_pos hlt hmore
        have hused := hpage.room_le
        rw [length_map] at hused
        have hgained := hroom result.records.length fun hnone =>
          hmore (length_eq_zero_iff.mp hnone)
        refine .inr ⟨count, later, ?_, hstands, hbelow, ?_, hsynced.indexed, hsynced.settled, ?_, ?_,
          ?_⟩
        · exact startPosition_cursor selection hstands.seq_pos
        · rw [Reader.records, Reader.records_append, hpieces]
          exact hdelivers.trans hpage
        · intro page hpage
          rcases mem_append.mp hpage with hold | hnew
          · exact hbehind page hold
          · rw [mem_singleton.mp hnew]
            exact hbytes.le
        · intro page hpage hempty
          rcases mem_append.mp hpage with hold | hnew
          · exact hunfinished page hold hempty
          · rw [mem_singleton.mp hnew] at hempty ⊢
            dsimp only
            rw [hbytes, ← prefixSize_length hformed]
            exact prefixSize_lt hformed.sized (hmore hempty) le_rfl
        · rw [length_append, length_singleton]
          omega

/-- A reader that fails keeps what it was given. -/
theorem Reads.fail (hreads : Reads sqlite source selection requests reader)
    (hlarge : Oversized (source.ledger sqlite) selection) (next : Database) :
    Reads sqlite source selection (requests + 1)
      { reader with db := next, state := .failed .metadata } where
  within := hreads.within
  moving := hreads.moving
  failed error herror := by
    cases herror
    exact ⟨rfl, hlarge⟩
  finished hfinished := by cases hfinished
  turned _ hreading := by cases hreading
  reading _ hreading := by cases hreading

/-- A page goes on from its cursor: what it delivers follows what the pages before it did. -/
theorem Reads.step_reading (hformed : WellFormed sqlite source) (hstart : 1 ≤ selection.startSeq)
    (hreads : Reads sqlite source selection requests reader) {cursor : Option Text}
    (hstate : reader.state = .reading cursor)
    (hparsed : startPosition selection cursor = .ok position)
    (hdelivers : Delivers (remaining (source.ledger sqlite) selection selection.start)
      (reader.records.map HistoryRecord.piece)
      (remaining (source.ledger sqlite) selection position)) {next : Database} {status : Status}
    (hsync : sync sqlite batch source reader.db = some (next, status))
    (hsynced : Synced sqlite source count next status)
    (hat : At (source.ledger sqlite) count position) (hlt : position.seq < 2 ^ 63)
    (hvalid : limits.valid = true) (hmoves : ∀ page ∈ reader.pages, page.2.records ≠ [] ∨
      page.2.status.indexedBytes < source.prefixSize count)
    (hbehind : ∀ page ∈ reader.pages, page.2.status.indexedBytes ≤ source.prefixSize count)
    (hunfinished : ∀ page ∈ reader.pages, page.2.records = [] →
      page.2.status.indexedBytes < source.size)
    (hroom : ∀ found : ℕ, (found = 0 → count < source.lines.length) →
      reader.pages.length + 1 + (source.lines.length - count) +
        (remaining (source.ledger sqlite) selection position).room ≤
          pageBound sqlite source selection + found) :
    Reads sqlite source selection (requests + 1)
      (reader.step sqlite batch source selection limits) := by
  have hfits := fitsInteger_of_lt hat.seq_pos hlt
  have hread := read_eq hstart hparsed hsync hvalid
  rcases page_spec (hsynced.indexed.holds.shelved hformed) hat hfits hvalid status with
    ⟨result, hpage, hturned⟩ | ⟨hpage, hstuck⟩
  · rw [hpage] at hread
    simp only [Reader.step, hstate, hread]
    exact reads_of_turned hformed hreads hstate hdelivers hsynced hat hlt hturned hmoves hbehind
      hunfinished hroom rfl
  · rw [hpage] at hread
    simp only [Reader.step, hstate, hread]
    exact hreads.fail hstuck.oversized next

/-- One page goes on where the pages before it ended, or says that the reading is over. -/
theorem Reads.step (hformed : WellFormed sqlite source) (hbatch : 0 < batch)
    (hstart : 1 ≤ selection.startSeq) (hbound : selection.startSeq < 2 ^ 63)
    (hreads : Reads sqlite source selection requests reader) (hvalid : limits.valid = true) :
    Reads sqlite source selection (requests + 1)
      (reader.step sqlite batch source selection limits) := by
  cases hstate : reader.state with
  | finished =>
      have hstep : reader.step sqlite batch source selection limits = reader := by
        simp [Reader.step, hstate]
      rw [hstep]
      refine { hreads with turned := fun cursor hreading => ?_ }
      rw [hstate] at hreading
      cases hreading
  | failed error =>
      have hstep : reader.step sqlite batch source selection limits = reader := by
        simp [Reader.step, hstate]
      rw [hstep]
      refine { hreads with turned := fun cursor hreading => ?_ }
      rw [hstate] at hreading
      cases hreading
  | reading cursor =>
      rcases hreads.reading cursor hstate with ⟨hpages, rfl, husable⟩ | ⟨count, position, hcontinues⟩
      · obtain ⟨later, next, status, hsync, hsynced⟩ := sync_spec hformed hbatch husable
        have hdelivers : Delivers (remaining (source.ledger sqlite) selection selection.start)
            (reader.records.map HistoryRecord.piece)
            (remaining (source.ledger sqlite) selection selection.start) := by
          rw [Reader.records, hpages]
          exact .done _
        have hnone : ∀ page ∈ reader.pages, False := by
          intro page hpage
          rw [hpages] at hpage
          exact not_mem_nil hpage
        refine hreads.step_reading hformed hstart hstate rfl hdelivers hsync hsynced
          (start_at hstart) hbound hvalid ?_ ?_ ?_ ?_
        · exact fun page hpage => (hnone page hpage).elim
        · exact fun page hpage => (hnone page hpage).elim
        · exact fun page hpage => (hnone page hpage).elim
        · intro found _
          rw [hpages, length_nil, pageBound]
          show 0 + 1 + (source.lines.length - later) +
            (remaining (source.ledger sqlite) selection selection.start).room ≤ _
          omega
      · obtain ⟨later, next, status, hsync, hsynced, hlater, hmore⟩ :=
          sync_next hformed hbatch hcontinues.indexed hcontinues.settled
        have hgrows := prefixSize_le source hlater
        refine hreads.step_reading hformed hstart hstate hcontinues.parsed hcontinues.delivers hsync
          hsynced (hcontinues.stands.mono hlater) hcontinues.below hvalid ?_ ?_ hcontinues.unfinished
          ?_
        · intro page hpage
          by_cases hempty : page.2.records = []
          · have hbehind := hcontinues.behind page hpage
            have hless := hcontinues.unfinished page hpage hempty
            rcases hcontinues.indexed.within.lt_or_eq with hcount | hcount
            · have hstrict := prefixSize_lt hformed.sized (hmore hcount) hsynced.indexed.within
              exact .inr (by omega)
            · have hend := prefixSize_length hformed
              rw [← hcount] at hend
              exact .inr (by omega)
          · exact .inl hempty
        · exact fun page hpage => (hcontinues.behind page hpage).trans hgrows
        · intro found hfound
          have hold := hcontinues.bounded
          have hwithin := hcontinues.indexed.within
          by_cases hzero : found = 0
          · have hnext := hmore (by have hless := hfound hzero; omega)
            omega
          · omega

/-- By induction on the requests; each page uses up one. -/
theorem Reads.run (hformed : WellFormed sqlite source) (hbatch : 0 < batch)
    (hstart : 1 ≤ selection.startSeq) (hbound : selection.startSeq < 2 ^ 63)
    {requests : List Limits} (hvalid : ∀ limits ∈ requests, limits.valid = true) {done : ℕ}
    (hreads : Reads sqlite source selection done reader) :
    Reads sqlite source selection (done + requests.length)
      (requests.foldl (Reader.step sqlite batch source selection) reader) := by
  induction requests generalizing done reader with
  | nil => exact hreads
  | cons limits rest ih =>
      have hnext := hreads.step hformed hbatch hstart hbound (hvalid limits mem_cons_self)
      have hrest := ih (fun later hlater => hvalid later (mem_cons_of_mem _ hlater)) hnext
      rwa [Nat.add_assoc, Nat.add_comm 1] at hrest

theorem reads_start (husable : Usable sqlite source db) :
    Reads sqlite source selection 0 { db } where
  within _ hpage := absurd hpage not_mem_nil
  moving := .nil
  failed _ herror := by cases herror
  finished hfinished := by cases hfinished
  turned _ _ := rfl
  reading cursor hreading := by
    cases hreading
    exact .inl ⟨rfl, rfl, husable⟩

/-- A well-formed ledger is read without loss: each page keeps its limits and moves on, a
reading that ends has handed out each selected event in order and character by character,
and it ends after a bounded number of pages, unless a record is too large for any page. -/
theorem Reader.run_lossless (hformed : WellFormed sqlite source) {batch : ℕ} (hbatch : 0 < batch)
    (hstart : 1 ≤ selection.startSeq) (hbound : selection.startSeq < 2 ^ 63)
    (husable : Usable sqlite source db) (requests : List Limits)
    (hvalid : ∀ limits ∈ requests, limits.valid = true) :
    let reader := requests.foldl (Reader.step sqlite batch source selection) { db }
    (∀ page ∈ reader.pages,
      Within page.1.records page.1.chars pageEncodedChars page.2.records) ∧
    Moving reader.pages ∧
    (∀ error, reader.state = .failed error →
      error = .metadata ∧ Oversized (source.ledger sqlite) selection) ∧
    (reader.state = .finished → assemble (reader.records.map HistoryRecord.piece) =
      some ((selected (source.ledger sqlite) selection selection.start).map keyed)) ∧
    (pageBound sqlite source selection < requests.length →
      ∀ cursor, reader.state ≠ .reading cursor) := by
  intro reader
  have hreads : Reads sqlite source selection (0 + requests.length) reader :=
    (reads_start husable).run hformed hbatch hstart hbound hvalid
  rw [Nat.zero_add] at hreads
  refine ⟨hreads.within, hreads.moving, hreads.failed, ?_, ?_⟩
  · intro hfinished
    have hzero : remaining (source.ledger sqlite) selection selection.start =
        ⟨(selected (source.ledger sqlite) selection selection.start).map keyed, 0⟩ :=
      restFrom_eq fun _ _ _ => rfl
    have hdelivers := hreads.finished hfinished
    rw [hzero] at hdelivers
    exact assemble_of_delivers hdelivers
  · intro hmany cursor hreading
    have hturned := hreads.turned cursor hreading
    rcases hreads.reading cursor hreading with ⟨hpages, -, -⟩ | ⟨count, position, hcontinues⟩
    · rw [hpages, length_nil] at hturned
      omega
    · have hbounded := hcontinues.bounded
      omega

/-- Integers and texts as SQLite stores them. -/
def plainSqlite : Sqlite where
  key
    | .null => some none
    | .int value => if fitsInteger value then some (some value) else none
    | _ => none
  nextKey keys :=
    let next := keys.max?.getD 0 + 1
    if fitsInteger next then next else 1
  text
    | .null => some none
    | .str text => some (some text)
    | _ => none
  real
    | .null => some .null
    | .float value => some (.float value)
    | _ => none

def messageLine (seq : ℤ) (eventId content : String) : Line where
  size := 100
  decoded := .event (.obj [(lit "seq", .int seq), (lit "event_id", .str (lit eventId)),
    (lit "kind", .str (lit "message_committed")), (lit "created_at", .null),
    (lit "payload", .obj [(lit "message",
      .obj [(lit "role", .str (lit "user")), (lit "content", .str (lit content))])])])

def twoMessages : Source where
  device := lit "device"
  inode := lit "inode"
  mtime := 0
  lines := [messageLine 1 "a" "hi", messageLine 2 "b" "ok"]

theorem wellFormed_twoMessages : WellFormed plainSqlite twoMessages where
  complete := rfl
  sized := by decide
  indexable := by decide
  increasing := by decide
  bounded := by decide
  distinct := by decide
  references := by decide

theorem Reader.run_lossless_twoMessages :
    let reader := (List.replicate 10 ⟨1, 1⟩).foldl
      (Reader.step plainSqlite 1 twoMessages {}) { db := {} }
    Moving reader.pages ∧ ∀ cursor, reader.state ≠ .reading cursor := by
  have hstart : 1 ≤ ({} : Selection).startSeq := le_rfl
  have hvalid : ∀ limits ∈ List.replicate 10 (⟨1, 1⟩ : Limits), limits.valid = true := by decide
  have hmany : pageBound plainSqlite twoMessages {} < 10 := by decide +kernel
  have hrun := Reader.run_lossless wellFormed_twoMessages Nat.one_pos hstart (by decide)
    (.inr ⟨0, indexed_empty⟩) _ hvalid
  exact ⟨hrun.2.1, hrun.2.2.2.2 (by simpa using hmany)⟩

end ReuleauxCoder.History
