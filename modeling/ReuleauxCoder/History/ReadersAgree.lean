import ReuleauxCoder.History.LoadedEvents

/-!
# Two readers of one ledger

A load drops and reports lines that it cannot use; the index takes every line that has
the columns of a row, and gives up on any other.  They tell the same messages exactly
where no line is one that only one of them can use.
-/

namespace ReuleauxCoder.History

open PyText PyJson Pieces
open List hiding lookup

/-! ## Messages -/

/-- The line is a committed message that is not hidden. -/
def Line.isMessage (line : Line) : Bool :=
  match line.decoded with
  | .event (.obj event) =>
      lookup (lit "kind") event = some (.str (lit "message_committed")) &&
        match lookup (lit "payload") event with
        | some (.obj payload) =>
            match lookup (lit "message") payload with
            | some (.obj message) => (visible? message).getD true
            | _ => false
        | _ => false
  | _ => false

def Told.isMessage (told : Told) : Bool :=
  told.line.isMessage

/-- The identity of an event and the content that its line has. -/
def Told.said (sqlite : Sqlite) (told : Told) : (ℤ × Text) × Option Text :=
  ((told.event.seq, told.event.eventId), (stored? sqlite told.line.toLine).map Prod.snd)

/-- The messages that a load returns. -/
def Loaded.messages (sqlite : Sqlite) (loaded : Loaded) : List ((ℤ × Text) × Option Text) :=
  (loaded.events.filter Told.isMessage).map (Told.said sqlite)

/-- A message that was handed out whole. -/
def whole (message : (ℤ × Text) × Text) : (ℤ × Text) × Option Text :=
  (message.1, some message.2)

/-- The file of a load is indexed to its last line end, no reader of it fails, and one
that reads for long enough gets the messages of the load. -/
def ReadersAgree (sqlite : Sqlite) (batch : ℕ) (loaded : Loaded) : Prop :=
  ∃ count db status messages,
    syncs sqlite batch loaded.file.source count = some (db, status) ∧ status.caughtUp ∧
    loaded.messages sqlite = messages.map whole ∧
    ∃ bound, ∀ requests : List Limits, (∀ limits ∈ requests, limits.valid = true) →
      let reader := requests.foldl (Reader.step sqlite batch loaded.file.source {}) { db }
      (∀ error, reader.state ≠ .failed error) ∧
      (bound < requests.length →
        assemble (reader.records.map HistoryRecord.piece) = some messages)

/-! ## When they agree -/

/-- An event of an unended line that comes after all that is kept. -/
def Appended (loaded : Loaded) (told : Told) : Prop :=
  loaded.unended = some told ∧ ∀ earlier, InOrder earlier loaded.told →
    earlier.event.seq < told.event.seq ∧ earlier.event.eventId ≠ told.event.eventId

/-- No line is one that only one of the readers can use. -/
structure Compatible (sqlite : Sqlite) (loaded : Loaded) : Prop where
  sound : Sound sqlite loaded.file.source.lines
  accepted : ∀ item ∈ served sqlite loaded.file.source, ∃ told,
    (InOrder told loaded.told ∨ Appended loaded told) ∧ told.isMessage = true ∧
      told.said sqlite = whole (keyed item)
  indexed : ∀ told, Appended loaded told → told.isMessage = true →
    ∃ item ∈ served sqlite loaded.file.source, told.said sqlite = whole (keyed item)
  fits : ∀ item ∈ served sqlite loaded.file.source, FitsPage item
  range : InRange sqlite loaded.file.source

/-! ## One line, twice -/

variable {sqlite : Sqlite}

theorem isMessage_of_content {event : Dict} {content : Text} {message : Bool} {line : Line}
    (hdecoded : line.decoded = .event (.obj event))
    (hcontent : content? event = some (content, message)) : line.isMessage = message := by
  simp only [content?, Option.bind_eq_bind, Option.bind_eq_some_iff] at hcontent
  obtain ⟨payload, hpayload, kind, hkind, hcontent⟩ := hcontent
  split at hcontent
  · rename_i hcommitted
    subst hcommitted
    split at hcontent
    · rename_i fields
      split at hcontent
      · rename_i committed hmessage
        simp only [Option.bind_eq_some_iff] at hcontent
        obtain ⟨text, -, visible, hvisible, hresult⟩ := hcontent
        cases hresult
        simp [Line.isMessage, hdecoded, hkind, hpayload, hmessage, hvisible]
      · cases hcontent
    · cases hcontent
  · rename_i hother
    have hfalse : line.isMessage = false := by
      simp [Line.isMessage, hdecoded, hkind, hother]
    rw [hfalse]
    split at hcontent
    · split at hcontent
      · simp only [Option.bind_eq_some_iff] at hcontent
        obtain ⟨text, -, hresult⟩ := hcontent
        cases hresult
        rfl
      · cases hcontent
    · cases hcontent
      rfl

/-- A line that both readers can use has one identity. -/
theorem SaysOf.stored (hlawful : Lawful sqlite) {line : LedgerLine} {event : HistoryEvent}
    (hspoken : SaysOf line event) (hindexable : line.toLine.isIndexable sqlite = true) :
    ∃ item, stored? sqlite line.toLine = some item ∧ item.1.seq = event.seq ∧
      item.1.eventId = event.eventId ∧ item.1.message = line.toLine.isMessage := by
  obtain ⟨fields, hdecoded, hseq, hid⟩ := hspoken.fields
  simp only [Line.isIndexable, hdecoded] at hindexable
  obtain ⟨entry, hentry⟩ := Option.isSome_iff_exists.mp hindexable
  obtain ⟨same, hsame, hentered⟩ := entered_of_entryOf? hentry
  cases hsame
  have hkey : entry.key = some event.seq := by
    obtain ⟨value, hvalue, hkey⟩ := hentered.key
    rw [hseq] at hvalue
    cases hvalue
    rw [hlawful.key_int _ (fitsInteger_of_lt hspoken.seq_pos hspoken.seq_lt),
      Option.some.injEq] at hkey
    exact hkey.symm
  have hname : ∀ seq, (entry.row seq).eventId = event.eventId := by
    obtain ⟨value, name, hvalue, htext, hrow⟩ := hentered.eventId
    rw [hid] at hvalue
    cases hvalue
    rw [hlawful.text_str _ hspoken.eventId] at htext
    cases htext
    exact hrow
  obtain ⟨message, hcontent, hmessage⟩ := hentered.content
  refine ⟨(entry.row event.seq, entry.content), ?_, (hentered.row _).1, hname _, ?_⟩
  · simp only [stored?, hdecoded, hentry, hkey, Option.bind_eq_bind, Option.bind_some]
    rfl
  · rw [isMessage_of_content hdecoded hcontent]
    exact hmessage _

theorem items_sublist (lines : List Line) :
    List.Sublist (items sqlite lines) (tableRows sqlite lines) := by
  induction lines using List.reverseRecOn with
  | nil => exact .slnil
  | append_singleton lines line ih =>
      rw [items_append, tableRows_append, foldl_cons, foldl_nil]
      have hbegins : tableRows sqlite lines <+: addRow sqlite (tableRows sqlite lines) line :=
        prefix_foldl_addRow [line] (tableRows sqlite lines)
      cases hstored : stored? sqlite line with
      | none =>
          have hnone : items sqlite [line] = [] := by simp [items, hstored]
          rw [hnone, append_nil]
          exact ih.trans hbegins.sublist
      | some item =>
          obtain ⟨event, entry, hdecoded, hentry, hkey, hrow, hcontent, -, -⟩ :=
            stored?_eq_some hstored
          have hsome : items sqlite [line] = [item] := by simp [items, hstored]
          have hadd : addRow sqlite (tableRows sqlite lines) line =
              tableRows sqlite lines ++ [item] := by
            simp only [addRow, hdecoded, hentry, Option.map_some, Option.toList_some, Entry.item,
              hkey, Option.getD_some, hrow, hcontent]
          rw [hsome, hadd]
          exact ih.append_right _

section Loads

variable {loaded : Loaded}

/-- The row of an event that the load decoded. -/
theorem FromLines.stored (hfrom : FromLines loaded) (hlawful : Lawful sqlite)
    (hsound : Sound sqlite loaded.file.source.lines) {told : Told} (htold : told ∈ loaded.told) :
    ∃ item, stored? sqlite told.line.toLine = some item ∧ item.1.seq = told.event.seq ∧
      item.1.eventId = told.event.eventId ∧ item.1.message = told.isMessage ∧
      item ∈ tableRows sqlite loaded.file.source.lines := by
  have hline : told.line.toLine ∈ loaded.file.source.lines :=
    mem_map_of_mem (hfrom.lines.subset (mem_map_of_mem htold))
  obtain ⟨item, hstored, hseq, hid, hmessage⟩ :=
    (hfrom.told told htold).stored hlawful (hsound.indexable _ hline)
  exact ⟨item, hstored, hseq, hid, hmessage, mem_tableRows_of_stored hline hstored⟩

theorem ids_of_stored {decoded : List Told}
    (hstored : ∀ told ∈ decoded, ∃ item, stored? sqlite told.line.toLine = some item ∧
      item.1.eventId = told.event.eventId) :
    (decoded.map fun told => told.event.eventId) =
      (items sqlite (decoded.map fun told => told.line.toLine)).map fun item => item.1.eventId := by
  induction decoded with
  | nil => rfl
  | cons told rest ih =>
      obtain ⟨item, hitem, hid⟩ := hstored told mem_cons_self
      rw [map_cons, map_cons, items_cons hitem, map_cons, hid,
        ih fun other hother => hstored other (mem_cons_of_mem _ hother)]

theorem FromLines.distinct (hfrom : FromLines loaded) (hlawful : Lawful sqlite)
    (hsound : Sound sqlite loaded.file.source.lines) :
    (loaded.told.map fun told => told.event.eventId).Nodup := by
  have hlines : List.Sublist (loaded.told.map fun told => told.line.toLine)
      loaded.file.source.lines := by
    have hmap := hfrom.lines.map LedgerLine.toLine
    rwa [map_map] at hmap
  rw [ids_of_stored fun told htold => by
    obtain ⟨item, hstored, -, hid, -⟩ := hfrom.stored hlawful hsound htold
    exact ⟨item, hstored, hid⟩]
  have hitems : List.Sublist (items sqlite (loaded.told.map fun told => told.line.toLine))
      (tableRows sqlite loaded.file.source.lines) :=
    (hlines.filterMap (stored? sqlite)).trans (items_sublist _)
  exact (hitems.map fun item => item.1.eventId).nodup hsound.ids

/-- What a load returns. -/
theorem mem_events (hfrom : FromLines loaded)
    (hdistinct : (loaded.told.map fun told => told.event.eventId).Nodup) (told : Told) :
    told ∈ loaded.events ↔ InOrder told loaded.told ∨ Appended loaded told := by
  have hmem : ∀ other, other ∈ keepOrdered [] 0 loaded.told ↔ InOrder other loaded.told := by
    intro other
    rw [mem_keepOrdered hdistinct fun told _ => not_mem_nil]
    refine ⟨fun hboth => hboth.2, fun horder => ⟨?_, horder⟩⟩
    exact (hfrom.told other horder.mem).seq_pos
  rw [Loaded.events, Appended]
  cases hunended : loaded.unended with
  | none => simp [hmem]
  | some last =>
      rw [Option.toList_some, mem_keepOrdered_concat, hmem]
      have hpos := (hfrom.unended last hunended).seq_pos
      refine or_congr_right ⟨?_, ?_⟩
      · rintro ⟨rfl, -, -, hlater⟩
        exact ⟨rfl, fun earlier hearlier => hlater earlier ((hmem earlier).mpr hearlier)⟩
      · rintro ⟨hsame, hlater⟩
        cases hsame
        exact ⟨rfl, not_mem_nil, hpos, fun kept hkept => hlater kept ((hmem kept).mp hkept)⟩

/-- The order in which both readers tell messages. -/
def Earlier (left right : (ℤ × Text) × Option Text) : Prop :=
  left.1.1 < right.1.1

theorem messages_increasing (loaded : Loaded) : (loaded.messages sqlite).Pairwise Earlier := by
  rw [Loaded.messages, pairwise_map]
  exact (keepOrdered_increasing _ [] 0).2.filter Told.isMessage

theorem served_increasing {source : Source} (hsound : Sound sqlite source.lines) :
    (((served sqlite source).map keyed).map whole).Pairwise Earlier := by
  rw [map_map, pairwise_map]
  exact (shelf_increasing hsound).filter _

/-- The messages are the same, where one reader has each of the other's. -/
theorem messages_eq_iff (hfrom : FromLines loaded) (hlawful : Lawful sqlite)
    (hsound : Sound sqlite loaded.file.source.lines) :
    loaded.messages sqlite = ((served sqlite loaded.file.source).map keyed).map whole ↔
      (∀ item ∈ served sqlite loaded.file.source, ∃ told,
        (InOrder told loaded.told ∨ Appended loaded told) ∧ told.isMessage = true ∧
          told.said sqlite = whole (keyed item)) ∧
      ∀ told, Appended loaded told → told.isMessage = true →
        ∃ item ∈ served sqlite loaded.file.source, told.said sqlite = whole (keyed item) := by
  have hevents := mem_events hfrom (hfrom.distinct hlawful hsound)
  have hmessages : ∀ message, message ∈ loaded.messages sqlite ↔ ∃ told,
      (InOrder told loaded.told ∨ Appended loaded told) ∧ told.isMessage = true ∧
        told.said sqlite = message := by
    intro message
    simp only [Loaded.messages, mem_map, mem_filter, hevents, and_assoc]
  have hserved : ∀ message, message ∈ ((served sqlite loaded.file.source).map keyed).map whole ↔
      ∃ item ∈ served sqlite loaded.file.source, whole (keyed item) = message := by
    intro message
    simp only [map_map, mem_map, Function.comp_apply]
  constructor
  · intro heq
    constructor
    · intro item hitem
      rw [← hmessages, heq, hserved]
      exact ⟨item, hitem, rfl⟩
    · intro told happended hmessage
      have hmem : told.said sqlite ∈ loaded.messages sqlite :=
        (hmessages _).mpr ⟨told, .inr happended, hmessage, rfl⟩
      rw [heq, hserved] at hmem
      obtain ⟨item, hitem, hsame⟩ := hmem
      exact ⟨item, hitem, hsame.symm⟩
  · rintro ⟨haccepted, hindexed⟩
    have : Std.Irrefl Earlier := ⟨fun message => lt_irrefl message.1.1⟩
    have : Std.Antisymm Earlier := ⟨fun left right hleft hright => absurd hleft hright.not_gt⟩
    refine (messages_increasing loaded).eq_of_mem_iff (served_increasing hsound) fun message => ?_
    rw [hmessages, hserved]
    constructor
    · rintro ⟨told, horder | happended, hmessage, rfl⟩
      · obtain ⟨item, hstored, hseq, hid, hflag, hrow⟩ := hfrom.stored hlawful hsound horder.mem
        have hpos := (hfrom.told told horder.mem).seq_pos
        refine ⟨item, mem_served.mpr ⟨hrow, hseq ▸ hpos, hflag.trans hmessage⟩, ?_⟩
        simp only [whole, keyed, Told.said, hstored, Option.map_some, hseq, hid]
      · obtain ⟨item, hitem, hsame⟩ := hindexed told happended hmessage
        exact ⟨item, hitem, hsame.symm⟩
    · rintro ⟨item, hitem, rfl⟩
      exact haccepted item hitem

end Loads

/-! ## Agreement -/

variable {loaded : Loaded}

theorem Source.sized_of_ledger (file : LedgerFile) : ∀ line ∈ file.source.lines, 0 < line.size := by
  intro line hline
  obtain ⟨filled, -, rfl⟩ := mem_map.mp hline
  exact filled.filled

theorem readersAgree_of_compatible (hfrom : FromLines loaded) (hlawful : Lawful sqlite) {batch : ℕ}
    (hbatch : 0 < batch) (hcompatible : Compatible sqlite loaded) :
    ReadersAgree sqlite batch loaded := by
  have hsized := Source.sized_of_ledger loaded.file
  obtain ⟨count, db, status, hsyncs, hcaught, hindexed⟩ :=
    exists_syncs_caughtUp hsized hbatch hcompatible.sound
  refine ⟨count, db, status, (served sqlite loaded.file.source).map keyed, hsyncs, hcaught, ?_,
    (remaining (loaded.file.source.shelf sqlite) {} ⟨1, 0⟩).room, fun requests hvalid => ?_⟩
  · exact (messages_eq_iff hfrom hlawful hcompatible.sound).mpr
      ⟨hcompatible.accepted, hcompatible.indexed⟩
  · exact reading_serves hsized hbatch hlawful hcompatible.sound hcompatible.fits hcompatible.range
      hindexed hvalid

theorem compatible_of_readersAgree (hfrom : FromLines loaded) (hlawful : Lawful sqlite) {batch : ℕ}
    (hbatch : 0 < batch) (hagree : ReadersAgree sqlite batch loaded) : Compatible sqlite loaded := by
  have hsized := Source.sized_of_ledger loaded.file
  obtain ⟨count, db, status, messages, hsyncs, hcaught, hmessages, bound, hreads⟩ := hagree
  obtain ⟨hsound, hindexed⟩ := indexedTo_of_caughtUp hsized hbatch hsyncs hcaught
  have hunfailing : Unfailing sqlite batch loaded.file.source { db } :=
    fun requests hvalid => (hreads requests hvalid).1
  have hfits : ∀ item ∈ served sqlite loaded.file.source, FitsPage item :=
    fun item hitem => fitsPage_of_unfailing hsized hbatch hlawful hsound hindexed hunfailing hitem
  have hrange := inRange_of_unfailing hsized hbatch hlawful hsound hindexed hunfailing
  -- a reading that is long enough for both bounds
  have hsame : messages = (served sqlite loaded.file.source).map keyed := by
    let room := (remaining (loaded.file.source.shelf sqlite) {} ⟨1, 0⟩).room
    have hvalid : ∀ limits ∈ List.replicate (bound + room + 1) (⟨1, 1⟩ : Limits),
        limits.valid = true := by
      intro limits hlimits
      rw [eq_of_mem_replicate hlimits]
      rfl
    have hlength := length_replicate (n := bound + room + 1) (a := (⟨1, 1⟩ : Limits))
    have hleft := (hreads _ hvalid).2 (by omega)
    have hright := (reading_serves hsized hbatch hlawful hsound hfits hrange hindexed hvalid).2
      (by omega)
    exact Option.some.inj (hleft.symm.trans hright)
  rw [hsame] at hmessages
  obtain ⟨haccepted, happended⟩ := (messages_eq_iff hfrom hlawful hsound).mp hmessages
  exact ⟨hsound, haccepted, happended, hfits, hrange⟩

/-- Loading and indexing agree exactly on ledgers of which each line suits both: what a reader of
the tables is handed are the messages of the load. -/
theorem load_agrees_iff (hlawful : Lawful sqlite) {batch : ℕ} (hbatch : 0 < batch)
    (conversions : Conversions) (sessionId : Text) (replacement : Replacement) (file : LedgerFile) :
    ReadersAgree sqlite batch (load conversions sessionId replacement file) ↔
      Compatible sqlite (load conversions sessionId replacement file) := by
  have hfrom := fromLines_load conversions sessionId replacement file
  exact ⟨compatible_of_readersAgree hfrom hlawful hbatch,
    readersAgree_of_compatible hfrom hlawful hbatch⟩

/-! ## Two ledgers -/

/-- Conversions that the ledgers below do not need. -/
def plainConversions : Conversions where
  builtins := { str := fun _ => [], int := fun _ => none }
  float _ := .nan

/-- A line that both readers can use. -/
def helloLine : LedgerLine where
  size := 100
  decoded := .event (.obj [(lit "seq", .int 1), (lit "event_id", .str (lit "a")),
    (lit "kind", .str (lit "message_committed")),
    (lit "created_at", .float (.finite ⟨false, 1, [0], none, by decide⟩)),
    (lit "payload", .obj [(lit "source", .str (lit "user")),
      (lit "message", .obj [(lit "role", .str (lit "user")), (lit "content", .str (lit "hi"))])])])
  filled := by decide

/-- The line behind it. -/
def answerLine : LedgerLine where
  size := 90
  decoded := .event (.obj [(lit "seq", .int 2), (lit "event_id", .str (lit "b")),
    (lit "kind", .str (lit "message_committed")),
    (lit "created_at", .float (.finite ⟨false, 1, [0], none, by decide⟩)),
    (lit "payload", .obj [(lit "source", .str (lit "model")),
      (lit "message", .obj [(lit "role", .str (lit "assistant")),
        (lit "content", .str (lit "ok"))])])])
  filled := by decide

/-- A line that holds `[]`. -/
def listLine : LedgerLine where
  size := 3
  decoded := .event (.arr [])
  filled := by decide

def ledgerOf (lines : List LedgerLine) : LedgerFile where
  device := lit "device"
  inode := lit "inode"
  mtime := 0
  lines

def unreplaced : Replacement where
  fails := true
  inode := []
  mtime := 0

theorem lawful_plainSqlite : Lawful plainSqlite where
  key_int value hfits := by simp [plainSqlite, hfits]
  text_str _ _ := rfl
  key_fits value key hkey := by
    cases value with
    | int value =>
        simp only [plainSqlite] at hkey
        split at hkey
        · cases hkey
          assumption
        · cases hkey
    | null | bool _ | float _ | str _ | arr _ | obj _ => cases hkey
  next_fits keys := by
    dsimp only [plainSqlite]
    split
    · assumption
    · decide

theorem fitsPage_hello {item : Row × Text}
    (hitem : item ∈ tableRows plainSqlite [helloLine.toLine, answerLine.toLine]) :
    FitsPage item := by
  have hevery : ∀ stored ∈ tableRows plainSqlite [helloLine.toLine, answerLine.toLine],
      stored.2.length = 2 ∧ (tuple? stored.1.artifactRefs).isSome = true ∧
        ∀ offset < 2, ∀ chars < 3, 0 < chars →
          (fitRecord (describe stored offset chars) pageEncodedChars).isSome = true := by
    decide +kernel
  obtain ⟨hlength, hreferences, hfits⟩ := hevery item hitem
  refine ⟨hreferences, fun offset chars hoffset hpositive hbounded => ?_⟩
  have hmin : describe item offset chars = describe item offset (min chars 2) := by
    have htake : (item.2.drop offset).take chars = (item.2.drop offset).take (min chars 2) := by
      rcases Nat.le_total chars 2 with hless | hmore
      · rw [Nat.min_eq_left hless]
      · have hdrop := length_drop (i := offset) (l := item.2)
        rw [Nat.min_eq_right hmore, take_of_length_le (by omega),
          take_of_length_le (by omega)]
    simp only [describe, htake]
  rw [hmin]
  exact Option.ne_none_iff_isSome.mpr (hfits offset (by omega) _ (by omega) (by omega))

def loadedHello : Loaded :=
  load plainConversions (lit "session") unreplaced (ledgerOf [helloLine, answerLine])

theorem compatible_hello : Compatible plainSqlite loadedHello := by
  refine ⟨⟨by decide, by decide, by decide⟩, fun item hitem => ?_, fun told happended => ?_,
    fun item hitem => fitsPage_hello (mem_served.mp hitem).1, .inl rfl⟩
  · have hmessages : ∀ told ∈ loadedHello.told, told.isMessage = true := by decide +kernel
    have hsaid : ∀ stored ∈ tableRows plainSqlite [helloLine.toLine, answerLine.toLine],
        ∃ told ∈ loadedHello.told, told.said plainSqlite = whole (keyed stored) := by
      decide +kernel
    have hordered : loadedHello.told.Pairwise fun left right => left.event.seq < right.event.seq := by
      decide +kernel
    obtain ⟨first, second, htold⟩ : ∃ first second, loadedHello.told = [first, second] :=
      length_eq_two.mp (by decide +kernel)
    obtain ⟨told, hmem, htells⟩ := hsaid item (mem_served.mp hitem).1
    refine ⟨told, .inl ?_, hmessages told hmem, htells⟩
    rw [htold] at hmem hordered ⊢
    rcases mem_pair.mp hmem with rfl | rfl
    · exact inOrder_cons.mpr (.inl rfl)
    · exact inOrder_cons.mpr (.inr ⟨rel_of_pairwise_cons hordered mem_cons_self,
        inOrder_cons.mpr (.inl rfl)⟩)
  · have hnone : loadedHello.unended = none := rfl
    have hunended := happended.1
    rw [hnone] at hunended
    cases hunended

theorem load_agrees_hello : ReadersAgree plainSqlite 1
    (load plainConversions (lit "session") unreplaced (ledgerOf [helloLine, answerLine])) :=
  (load_agrees_iff lawful_plainSqlite Nat.one_pos _ _ _ _).mpr compatible_hello

/-- The load reports the second line and returns the message; the index gives up. -/
theorem listLine_stops_index :
    (load plainConversions (lit "session") unreplaced (ledgerOf [helloLine, listLine])).messages
        plainSqlite = [((1, lit "a"), some (lit "hi"))] ∧
      ∀ batch, ¬ ReadersAgree plainSqlite (batch + 1)
        (load plainConversions (lit "session") unreplaced (ledgerOf [helloLine, listLine])) := by
  constructor
  · decide +kernel
  · intro batch hagree
    have hfrom := fromLines_load plainConversions (lit "session") unreplaced
      (ledgerOf [helloLine, listLine])
    have hcompatible :=
      compatible_of_readersAgree hfrom lawful_plainSqlite batch.succ_pos hagree
    have hlines : listLine.toLine ∈ (load plainConversions (lit "session") unreplaced
        (ledgerOf [helloLine, listLine])).file.source.lines :=
      mem_cons_of_mem _ mem_cons_self
    exact absurd (hcompatible.sound.indexable _ hlines) (by decide)

end ReuleauxCoder.History
