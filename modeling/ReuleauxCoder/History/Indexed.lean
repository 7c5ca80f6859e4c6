import ReuleauxCoder.History.Paging

/-!
# The index holds a prefix

Over a well-formed ledger each `_sync` reads on from the line it stopped at.  The tables
then hold the events of a longer prefix, in order, and the position is the size of that
prefix.  A table of another file is dropped first.
-/

namespace ReuleauxCoder.History

open PyText PyJson Pieces
open List hiding lookup

/-! ## Well-formed ledgers -/

/-- The row and the content that a line puts into the tables. -/
def stored? (sqlite : Sqlite) (line : Line) : Option (Row × Text) :=
  match line.decoded with
  | .event event => do
      let entry ← entryOf? sqlite event
      let seq ← entry.key
      return (entry.row seq, entry.content)
  | _ => none

/-- The events of a ledger, in order. -/
def items (sqlite : Sqlite) (lines : List Line) : List (Row × Text) :=
  lines.filterMap (stored? sqlite)

/-- A ledger of complete lines, each of them an event that the tables can hold, with
increasing sequence numbers and distinct identifiers. -/
structure WellFormed (sqlite : Sqlite) (source : Source) : Prop where
  complete : source.tail = 0
  sized : ∀ line ∈ source.lines, 0 < line.size
  indexable : ∀ line ∈ source.lines, (stored? sqlite line).isSome
  increasing : (items sqlite source.lines).Pairwise fun left right => left.1.seq < right.1.seq
  bounded : ∀ item ∈ items sqlite source.lines, item.1.seq < 2 ^ 63
  distinct : ((items sqlite source.lines).map fun item => item.1.eventId).Nodup
  references : ∀ item ∈ items sqlite source.lines, (tuple? item.1.artifactRefs).isSome

/-- What an entry keeps of its event. -/
structure Entered (sqlite : Sqlite) (event : Dict) (entry : Entry) : Prop where
  key : ∃ value, lookup (lit "seq") event = some value ∧ sqlite.key value = some entry.key
  eventId : ∃ value id, lookup (lit "event_id") event = some value ∧
    sqlite.text value = some (some id) ∧ ∀ seq, (entry.row seq).eventId = id
  content : ∃ message, content? event = some (entry.content, message) ∧
    ∀ seq, (entry.row seq).message = message
  row : ∀ seq, (entry.row seq).seq = seq ∧ (entry.row seq).totalChars = entry.content.length
  fits : fitsInteger entry.content.length = true

theorem entered_of_entryOf? {sqlite : Sqlite} {event : Json} {entry : Entry}
    (hentry : entryOf? sqlite event = some entry) :
    ∃ fields, event = .obj fields ∧ Entered sqlite fields entry := by
  cases event with
  | obj fields =>
      simp only [entryOf?, Option.bind_eq_bind, Option.bind_eq_some_iff] at hentry
      obtain ⟨⟨content, message⟩, hcontent, value, hvalue, key, hkey, name, hname, bound, hbound,
        eventId, heventId, turnId, -, _, -, _, -, kind, -, role, -, createdAt, -, hfits⟩ := hentry
      subst heventId
      split at hfits
      · rename_i hfit
        cases hfits
        rw [Bool.and_eq_true, Bool.and_eq_true] at hfit
        exact ⟨fields, rfl, ⟨value, hvalue, hkey⟩, ⟨name, eventId, hname, hbound, fun _ => rfl⟩,
          ⟨message, hcontent, fun _ => rfl⟩, fun _ => ⟨rfl, rfl⟩, hfit.1.1⟩
      · cases hfits
  | null | bool _ | int _ | float _ | str _ | arr _ => cases hentry

theorem entryOf?_eq_some {sqlite : Sqlite} {event : Json} {entry : Entry}
    (hentry : entryOf? sqlite event = some entry) (seq : ℤ) :
    (entry.row seq).seq = seq ∧ (entry.row seq).totalChars = entry.content.length ∧
      fitsInteger entry.content.length = true := by
  obtain ⟨fields, -, hentered⟩ := entered_of_entryOf? hentry
  exact ⟨(hentered.row seq).1, (hentered.row seq).2, hentered.fits⟩

variable {line : Line}

/-- How a line gets into the tables. -/
theorem stored?_eq_some {sqlite : Sqlite} {item : Row × Text}
    (hstored : stored? sqlite line = some item) :
    ∃ event entry, line.decoded = .event event ∧ entryOf? sqlite event = some entry ∧
      entry.key = some item.1.seq ∧ entry.row item.1.seq = item.1 ∧ entry.content = item.2 ∧
      item.1.totalChars = item.2.length ∧ item.2.length < 2 ^ 63 := by
  rw [stored?] at hstored
  split at hstored
  · rename_i event hdecoded
    simp only [Option.bind_eq_bind, Option.bind_eq_some_iff] at hstored
    obtain ⟨entry, hentry, seq, hseq, hitem⟩ := hstored
    cases hitem
    obtain ⟨hrow, htotal, hfits⟩ := entryOf?_eq_some hentry seq
    rw [fitsInteger, Bool.and_eq_true, decide_eq_true_eq, decide_eq_true_eq] at hfits
    refine ⟨event, entry, hdecoded, hentry, ?_, ?_, rfl, htotal, by exact_mod_cast hfits.2⟩
    · rw [hrow]
      exact hseq
    · rw [hrow]
  · cases hstored

section Items

variable {sqlite : Sqlite} {lines : List Line}

theorem items_append (left right : List Line) :
    items sqlite (left ++ right) = items sqlite left ++ items sqlite right :=
  filterMap_append

theorem items_cons {item : Row × Text} (hitem : stored? sqlite line = some item)
    (rest : List Line) : items sqlite (line :: rest) = item :: items sqlite rest :=
  filterMap_cons_some hitem

theorem length_items (hindexable : ∀ line ∈ lines, (stored? sqlite line).isSome) :
    (items sqlite lines).length = lines.length := by
  induction lines with
  | nil => rfl
  | cons line rest ih =>
      obtain ⟨item, hitem⟩ := Option.isSome_iff_exists.mp (hindexable line mem_cons_self)
      have hrest := ih fun other hother => hindexable other (mem_cons_of_mem _ hother)
      rw [items_cons hitem, length_cons, length_cons, hrest]

theorem items_take (hindexable : ∀ line ∈ lines, (stored? sqlite line).isSome) (count : ℕ) :
    items sqlite (lines.take count) = (items sqlite lines).take count := by
  have hlength := length_items (fun line hline => hindexable line (mem_of_mem_take hline) :
    ∀ line ∈ lines.take count, (stored? sqlite line).isSome)
  rcases Nat.le_total count lines.length with hcount | hcount
  · calc items sqlite (lines.take count)
        = (items sqlite (lines.take count) ++ items sqlite (lines.drop count)).take count := by
          rw [length_take_of_le hcount] at hlength
          rw [take_left' hlength]
      _ = (items sqlite lines).take count := by
          rw [← items_append, take_append_drop]
  · rw [take_of_length_le hcount, take_of_length_le (by rwa [length_items hindexable])]

end Items

/-! ## The tables hold a prefix -/

/-- The tables after the first `count` lines. -/
structure Holds (sqlite : Sqlite) (source : Source) (count : ℕ) (db : Database) : Prop where
  events : db.events = (items sqlite (source.lines.take count)).map Prod.fst
  chunks : db.chunks = (items sqlite (source.lines.take count)).flatMap fun item =>
    chunkRows item.1.seq item.2

/-- The bytes of the first `count` lines. -/
def Source.prefixSize (source : Source) (count : ℕ) : ℕ :=
  ((source.lines.take count).map Line.size).sum

/-- A database that was built from the first `count` lines of the same file. -/
structure Indexed (sqlite : Sqlite) (source : Source) (count : ℕ) (db : Database) : Prop where
  holds : Holds sqlite source count db
  within : count ≤ source.lines.length
  unstarted : db.progress = none → count = 0
  started : ∀ progress, db.progress = some progress →
    progress.device = source.device ∧ progress.inode = source.inode ∧
      progress.position = source.prefixSize count

/-- The file has not been touched since it was indexed. -/
def Settled (source : Source) (db : Database) : Prop :=
  ∀ progress, db.progress = some progress → progress.mtime = source.mtime

/-- The tables come from a prefix of this file, or from a file that it replaced. -/
def Usable (sqlite : Sqlite) (source : Source) (db : Database) : Prop :=
  (∃ progress, db.progress = some progress ∧ replaced source progress = true) ∨
    ∃ count, Indexed sqlite source count db

variable {sqlite : Sqlite} {source : Source}

theorem indexed_empty : Indexed sqlite source 0 {} where
  holds := ⟨rfl, rfl⟩
  within := Nat.zero_le _
  unstarted _ := rfl
  started _ hprogress := by cases hprogress

theorem insertRow_last {rows : List Row} {row : Row} (hlast : ∀ other ∈ rows, other.seq < row.seq) :
    insertRow row rows = rows ++ [row] := by
  induction rows with
  | nil => rfl
  | cons other rest ih =>
      have hother := hlast other mem_cons_self
      rw [insertRow, orderedInsert_cons, if_neg (by omega)]
      rw [insertRow] at ih
      rw [ih fun later hlater => hlast later (mem_cons_of_mem _ hlater), cons_append]

variable {count : ℕ} {db : Database}

variable {rest : List Line}

theorem prefixSize_succ (hrest : source.lines.drop count = line :: rest) :
    source.prefixSize (count + 1) = source.prefixSize count + line.size := by
  simp [Source.prefixSize, take_succ_of_drop hrest]

/-- The next line goes into the tables. -/
theorem insert_next (hformed : WellFormed sqlite source) (hholds : Holds sqlite source count db)
    (hrest : source.lines.drop count = line :: rest) :
    ∃ event entry next, line.decoded = .event event ∧ entryOf? sqlite event = some entry ∧
      db.insert sqlite entry = some next ∧ Holds sqlite source (count + 1) next ∧
      next.progress = db.progress := by
  have hline : line ∈ source.lines :=
    mem_of_mem_drop (hrest ▸ mem_cons_self : line ∈ source.lines.drop count)
  obtain ⟨item, hitem⟩ := Option.isSome_iff_exists.mp (hformed.indexable line hline)
  obtain ⟨event, entry, hdecoded, hentry, hkey, hrow, hcontent, -, -⟩ := stored?_eq_some hitem
  have hsplit : items sqlite source.lines =
      items sqlite (source.lines.take count) ++ item :: items sqlite rest := by
    rw [← items_cons hitem, ← hrest, ← items_append, take_append_drop]
  have hincreasing := hformed.increasing
  have hdistinct := hformed.distinct
  rw [hsplit] at hincreasing
  rw [hsplit, map_append, map_cons, nodup_append] at hdistinct
  have hbelow : ∀ other ∈ db.events, other.seq < item.1.seq := by
    intro other hother
    rw [hholds.events] at hother
    obtain ⟨earlier, hearlier, rfl⟩ := mem_map.mp hother
    exact (pairwise_append.mp hincreasing).2.2 earlier hearlier item mem_cons_self
  have hnewSeq : item.1.seq ∉ db.events.map Row.seq := by
    intro hknown
    obtain ⟨other, hother, hseq⟩ := mem_map.mp hknown
    exact (hbelow other hother).ne hseq
  have hnewId : item.1.eventId ∉ db.events.map Row.eventId := by
    rw [hholds.events, map_map]
    exact fun hknown => hdistinct.2.2 _ hknown _ mem_cons_self rfl
  have hitems : items sqlite (source.lines.take (count + 1)) =
      items sqlite (source.lines.take count) ++ [item] := by
    rw [take_succ_of_drop hrest, items_append, items_cons hitem]
    rfl
  refine ⟨event, entry, { db with
    events := insertRow item.1 db.events
    chunks := db.chunks ++ chunkRows item.1.seq item.2 }, hdecoded, hentry, ?_, ⟨?_, ?_⟩, rfl⟩
  · simp only [Database.insert, hkey, Option.getD_some, hrow, hcontent]
    rw [if_pos ⟨hnewSeq, hnewId⟩]
  · rw [hitems, map_append, insertRow_last hbelow, hholds.events]
    rfl
  · rw [hitems, flatMap_append, hholds.chunks]
    simp

/-! ## One `_sync` -/

/-- The loop reads on, and at least one line if there is one. -/
theorem indexLines_spec (hformed : WellFormed sqlite source) (last skipped : ℕ)
    (hholds : Holds sqlite source count db) (hcount : count ≤ source.lines.length)
    (hrest : source.lines.drop count = rest) :
    ∃ later next awaiting,
      indexLines sqlite last rest (source.prefixSize count) skipped db =
        some (source.prefixSize later, skipped, next, awaiting) ∧
      Holds sqlite source later next ∧ count ≤ later ∧ later ≤ source.lines.length ∧
      (source.prefixSize count < last → rest ≠ [] → count < later) := by
  induction rest generalizing count db with
  | nil => exact ⟨count, db, _, rfl, hholds, le_rfl, hcount, fun _ hnone => absurd rfl hnone⟩
  | cons line others ih =>
      by_cases hmore : source.prefixSize count < last
      · obtain ⟨event, entry, middle, hdecoded, hentry, hinsert, hmiddle, -⟩ :=
          insert_next hformed hholds hrest
        have hbound : count + 1 ≤ source.lines.length := by
          have hlength := congrArg List.length hrest
          rw [length_drop, length_cons] at hlength
          omega
        obtain ⟨later, next, awaiting, hloop, hnext, hlater, hwithin, -⟩ :=
          ih hmiddle hbound (drop_succ_of_drop hrest)
        refine ⟨later, next, awaiting, ?_, hnext, by omega, hwithin, fun _ _ => hlater⟩
        rw [prefixSize_succ hrest] at hloop
        simp only [indexLines, if_pos hmore, hdecoded, hentry, hinsert, Option.bind_eq_bind,
          Option.bind_some]
        exact hloop
      · refine ⟨count, db, false, ?_, hholds, le_rfl, hcount, fun hless => absurd hless hmore⟩
        rw [indexLines, if_neg hmore]

theorem linesFrom_prefix {lines : List Line} (hsized : ∀ line ∈ lines, 0 < line.size) (count : ℕ) :
    linesFrom ((lines.take count).map Line.size).sum lines = lines.drop count := by
  induction lines generalizing count with
  | nil => simp [linesFrom]
  | cons line rest ih =>
      cases count with
      | zero => rfl
      | succ count =>
          have hline := hsized line mem_cons_self
          have hrest := ih (fun other hother => hsized other (mem_cons_of_mem _ hother)) count
          obtain ⟨size, hsize⟩ := Nat.exists_eq_add_of_lt hline
          rw [take_succ_cons, map_cons, sum_cons, drop_succ_cons, ← hrest,
            show line.size + ((rest.take count).map Line.size).sum =
              (size + ((rest.take count).map Line.size).sum) + 1 by omega, linesFrom]
          congr 1
          omega

theorem prefixSize_le (source : Source) {later : ℕ} (hcount : count ≤ later) :
    source.prefixSize count ≤ source.prefixSize later := by
  have hbegins : source.lines.take count <+: source.lines.take later :=
    take_prefix_take_left hcount
  obtain ⟨between, hbetween⟩ := hbegins
  rw [Source.prefixSize, Source.prefixSize, ← hbetween, map_append, sum_append]
  exact Nat.le_add_right _ _

theorem prefixSize_length (hformed : WellFormed sqlite source) :
    source.prefixSize source.lines.length = source.size := by
  rw [Source.prefixSize, take_length, Source.size, hformed.complete, Nat.add_zero]

theorem prefixSize_lt (hsized : ∀ line ∈ source.lines, 0 < line.size) {later : ℕ}
    (hcount : count < later) (hlater : later ≤ source.lines.length) :
    source.prefixSize count < source.prefixSize later := by
  obtain ⟨line, rest, hrest⟩ :=
    exists_cons_of_ne_nil (drop_eq_nil_iff.not.mpr (by omega :
      ¬ source.lines.length ≤ count))
  have hsize := hsized line
    (mem_of_mem_drop (hrest ▸ mem_cons_self : line ∈ source.lines.drop count))
  have hnext := prefixSize_succ hrest
  have hmore := prefixSize_le source (Nat.succ_le_of_lt hcount)
  rw [Nat.succ_eq_add_one] at hmore
  omega

/-- What a `_sync` leaves: a longer prefix, and a status that says how much of the file
it is. -/
structure Synced (sqlite : Sqlite) (source : Source) (count : ℕ) (db : Database)
    (status : Status) : Prop where
  indexed : Indexed sqlite source count db
  settled : Settled source db
  indexedBytes : status.indexedBytes = source.prefixSize count
  sourceBytes : status.sourceBytes = source.size

theorem Synced.more_iff (hformed : WellFormed sqlite source) {status : Status}
    (hsynced : Synced sqlite source count db status) :
    status.indexedBytes < status.sourceBytes ↔ count < source.lines.length := by
  rw [hsynced.indexedBytes, hsynced.sourceBytes, ← prefixSize_length hformed]
  constructor
  · intro hless
    by_contra hnone
    have hsame : count = source.lines.length := by
      have hwithin := hsynced.indexed.within
      omega
    rw [hsame] at hless
    exact lt_irrefl _ hless
  · exact fun hcount => prefixSize_lt hformed.sized hcount le_rfl

variable {batch : ℕ}

section

variable (hformed : WellFormed sqlite source)
include hformed

theorem syncFrom_spec (hbatch : 0 < batch)
    (hindexed : Holds sqlite source count db) (hcount : count ≤ source.lines.length) (skipped : ℕ) :
    ∃ later next status,
      syncFrom sqlite batch source (source.prefixSize count) skipped db = some (next, status) ∧
      Synced sqlite source later next status ∧ count ≤ later ∧
      (count < source.lines.length → count < later) := by
  obtain ⟨later, next, awaiting, hloop, hholds, hlater, hwithin, hprogress⟩ :=
    indexLines_spec hformed (min source.size (source.prefixSize count + batch)) skipped hindexed
      hcount rfl
  have hsize : source.prefixSize later ≤ source.size := by
    rw [← prefixSize_length hformed]
    exact prefixSize_le source hwithin
  let progress : Progress :=
    { device := source.device, inode := source.inode, position := source.prefixSize later
      mtime := source.mtime, skipped }
  let status : Status := ⟨source.prefixSize later, source.size, skipped, awaiting⟩
  have hsync : syncFrom sqlite batch source (source.prefixSize count) skipped db =
      some ({ next with progress := some progress }, status) := by
    have hfrom := linesFrom_prefix hformed.sized count
    rw [← Source.prefixSize] at hfrom
    simp only [syncFrom, hfrom, hloop, Option.bind_eq_bind, Option.bind_some, Nat.max_eq_right hsize]
    rfl
  refine ⟨later, _, status, hsync, ⟨⟨⟨hholds.events, hholds.chunks⟩, hwithin, ?_, ?_⟩, ?_, rfl, rfl⟩,
    hlater, ?_⟩
  · intro hnone
    cases hnone
  · intro known hknown
    cases hknown
    exact ⟨rfl, rfl, rfl⟩
  · intro known hknown
    cases hknown
    rfl
  · intro hmore
    apply hprogress
    · have hless := prefixSize_lt hformed.sized hmore le_rfl
      rw [prefixSize_length hformed] at hless
      omega
    · rw [ne_eq, drop_eq_nil_iff]
      omega

theorem replaced_eq_false
    (hindexed : Indexed sqlite source count db) (hsettled : Settled source db) {progress : Progress}
    (hprogress : db.progress = some progress) : replaced source progress = false := by
  obtain ⟨hdevice, hinode, hposition⟩ := hindexed.started progress hprogress
  have hsize := prefixSize_le source hindexed.within
  rw [prefixSize_length hformed] at hsize
  have hmtime := hsettled progress hprogress
  simp [replaced, hdevice, hinode, hposition, hmtime, hsize]

/-- A `_sync` of a file that was indexed before reads on. -/
theorem sync_known (hbatch : 0 < batch)
    (hindexed : Indexed sqlite source count db)
    (hsame : ∀ progress, db.progress = some progress → replaced source progress = false) :
    ∃ later next status, sync sqlite batch source db = some (next, status) ∧
      Synced sqlite source later next status ∧ count ≤ later ∧
      (count < source.lines.length → count < later) := by
  cases hprogress : db.progress with
  | none =>
      have hcount := hindexed.unstarted hprogress
      subst hcount
      have hfrom := syncFrom_spec hformed hbatch hindexed.holds (Nat.zero_le _) 0
      rw [show source.prefixSize 0 = 0 from rfl] at hfrom
      simpa only [sync, hprogress] using hfrom
  | some progress =>
      have hknown := hsame progress hprogress
      obtain ⟨-, -, hposition⟩ := hindexed.started progress hprogress
      by_cases hend : progress.position = source.size
      · have hsettled : Settled source db := by
          intro other hother
          rw [hprogress] at hother
          cases hother
          simp only [replaced, hend, Bool.or_eq_false_iff, beq_self_eq_true, Bool.true_and,
            bne_eq_false_iff_eq] at hknown
          exact hknown.2.symm
        refine ⟨count, db, ⟨progress.position, source.size, progress.skipped, false⟩, ?_,
          ⟨hindexed, hsettled, hposition, rfl⟩, le_rfl, ?_⟩
        · simp [sync, hprogress, hknown, hend]
        · intro hmore
          have hless := prefixSize_lt hformed.sized hmore le_rfl
          rw [prefixSize_length hformed, ← hposition, hend] at hless
          exact absurd hless (lt_irrefl _)
      · have hfrom := syncFrom_spec hformed hbatch hindexed.holds hindexed.within progress.skipped
        rw [← hposition] at hfrom
        simpa only [sync, hprogress, hknown, Bool.false_eq_true, if_false, if_neg hend] using hfrom

theorem sync_next (hbatch : 0 < batch)
    (hindexed : Indexed sqlite source count db) (hsettled : Settled source db) :
    ∃ later next status, sync sqlite batch source db = some (next, status) ∧
      Synced sqlite source later next status ∧ count ≤ later ∧
      (count < source.lines.length → count < later) :=
  sync_known hformed hbatch hindexed fun _ hprogress =>
    replaced_eq_false hformed hindexed hsettled hprogress

/-- A `_sync` of a usable index succeeds. -/
theorem sync_spec (hbatch : 0 < batch)
    (husable : Usable sqlite source db) :
    ∃ later next status, sync sqlite batch source db = some (next, status) ∧
      Synced sqlite source later next status := by
  by_cases hreplaced : ∃ progress, db.progress = some progress ∧ replaced source progress = true
  · obtain ⟨progress, hprogress, htrue⟩ := hreplaced
    obtain ⟨later, next, status, hsync, hsynced, -, -⟩ :=
      syncFrom_spec hformed hbatch indexed_empty.holds (Nat.zero_le _) 0
    refine ⟨later, next, status, ?_, hsynced⟩
    simp only [sync, hprogress, if_pos htrue]
    exact hsync
  · obtain ⟨count, hindexed⟩ := husable.resolve_left hreplaced
    obtain ⟨later, next, status, hsync, hsynced, -, -⟩ :=
      sync_known hformed hbatch hindexed fun progress hprogress =>
        Bool.eq_false_iff.mpr fun htrue => hreplaced ⟨progress, hprogress, htrue⟩
    exact ⟨later, next, status, hsync, hsynced⟩

end

end ReuleauxCoder.History
