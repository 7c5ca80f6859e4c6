import ReuleauxCoder.History.Indexed
import ReuleauxCoder.History.Lossless
import ReuleauxCoder.Library.Listing

/-!
# The tables of any ledger

What a ledger of any lines leaves in the tables, and when it can be indexed at all: each
line is skipped or makes a row, and no two rows share a sequence number or an
identifier.  Repeated `_sync` then comes to the last line end.
-/

namespace ReuleauxCoder.History

open PyText PyJson Pieces List

/-! ## Rows -/

/-- `_sync` passes over the line. -/
def Line.isIndexable (sqlite : Sqlite) (line : Line) : Bool :=
  match line.decoded with
  | .undecodable => true
  | .event event => (entryOf? sqlite event).isSome
  | .raised => false

/-- Rows in the order of the table. -/
def shelve (rows : List (Row × Text)) : List (Row × Text) :=
  rows.foldl (fun shelf item =>
    shelf.orderedInsert (fun left right => left.1.seq ≤ right.1.seq) item) []

/-- The row of an entry, beside the rows that are there. -/
def Entry.item (sqlite : Sqlite) (entry : Entry) (rows : List (Row × Text)) : Row × Text :=
  (entry.row (entry.key.getD (sqlite.nextKey ((shelve rows).map fun item => item.1.seq))),
    entry.content)

def addRow (sqlite : Sqlite) (rows : List (Row × Text)) (line : Line) : List (Row × Text) :=
  match line.decoded with
  | .event event => rows ++ ((entryOf? sqlite event).map fun entry => entry.item sqlite rows).toList
  | _ => rows

/-- The rows of the lines, in the order of the file. -/
def tableRows (sqlite : Sqlite) (lines : List Line) : List (Row × Text) :=
  lines.foldl (addRow sqlite) []

/-- The lines can be indexed. -/
structure Sound (sqlite : Sqlite) (lines : List Line) : Prop where
  indexable : ∀ line ∈ lines, line.isIndexable sqlite = true
  seqs : ((tableRows sqlite lines).map fun item => item.1.seq).Nodup
  ids : ((tableRows sqlite lines).map fun item => item.1.eventId).Nodup

structure Tabled (db : Database) (rows : List (Row × Text)) : Prop where
  events : db.events = (shelve rows).map Prod.fst
  chunks : db.chunks = rows.flatMap fun item => chunkRows item.1.seq item.2

theorem shelve_append (rows : List (Row × Text)) (item : Row × Text) :
    shelve (rows ++ [item]) =
      (shelve rows).orderedInsert (fun left right => left.1.seq ≤ right.1.seq) item :=
  foldl_append

theorem perm_shelve (rows : List (Row × Text)) : (shelve rows).Perm rows := by
  induction rows using List.reverseRecOn with
  | nil => exact .refl _
  | append_singleton rows item ih =>
      rw [shelve_append]
      exact ((perm_orderedInsert _ _ _).trans (ih.cons _)).trans
        (perm_append_singleton _ _).symm

variable {rows : List (Row × Text)} {db : Database} {lines : List Line} {count : ℕ}

theorem shelve_sorted (hdistinct : (rows.map fun item => item.1.seq).Nodup) :
    (shelve rows).Pairwise fun left right => left.1.seq < right.1.seq := by
  have hsorted : (shelve rows).Pairwise fun left right => left.1.seq ≤ right.1.seq := by
    clear hdistinct
    induction rows using List.reverseRecOn with
    | nil => exact .nil
    | append_singleton rows item ih =>
        rw [shelve_append]
        have : Std.Total fun left right : Row × Text => left.1.seq ≤ right.1.seq :=
          ⟨fun left right => Int.le_total _ _⟩
        have : IsTrans (Row × Text) fun left right => left.1.seq ≤ right.1.seq :=
          ⟨fun _ _ _ => Int.le_trans⟩
        exact ih.orderedInsert item _
  have hnodup : (shelve rows).Pairwise fun left right => left.1.seq ≠ right.1.seq := by
    have hperm := ((perm_shelve rows).map fun item => item.1.seq).nodup_iff.mpr hdistinct
    exact pairwise_map.mp hperm
  exact (hsorted.and hnodup).imp fun hboth => lt_of_le_of_ne hboth.1 hboth.2

/-! ## One line -/

variable {sqlite : Sqlite}

theorem Tabled.seqs (htabled : Tabled db rows) :
    (db.events.map Row.seq).Perm (rows.map fun item => item.1.seq) := by
  rw [htabled.events, map_map]
  exact (perm_shelve rows).map _

theorem Tabled.ids (htabled : Tabled db rows) :
    (db.events.map Row.eventId).Perm (rows.map fun item => item.1.eventId) := by
  rw [htabled.events, map_map]
  exact (perm_shelve rows).map _

/-- An entry goes into the tables, unless they have its sequence number or identifier. -/
theorem insert_eq (sqlite : Sqlite) (htabled : Tabled db rows) (entry : Entry) :
    if (entry.item sqlite rows).1.seq ∉ rows.map (fun item => item.1.seq) ∧
        (entry.item sqlite rows).1.eventId ∉ rows.map (fun item => item.1.eventId) then
      ∃ next, db.insert sqlite entry = some next ∧ Tabled next (rows ++ [entry.item sqlite rows]) ∧
        next.progress = db.progress
    else db.insert sqlite entry = none := by
  have hseqs : db.events.map Row.seq = (shelve rows).map fun item => item.1.seq := by
    rw [htabled.events, map_map]
    rfl
  have hrow : entry.row (entry.key.getD (sqlite.nextKey (db.events.map Row.seq))) =
      (entry.item sqlite rows).1 := by
    rw [hseqs]
    rfl
  simp only [Database.insert, hrow, htabled.seqs.mem_iff, htabled.ids.mem_iff]
  split
  · refine ⟨_, rfl, ⟨?_, ?_⟩, rfl⟩
    · rw [shelve_append, map_orderedInsert (fun left right : Row × Text =>
        left.1.seq ≤ right.1.seq) (fun left right : Row => left.seq ≤ right.seq) Prod.fst, insertRow,
        htabled.events]
      all_goals exact fun _ _ => Iff.rfl
    · rw [flatMap_append, htabled.chunks]
      simp [Entry.item]
  · rfl

/-! ## Prefixes -/

theorem tableRows_append (left right : List Line) :
    tableRows sqlite (left ++ right) = right.foldl (addRow sqlite) (tableRows sqlite left) :=
  foldl_append

theorem prefix_foldl_addRow (lines : List Line) (rows : List (Row × Text)) :
    rows <+: lines.foldl (addRow sqlite) rows := by
  induction lines generalizing rows with
  | nil => exact prefix_rfl
  | cons line rest ih =>
      have hstep : rows <+: addRow sqlite rows line := by
        unfold addRow
        split
        · exact prefix_append _ _
        · exact prefix_rfl
      exact hstep.trans (ih _)

theorem Sound.take (hsound : Sound sqlite lines) (count : ℕ) :
    Sound sqlite (lines.take count) := by
  have hbegins : tableRows sqlite (lines.take count) <+: tableRows sqlite lines := by
    conv_rhs => rw [← take_append_drop count lines, tableRows_append]
    exact prefix_foldl_addRow _ _
  refine ⟨fun line hline => hsound.indexable line (mem_of_mem_take hline), ?_, ?_⟩
  · exact (hbegins.sublist.map _).nodup hsound.seqs
  · exact (hbegins.sublist.map _).nodup hsound.ids

variable {line : Line} {rest : List Line}

theorem tableRows_succ (hrest : lines.drop count = line :: rest) :
    tableRows sqlite (lines.take (count + 1)) =
      addRow sqlite (tableRows sqlite (lines.take count)) line := by
  rw [take_succ_of_drop hrest, tableRows_append]
  rfl

theorem Sound.succ (hsound : Sound sqlite (lines.take count))
    (hrest : lines.drop count = line :: rest) (hline : line.isIndexable sqlite = true)
    (hseqs : ((tableRows sqlite (lines.take (count + 1))).map fun item => item.1.seq).Nodup)
    (hids : ((tableRows sqlite (lines.take (count + 1))).map fun item => item.1.eventId).Nodup) :
    Sound sqlite (lines.take (count + 1)) := by
  refine ⟨?_, hseqs, hids⟩
  intro other hother
  rw [take_succ_of_drop hrest] at hother
  rcases mem_append.mp hother with hold | hnew
  · exact hsound.indexable other hold
  · rw [mem_singleton.mp hnew]
    exact hline

/-- Where a row comes from. -/
theorem mem_tableRows {item : Row × Text} (hitem : item ∈ tableRows sqlite lines) :
    ∃ line ∈ lines, ∃ event entry seq, line.decoded = .event event ∧
      entryOf? sqlite event = some entry ∧ item = (entry.row seq, entry.content) ∧
      (entry.key = some seq ∨ ∃ keys, seq = sqlite.nextKey keys) := by
  induction lines using List.reverseRecOn with
  | nil => exact absurd hitem not_mem_nil
  | append_singleton lines line ih =>
      rw [tableRows_append, foldl_cons, foldl_nil, addRow] at hitem
      have hold : item ∈ tableRows sqlite lines → ∃ other ∈ lines ++ [line], ∃ event entry seq,
          other.decoded = .event event ∧ entryOf? sqlite event = some entry ∧
          item = (entry.row seq, entry.content) ∧
          (entry.key = some seq ∨ ∃ keys, seq = sqlite.nextKey keys) := by
        intro hmem
        obtain ⟨other, hother, hrow⟩ := ih hmem
        exact ⟨other, mem_append_left _ hother, hrow⟩
      split at hitem
      · rename_i event hdecoded
        rcases mem_append.mp hitem with hmem | hnew
        · exact hold hmem
        · rw [Option.mem_toList, Option.map_eq_some_iff] at hnew
          obtain ⟨entry, hentry, rfl⟩ := hnew
          refine ⟨line, mem_append_right _ (mem_singleton_self _), event, entry, _, hdecoded,
            hentry, rfl, ?_⟩
          cases hkey : entry.key with
          | none => exact .inr ⟨_, rfl⟩
          | some seq => exact .inl rfl
      · exact hold hitem

/-- A line with a key of its own makes its row wherever it stands. -/
theorem mem_tableRows_of_stored (hline : line ∈ lines) {item : Row × Text}
    (hstored : stored? sqlite line = some item) : item ∈ tableRows sqlite lines := by
  obtain ⟨event, entry, hdecoded, hentry, hkey, hrow, hcontent, -, -⟩ := stored?_eq_some hstored
  obtain ⟨front, back, rfl⟩ := append_of_mem hline
  have hnew : item ∈ addRow sqlite (tableRows sqlite front) line := by
    simp only [addRow, hdecoded, hentry, Option.map_some, Option.toList_some, Entry.item, hkey,
      Option.getD_some, hrow, hcontent]
    exact mem_append_right _ (mem_singleton_self _)
  rw [tableRows_append, foldl_cons]
  exact (prefix_foldl_addRow back _).subset hnew

/-! ## The loop -/

variable {source : Source}

/-- Where the loop stops, if it does. -/
structure Stops (sqlite : Sqlite) (source : Source) (last count : ℕ) (later : ℕ)
    (next : Database) (awaiting : Bool) : Prop where
  sound : Sound sqlite (source.lines.take later)
  tabled : Tabled next (tableRows sqlite (source.lines.take later))
  onward : count ≤ later
  within : later ≤ source.lines.length
  progress : source.prefixSize count < last → count < source.lines.length → count < later
  ended : awaiting = true → later = source.lines.length
  awaits : later = source.lines.length → source.prefixSize later < last → awaiting = true

theorem Stops.succ {last later : ℕ} {next : Database} {awaiting : Bool}
    (hstops : Stops sqlite source last (count + 1) later next awaiting) :
    Stops sqlite source last count later next awaiting :=
  { hstops with
    onward := Nat.le_of_succ_le hstops.onward
    progress := fun _ _ => hstops.onward }

theorem not_sound_of_line (hrest : source.lines.drop count = line :: rest)
    (hline : line.isIndexable sqlite = false) : ¬ Sound sqlite source.lines := by
  intro hsound
  have hmem : line ∈ source.lines := by
    apply mem_of_mem_drop
    rw [hrest]
    exact mem_cons_self
  rw [hsound.indexable line hmem] at hline
  cases hline

theorem indexLines_cases (last : ℕ) (hsound : Sound sqlite (source.lines.take count))
    (htabled : Tabled db (tableRows sqlite (source.lines.take count)))
    (hcount : count ≤ source.lines.length) (hrest : source.lines.drop count = rest) (skipped : ℕ) :
    (indexLines sqlite last rest (source.prefixSize count) skipped db = none ∧
      ¬ Sound sqlite source.lines) ∨
    ∃ later after next awaiting,
      indexLines sqlite last rest (source.prefixSize count) skipped db =
        some (source.prefixSize later, after, next, awaiting) ∧
      Stops sqlite source last count later next awaiting := by
  induction rest generalizing count db skipped with
  | nil =>
      rw [drop_eq_nil_iff] at hrest
      have hend : count = source.lines.length := by omega
      refine .inr ⟨count, skipped, db, _, rfl, hsound, htabled, le_rfl, hcount, ?_, ?_, ?_⟩
      · intro _ hless
        omega
      · exact fun _ => hend
      · exact fun _ hless => decide_eq_true hless
  | cons line others ih =>
      by_cases hmore : source.prefixSize count < last
      · have hbound : count + 1 ≤ source.lines.length := by
          have hlength := congrArg List.length hrest
          rw [length_drop, length_cons] at hlength
          omega
        have hnext : tableRows sqlite (source.lines.take (count + 1)) =
            addRow sqlite (tableRows sqlite (source.lines.take count)) line := tableRows_succ hrest
        have hposition := prefixSize_succ hrest
        have hlater := drop_succ_of_drop hrest
        cases hdecoded : line.decoded with
        | raised =>
            refine .inl ⟨?_, not_sound_of_line hrest ?_⟩
            · simp only [indexLines, if_pos hmore, hdecoded]
            · simp only [Line.isIndexable, hdecoded]
        | undecodable =>
            have hsame : addRow sqlite (tableRows sqlite (source.lines.take count)) line =
                tableRows sqlite (source.lines.take count) := by
              simp only [addRow, hdecoded]
            rw [hsame] at hnext
            have hline : line.isIndexable sqlite = true := by
              simp only [Line.isIndexable, hdecoded]
            have hgrown := hsound.succ hrest hline (hnext ▸ hsound.seqs) (hnext ▸ hsound.ids)
            simp only [indexLines, if_pos hmore, hdecoded]
            rw [← hposition]
            rcases ih hgrown (hnext ▸ htabled) hbound hlater (skipped + 1) with
              hnone | ⟨stop, after, next, awaiting, hloop, hstops⟩
            · exact .inl hnone
            · exact .inr ⟨stop, after, next, awaiting, hloop, hstops.succ⟩
        | event event =>
            cases hentry : entryOf? sqlite event with
            | none =>
                refine .inl ⟨?_, not_sound_of_line hrest ?_⟩
                · simp only [indexLines, if_pos hmore, hdecoded, hentry]
                  rfl
                · simp only [Line.isIndexable, hdecoded, hentry, Option.isSome_none]
            | some entry =>
                have hline : line.isIndexable sqlite = true := by
                  simp only [Line.isIndexable, hdecoded, hentry, Option.isSome_some]
                have hrow : addRow sqlite (tableRows sqlite (source.lines.take count)) line =
                    tableRows sqlite (source.lines.take count) ++
                      [entry.item sqlite (tableRows sqlite (source.lines.take count))] := by
                  simp only [addRow, hdecoded, hentry, Option.map_some, Option.toList_some]
                rw [hrow] at hnext
                have hinsert := insert_eq sqlite htabled entry
                simp only [indexLines, if_pos hmore, hdecoded, hentry, Option.bind_eq_bind,
                  Option.bind_some]
                split at hinsert
                · rename_i hfresh
                  obtain ⟨middle, hmiddle, htable, -⟩ := hinsert
                  have hseqs :=
                    (Listing.nodup_map_concat (fun item : Row × Text => item.1.seq) _ _).mpr
                      ⟨hsound.seqs, hfresh.1⟩
                  have hids :=
                    (Listing.nodup_map_concat (fun item : Row × Text => item.1.eventId) _ _).mpr
                      ⟨hsound.ids, hfresh.2⟩
                  have hgrown := hsound.succ hrest hline (hnext ▸ hseqs) (hnext ▸ hids)
                  rw [hmiddle, Option.bind_some, ← hposition]
                  rcases ih hgrown (hnext ▸ htable) hbound hlater skipped with
                    hnone | ⟨stop, after, next, awaiting, hloop, hstops⟩
                  · exact .inl hnone
                  · exact .inr ⟨stop, after, next, awaiting, hloop, hstops.succ⟩
                · rename_i hknown
                  refine .inl ⟨by rw [hinsert, Option.bind_none], ?_⟩
                  intro hall
                  have hbegins := hall.take (count + 1)
                  have hseqs := hbegins.seqs
                  have hids := hbegins.ids
                  rw [hnext, Listing.nodup_map_concat] at hseqs hids
                  exact hknown ⟨hseqs.2, hids.2⟩
      · refine .inr ⟨count, skipped, db, false, ?_, hsound, htabled, le_rfl, hcount, ?_, ?_, ?_⟩
        · rw [indexLines, if_neg hmore]
        · exact fun hless _ => absurd hless hmore
        · intro hfalse
          cases hfalse
        · exact fun _ hless => absurd hless hmore

/-! ## `_sync`, again and again -/

/-- The tables were made from the first `count` lines of this file. -/
structure IndexedTo (sqlite : Sqlite) (source : Source) (count : ℕ) (db : Database) : Prop where
  sound : Sound sqlite (source.lines.take count)
  tabled : Tabled db (tableRows sqlite (source.lines.take count))
  within : count ≤ source.lines.length
  unstarted : db.progress = none → count = 0
  started : ∀ progress, db.progress = some progress →
    progress.device = source.device ∧ progress.inode = source.inode ∧
      progress.mtime = source.mtime ∧ progress.position = source.prefixSize count

/-- Nothing but an unended line is left to index. -/
def Status.caughtUp (status : Status) : Prop :=
  status.indexedBytes = status.sourceBytes ∨ status.awaitingTail = true

/-- What one `_sync` adds. -/
structure Advanced (sqlite : Sqlite) (source : Source) (count later : ℕ) (next : Database)
    (status : Status) : Prop where
  indexed : IndexedTo sqlite source later next
  onward : count ≤ later
  progress : count < source.lines.length → count < later
  indexedBytes : status.indexedBytes = source.prefixSize later
  sourceBytes : status.sourceBytes = source.size
  ended : status.awaitingTail = true → later = source.lines.length
  awaits : count = source.lines.length → status.caughtUp

theorem indexedTo_empty : IndexedTo sqlite source 0 {} where
  sound := by
    refine ⟨fun line hline => ?_, .nil, .nil⟩
    rw [take_zero] at hline
    exact absurd hline not_mem_nil
  tabled := ⟨rfl, rfl⟩
  within := Nat.zero_le _
  unstarted _ := rfl
  started _ hprogress := by cases hprogress

theorem size_eq (source : Source) :
    source.size = source.prefixSize source.lines.length + source.tail := by
  rw [Source.size, Source.prefixSize, take_length]

theorem prefixSize_le_size (source : Source) (hcount : count ≤ source.lines.length) :
    source.prefixSize count ≤ source.size := by
  have hbegins := prefixSize_le source hcount
  rw [size_eq]
  omega

theorem Advanced.ended_of_caughtUp (hsized : ∀ line ∈ source.lines, 0 < line.size) {later : ℕ}
    {next : Database} {status : Status} (hadvanced : Advanced sqlite source count later next status)
    (hcaught : status.caughtUp) : later = source.lines.length := by
  rcases hcaught with hall | hawaiting
  · rw [hadvanced.indexedBytes, hadvanced.sourceBytes, size_eq] at hall
    by_contra hne
    have hwithin := hadvanced.indexed.within
    have hless := prefixSize_lt hsized (by omega : later < source.lines.length) le_rfl
    omega
  · exact hadvanced.ended hawaiting

variable {batch : ℕ}

theorem syncFrom_cases (hsized : ∀ line ∈ source.lines, 0 < line.size) (hbatch : 0 < batch)
    (hindexed : IndexedTo sqlite source count db) (skipped : ℕ) :
    (syncFrom sqlite batch source (source.prefixSize count) skipped db = none ∧
      ¬ Sound sqlite source.lines) ∨
    ∃ later next status,
      syncFrom sqlite batch source (source.prefixSize count) skipped db = some (next, status) ∧
      Advanced sqlite source count later next status := by
  have hfrom := linesFrom_prefix hsized count
  rw [← Source.prefixSize] at hfrom
  rcases indexLines_cases (min source.size (source.prefixSize count + batch)) hindexed.sound
    hindexed.tabled hindexed.within rfl skipped with
      ⟨hloop, hunsound⟩ | ⟨later, after, next, awaiting, hloop, hstops⟩
  · refine .inl ⟨?_, hunsound⟩
    simp only [syncFrom, hfrom, hloop]
    rfl
  · have hsize := prefixSize_le_size source hstops.within
    let progress : Progress :=
      { device := source.device, inode := source.inode, position := source.prefixSize later
        mtime := source.mtime, skipped := after }
    have hsync : syncFrom sqlite batch source (source.prefixSize count) skipped db =
        some ({ next with progress := some progress },
          ⟨source.prefixSize later, source.size, after, awaiting⟩) := by
      simp only [syncFrom, hfrom, hloop, Option.bind_eq_bind, Option.bind_some,
        Nat.max_eq_right hsize]
      rfl
    refine .inr ⟨later, _, _, hsync, ?_⟩
    refine ⟨⟨hstops.sound, ⟨hstops.tabled.events, hstops.tabled.chunks⟩, hstops.within, ?_, ?_⟩,
      hstops.onward, ?_, rfl, rfl, hstops.ended, ?_⟩
    · intro hnone
      cases hnone
    · intro known hknown
      cases hknown
      exact ⟨rfl, rfl, rfl, rfl⟩
    · intro hmore
      apply hstops.progress _ hmore
      have hless := prefixSize_lt hsized hmore le_rfl
      rw [size_eq]
      omega
    · intro hcount
      have hlater : later = source.lines.length := by
        have honward := hstops.onward
        have hwithin := hstops.within
        omega
      by_cases hend : source.prefixSize later = source.size
      · exact .inl hend
      · right
        apply hstops.awaits hlater
        rw [hcount, ← hlater]
        omega

theorem sync_cases (hsized : ∀ line ∈ source.lines, 0 < line.size) (hbatch : 0 < batch)
    (hindexed : IndexedTo sqlite source count db) :
    (sync sqlite batch source db = none ∧ ¬ Sound sqlite source.lines) ∨
    ∃ later next status, sync sqlite batch source db = some (next, status) ∧
      Advanced sqlite source count later next status := by
  cases hprogress : db.progress with
  | none =>
      have hcount := hindexed.unstarted hprogress
      subst hcount
      have hfrom := syncFrom_cases hsized hbatch hindexed 0
      rw [show source.prefixSize 0 = 0 from rfl] at hfrom
      simpa only [sync, hprogress] using hfrom
  | some progress =>
      obtain ⟨hdevice, hinode, hmtime, hposition⟩ := hindexed.started progress hprogress
      have hsize := prefixSize_le_size source hindexed.within
      have hknown : replaced source progress = false := by
        simp [replaced, hdevice, hinode, hposition, hmtime, hsize]
      by_cases hend : progress.position = source.size
      · have hlast : count = source.lines.length := by
          by_contra hne
          have hwithin := hindexed.within
          have hless := prefixSize_lt hsized (by omega : count < source.lines.length) le_rfl
          rw [hposition, size_eq] at hend
          omega
        refine .inr ⟨count, db, ⟨progress.position, source.size, progress.skipped, false⟩, ?_,
          hindexed, le_rfl, fun hmore => ?_, hposition, rfl, fun _ => hlast, fun _ => .inl hend⟩
        · simp [sync, hprogress, hknown, hend]
        · omega
      · have hfrom := syncFrom_cases hsized hbatch hindexed progress.skipped
        rw [← hposition] at hfrom
        simpa only [sync, hprogress, hknown, Bool.false_eq_true, if_false, if_neg hend] using hfrom

/-- Indexing a file from nothing, one `_sync` after the other. -/
def syncs (sqlite : Sqlite) (batch : ℕ) (source : Source) : ℕ → Option (Database × Status)
  | 0 => sync sqlite batch source {}
  | count + 1 => (syncs sqlite batch source count).bind fun indexed =>
      sync sqlite batch source indexed.1

theorem syncs_cases (hsized : ∀ line ∈ source.lines, 0 < line.size) (hbatch : 0 < batch)
    (count : ℕ) :
    (syncs sqlite batch source count = none ∧ ¬ Sound sqlite source.lines) ∨
    ∃ earlier later next status, syncs sqlite batch source count = some (next, status) ∧
      Advanced sqlite source earlier later next status ∧
      (count ≤ earlier ∨ earlier = source.lines.length) := by
  induction count with
  | zero =>
      rcases sync_cases hsized hbatch indexedTo_empty with
        hnone | ⟨later, next, status, hsync, hadvanced⟩
      · exact .inl hnone
      · exact .inr ⟨0, later, next, status, hsync, hadvanced, .inl le_rfl⟩
  | succ count ih =>
      rcases ih with ⟨hnone, hunsound⟩ | ⟨earlier, middle, db, before, hsyncs, hbefore, hreached⟩
      · exact .inl ⟨by rw [syncs, hnone, Option.bind_none], hunsound⟩
      · rcases sync_cases hsized hbatch hbefore.indexed with
          ⟨hnone, hunsound⟩ | ⟨later, next, status, hsync, hadvanced⟩
        · exact .inl ⟨by rw [syncs, hsyncs, Option.bind_some, hnone], hunsound⟩
        · refine .inr ⟨middle, later, next, status, ?_, hadvanced, ?_⟩
          · rw [syncs, hsyncs, Option.bind_some, hsync]
          · have honward := hbefore.onward
            have hwithin := hbefore.indexed.within
            by_cases hmore : earlier < source.lines.length
            · have hgrown := hbefore.progress hmore
              omega
            · omega

/-- A sound ledger is indexed to its last line end. -/
theorem exists_syncs_caughtUp (hsized : ∀ line ∈ source.lines, 0 < line.size) (hbatch : 0 < batch)
    (hsound : Sound sqlite source.lines) :
    ∃ count db status, syncs sqlite batch source count = some (db, status) ∧ status.caughtUp ∧
      IndexedTo sqlite source source.lines.length db := by
  rcases syncs_cases hsized hbatch source.lines.length with
    ⟨-, hunsound⟩ | ⟨earlier, later, next, status, hsyncs, hadvanced, hreached⟩
  · exact absurd hsound hunsound
  · have hlast : earlier = source.lines.length := by
      have honward := hadvanced.onward
      have hwithin := hadvanced.indexed.within
      omega
    have hcaught := hadvanced.awaits hlast
    have hend := hadvanced.ended_of_caughtUp hsized hcaught
    exact ⟨_, next, status, hsyncs, hcaught, hend ▸ hadvanced.indexed⟩

/-- Only a sound ledger is. -/
theorem indexedTo_of_caughtUp (hsized : ∀ line ∈ source.lines, 0 < line.size) (hbatch : 0 < batch)
    {status : Status} (hsyncs : syncs sqlite batch source count = some (db, status))
    (hcaught : status.caughtUp) :
    Sound sqlite source.lines ∧ IndexedTo sqlite source source.lines.length db := by
  rcases syncs_cases hsized hbatch count with
    ⟨hnone, -⟩ | ⟨earlier, later, next, known, hsome, hadvanced, -⟩
  · rw [hnone] at hsyncs
    cases hsyncs
  · rw [hsyncs] at hsome
    cases hsome
    have hend := hadvanced.ended_of_caughtUp hsized hcaught
    have hindexed := hadvanced.indexed
    rw [hend] at hindexed
    have hsound := hindexed.sound
    rw [take_length] at hsound
    exact ⟨hsound, hindexed⟩

end ReuleauxCoder.History
