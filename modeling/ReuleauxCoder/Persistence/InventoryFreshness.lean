import ReuleauxCoder.Library.JsonRoundTrip
import ReuleauxCoder.Persistence.Inventory

/-!
# When the inventory projection is fresh

The dirty mark is one file for all stores, so the store that finishes its update
removes the mark of a store that has not.  The projection then answers without
the other store's session.  As long as no mark is cleared over an unfinished
update, rebuilt rows are still those of the directory and an update finds the
database and the manifest it left, a projection that answers holds the rows of
the directory, and every query lists what a full scan lists.
-/

namespace ReuleauxCoder.Inventory

open PyText PyJson Transition
open List hiding lookup

variable {Store : Type*}

/-! ## Rows by session -/

def Entry.row (timestamp : Text → ℚ) (id : Text) (entry : Entry) :
    Option SessionProjectionRow :=
  match entry.directory with
  | some (.saved file) => some (file.row timestamp id .manifest)
  | some .unreadable => none
  | some .reserved | none => entry.legacy.map fun file => file.row timestamp id .legacy

/-- The row that a scan gives a session. -/
def rowOf (timestamp : Text → ℚ) (directory : Directory) (id : Text) :
    Option SessionProjectionRow :=
  (lookup id directory).bind (Entry.row timestamp id)

def SessionProjectionRow.id (row : SessionProjectionRow) : Text :=
  row.metadata.id

variable {id : Text} {row : SessionProjectionRow} {directory : Directory}

theorem Entry.row_eq_some_iff {timestamp : Text → ℚ} {entry : Entry} :
    entry.row timestamp id = some row ↔
      entry.manifestRow timestamp id = some row ∨ entry.legacyRow timestamp id = some row := by
  rw [Entry.row, Entry.manifestRow, Entry.legacyRow]
  cases entry.directory with
  | none => simp
  | some directory => cases directory <;> simp

theorem Entry.id_of_row_eq_some {timestamp : Text → ℚ} {entry : Entry}
    (hrow : entry.row timestamp id = some row) : row.metadata.id = id := by
  rw [Entry.row] at hrow
  split at hrow
  · cases hrow
    rfl
  · cases hrow
  · obtain ⟨file, -, rfl⟩ := Option.map_eq_some_iff.mp hrow
    rfl
  · obtain ⟨file, -, rfl⟩ := Option.map_eq_some_iff.mp hrow
    rfl

theorem id_of_rowOf_eq_some {timestamp : Text → ℚ}
    (hrow : rowOf timestamp directory id = some row) : row.metadata.id = id := by
  obtain ⟨entry, -, hentry⟩ := Option.bind_eq_some_iff.mp hrow
  exact Entry.id_of_row_eq_some hentry

theorem mem_scanRows {timestamp : Text → ℚ} (hnodup : (directory.map Prod.fst).Nodup) :
    row ∈ scanRows timestamp directory ↔
      rowOf timestamp directory row.metadata.id = some row := by
  have hentries : row ∈ scanRows timestamp directory ↔
      ∃ entry ∈ directory, entry.2.row timestamp entry.1 = some row := by
    simp only [scanRows, mem_append, mem_filterMap, Entry.row_eq_some_iff,
      and_or_left, exists_or]
  rw [hentries, rowOf, Option.bind_eq_some_iff]
  constructor
  · rintro ⟨⟨id, entry⟩, hentry, hrow⟩
    have hid := Entry.id_of_row_eq_some hrow
    simp only at hid hrow
    rw [hid]
    exact ⟨entry, lookup_eq_some_of_mem hnodup hentry, hrow⟩
  · rintro ⟨entry, hlookup, hrow⟩
    exact ⟨(row.metadata.id, entry), mem_of_lookup_eq_some hlookup, hrow⟩

/-- A scan lists a session once. -/
theorem nodup_scanRows {timestamp : Text → ℚ} (hnodup : (directory.map Prod.fst).Nodup) :
    ((scanRows timestamp directory).map SessionProjectionRow.id).Nodup := by
  rw [scanRows, map_append, nodup_append]
  refine ⟨?_, ?_, ?_⟩
  · refine List.Nodup.sublist ?_ hnodup
    apply Listing.map_filterMap_sublist
    intro entry row hrow
    exact Entry.id_of_row_eq_some (Entry.row_eq_some_iff.mpr (Or.inl hrow))
  · refine List.Nodup.sublist ?_ hnodup
    apply Listing.map_filterMap_sublist
    intro entry row hrow
    exact Entry.id_of_row_eq_some (Entry.row_eq_some_iff.mpr (Or.inr hrow))
  · intro left hleft right hright heq
    obtain ⟨manifestRow, hmanifest, rfl⟩ := mem_map.mp hleft
    obtain ⟨legacyRow, hlegacy, rfl⟩ := mem_map.mp hright
    obtain ⟨⟨id, entry⟩, hentry, hmanifestRow⟩ := mem_filterMap.mp hmanifest
    obtain ⟨⟨otherId, other⟩, hother, hlegacyRow⟩ := mem_filterMap.mp hlegacy
    have hid : manifestRow.metadata.id = id :=
      Entry.id_of_row_eq_some (Entry.row_eq_some_iff.mpr (Or.inl hmanifestRow))
    have hotherId : legacyRow.metadata.id = otherId :=
      Entry.id_of_row_eq_some (Entry.row_eq_some_iff.mpr (Or.inr hlegacyRow))
    have hsame : id = otherId := hid.symm.trans (heq.trans hotherId)
    subst hsame
    have hlookup := lookup_eq_some_of_mem hnodup hentry
    rw [lookup_eq_some_of_mem hnodup hother, Option.some.injEq] at hlookup
    subst hlookup
    cases hdirectory : other.directory with
    | none => simp [Entry.manifestRow, hdirectory] at hmanifestRow
    | some directory =>
        cases directory with
        | reserved => simp [Entry.manifestRow, hdirectory] at hmanifestRow
        | unreadable => simp [Entry.manifestRow, hdirectory] at hmanifestRow
        | saved manifest => simp [Entry.legacyRow, hdirectory] at hlegacyRow

theorem rowOf_eq_some_iff {timestamp : Text → ℚ} (hnodup : (directory.map Prod.fst).Nodup) :
    rowOf timestamp directory id = some row ↔
      row ∈ scanRows timestamp directory ∧ row.id = id := by
  rw [mem_scanRows hnodup]
  constructor
  · intro hrow
    have hid := id_of_rowOf_eq_some hrow
    exact ⟨hid ▸ hrow, hid⟩
  · rintro ⟨hrow, rfl⟩
    exact hrow

theorem rowOf_store_of_ne {timestamp : Text → ℚ} {other : Text} (hne : other ≠ id) (entry : Entry) :
    rowOf timestamp (store id entry directory) other = rowOf timestamp directory other := by
  rw [rowOf, rowOf, lookup_store_of_ne hne]

/-! ## The table of the database -/

/-- The table that the rows of a rebuild make. -/
theorem lookup_foldl_upsertRow {rows : List SessionProjectionRow}
    (hnodup : (rows.map SessionProjectionRow.id).Nodup) :
    lookup id (rows.foldl upsertRow []) = some row ↔ row ∈ rows ∧ row.id = id := by
  induction rows using List.reverseRecOn with
  | nil => simp
  | append_singleton rows last ih =>
      rw [map_append, nodup_append] at hnodup
      obtain ⟨hrows, -, hdisjoint⟩ := hnodup
      rw [foldl_append, foldl_cons, foldl_nil, upsertRow]
      by_cases hid : id = last.metadata.id
      · subst hid
        rw [lookup_store_self, Option.some.injEq, mem_append, mem_singleton]
        constructor
        · rintro rfl
          exact ⟨Or.inr rfl, rfl⟩
        · rintro ⟨hrow | rfl, hname⟩
          · exact absurd hname (hdisjoint _ (mem_map_of_mem hrow) _
              (mem_singleton.mpr rfl))
          · rfl
      · rw [lookup_store_of_ne hid, ih hrows, mem_append, mem_singleton]
        constructor
        · rintro ⟨hrow, hname⟩
          exact ⟨Or.inl hrow, hname⟩
        · rintro ⟨hrow | rfl, hname⟩
          · exact ⟨hrow, hname⟩
          · exact absurd hname.symm hid

variable {table : List (Text × SessionProjectionRow)}

theorem nodup_foldl_upsertRow (rows : List SessionProjectionRow)
    (hnodup : (table.map Prod.fst).Nodup) : ((rows.foldl upsertRow table).map Prod.fst).Nodup := by
  induction rows generalizing table with
  | nil => exact hnodup
  | cons row rest ih => exact ih (nodup_keys_store _ _ hnodup)

/-- A table that agrees with the directory on every session holds the scan's rows. -/
theorem perm_scanRows {timestamp : Text → ℚ} (hdirectory : (directory.map Prod.fst).Nodup)
    (htable : (table.map Prod.fst).Nodup)
    (hagrees : ∀ id, lookup id table = rowOf timestamp directory id) :
    (table.map Prod.snd).Perm (scanRows timestamp directory) := by
  have hids : (table.map Prod.snd).map SessionProjectionRow.id = table.map Prod.fst := by
    rw [map_map]
    apply map_congr_left
    intro field hfield
    have hlookup := lookup_eq_some_of_mem htable hfield
    rw [hagrees] at hlookup
    exact id_of_rowOf_eq_some hlookup
  have hnodup : (table.map Prod.snd).Nodup := by
    apply List.Nodup.of_map SessionProjectionRow.id
    rw [hids]
    exact htable
  rw [perm_ext_iff_of_nodup hnodup (List.Nodup.of_map _ (nodup_scanRows hdirectory))]
  intro row
  rw [mem_scanRows hdirectory, ← hagrees, mem_map]
  constructor
  · rintro ⟨⟨id, other⟩, hfield, rfl⟩
    have hlookup := lookup_eq_some_of_mem htable hfield
    have hid : other.metadata.id = id := by
      rw [hagrees] at hlookup
      exact id_of_rowOf_eq_some hlookup
    rw [hid]
    exact hlookup
  · intro hlookup
    exact ⟨(row.metadata.id, row), mem_of_lookup_eq_some hlookup, rfl⟩

theorem rank_injOn {timestamp : Text → ℚ} (hdirectory : (directory.map Prod.fst).Nodup) :
    Set.InjOn SessionProjectionRow.rank {row | row ∈ scanRows timestamp directory} := by
  intro left hleft right hright hrank
  apply inj_on_of_nodup_map (nodup_scanRows hdirectory) hleft hright
  have hinner := congrArg (fun rank => (ofLex (ofLex rank).2).2) hrank
  exact hinner

theorem listing_eq_fullScan {timestamp : Text → ℚ} (hdirectory : (directory.map Prod.fst).Nodup)
    (htable : (table.map Prod.fst).Nodup)
    (hagrees : ∀ id, lookup id table = rowOf timestamp directory id) (fingerprint : Option Text)
    (limit : ℕ) :
    (Listing.descending SessionProjectionRow.rank
        ((table.map Prod.snd).filter (hasFingerprint fingerprint))).take limit =
      fullScan timestamp directory fingerprint limit := by
  have hperm := (perm_scanRows hdirectory htable hagrees).filter (hasFingerprint fingerprint)
  rw [fullScan, ← Listing.descending_eq_of_perm _ _ hperm.symm]
  intro left hleft right hright
  exact rank_injOn hdirectory (mem_filter.mp hleft).1 (mem_filter.mp hright).1

/-! ## Orderly steps -/

def Phase.IsUpdating (phase : Phase) : Prop :=
  ∃ id ready written, phase = .updating id ready written

@[simp]
theorem Phase.not_isUpdating_idle : ¬ Phase.idle.IsUpdating := by
  rintro ⟨id, ready, written, heq⟩
  cases heq

@[simp]
theorem Phase.not_isUpdating_scanned (rows : List SessionProjectionRow) (fails : Bool) :
    ¬ (Phase.scanned rows fails).IsUpdating := by
  rintro ⟨id, ready, written, heq⟩
  cases heq

@[simp]
theorem Phase.not_isUpdating_clearing : ¬ Phase.clearing.IsUpdating := by
  rintro ⟨id, ready, written, heq⟩
  cases heq

/-- An update in this phase set the dirty mark, and the mark is still there. -/
def Phase.Marked (dirty : Bool) (phase : Phase) : Prop :=
  ∀ id ready written, phase = .updating id ready written → ready = true ∧ dirty = true

/-- The step does not hide an unfinished update: a mark is cleared when no
update is in flight or was broken off, a rebuild writes rows that are still
current while every update in flight is marked, and an update finds the database
and the manifest it left. -/
def Orderly (timestamp : Text → ℚ) (world : World Store) : Action Store → Prop
  | .clearDirty writer =>
      world.phase writer = .clearing →
        world.brokenOff = false ∧ ∀ store, ¬ (world.phase store).IsUpdating
  | .replace writer _ =>
      ∀ rows, world.phase writer = .scanned rows false →
        rows = scanRows timestamp world.directory ∧
          ∀ store, (world.phase store).Marked world.dirty
  | .upsert writer =>
      ∀ id file, world.phase writer = .updating id true (some file) →
        world.database ≠ none ∧
          (entryOf world.directory id).directory = some (.saved file)
  | _ => True

instance (phase : Phase) : Decidable phase.IsUpdating :=
  match phase with
  | .updating id ready written => isTrue ⟨id, ready, written, rfl⟩
  | .idle => isFalse Phase.not_isUpdating_idle
  | .scanned rows fails => isFalse (Phase.not_isUpdating_scanned rows fails)
  | .clearing => isFalse Phase.not_isUpdating_clearing

instance (dirty : Bool) (phase : Phase) : Decidable (phase.Marked dirty) :=
  match phase with
  | .updating _ ready _ =>
      decidable_of_iff (ready = true ∧ dirty = true) (by simp [Phase.Marked])
  | .idle => isTrue (by simp [Phase.Marked])
  | .scanned _ _ => isTrue (by simp [Phase.Marked])
  | .clearing => isTrue (by simp [Phase.Marked])

instance [Fintype Store] (timestamp : Text → ℚ) (world : World Store) (action : Action Store) :
    Decidable (Orderly timestamp world action) :=
  match action with
  | .clearDirty writer => inferInstanceAs (Decidable (world.phase writer = .clearing →
      world.brokenOff = false ∧ ∀ store, ¬ (world.phase store).IsUpdating))
  | .replace writer _ =>
      match hphase : world.phase writer with
      | .scanned rows false => decidable_of_iff (rows = scanRows timestamp world.directory ∧
          ∀ store, (world.phase store).Marked world.dirty) (by simp [Orderly, hphase])
      | .scanned _ true | .idle | .updating _ _ _ | .clearing =>
          isTrue (by simp [Orderly, hphase])
  | .upsert writer =>
      match hphase : world.phase writer with
      | .updating id true (some file) => decidable_of_iff (world.database ≠ none ∧
          (entryOf world.directory id).directory = some (.saved file))
            (by simp [Orderly, hphase])
      | .updating _ false _ | .updating _ true none | .idle | .scanned _ _ | .clearing =>
          isTrue (by simp [Orderly, hphase])
  | .markDirty _ _ | .makeDirectory _ _ | .fillDirectory _ | .cacheImage _ _
  | .writeManifest _ _ | .scan _ | .crash _ =>
      isTrue trivial

/-- The session is in a marked update, or one was broken off. -/
def Unsettled (world : World Store) (id : Text) : Prop :=
  world.brokenOff = true ∨ ∃ store written, world.phase store = .updating id true written

/-- A database without a dirty mark holds the rows of the directory. -/
structure Sound (timestamp : Text → ℚ) (world : World Store) : Prop where
  directory : (world.directory.map Prod.fst).Nodup
  table : ∀ database, world.database = some database →
    (database.rows.map Prod.fst).Nodup ∧ database.ready = true
  marked : world.database ≠ none → ∀ store, (world.phase store).Marked world.dirty
  broken : world.database ≠ none → world.brokenOff = true → world.dirty = true
  settled : ∀ database, world.database = some database → ∀ id,
    lookup id database.rows = rowOf timestamp world.directory id ∨ Unsettled world id

theorem sound_of_no_database {timestamp : Text → ℚ} {world : World Store}
    (hdirectory : (world.directory.map Prod.fst).Nodup) (hnone : world.database = none) :
    Sound timestamp world where
  directory := hdirectory
  table := by simp [hnone]
  marked := by simp [hnone]
  broken := by simp [hnone]
  settled := by simp [hnone]

section Steps

variable [DecidableEq Store] {timestamp : Text → ℚ} {world : World Store}

theorem phase_setPhase (world : World Store) (writer store : Store) (phase : Phase) :
    (setPhase world writer phase).phase store =
      if store = writer then phase else world.phase store := by
  simp [setPhase, Function.update_apply]

variable {phase : Phase} {writer : Store}

/-- A phase that is no update leaves the marks of the other stores. -/
theorem marked_setPhase {dirty : Bool} (hmarked : ∀ store, (world.phase store).Marked dirty)
    (hphase : phase.Marked dirty) (store : Store) :
    ((setPhase world writer phase).phase store).Marked dirty := by
  rw [phase_setPhase]
  split
  · exact hphase
  · exact hmarked store

theorem marked_of_not_updating {dirty : Bool} (hphase : ¬ phase.IsUpdating) :
    phase.Marked dirty := by
  intro id ready written heq
  exact absurd ⟨id, ready, written, heq⟩ hphase

/-- A store outside an update may go to any phase. -/
theorem unsettled_setPhase (phase : Phase)
    (hidle : ∀ ready written, world.phase writer ≠ .updating id ready written)
    (hunsettled : Unsettled world id) : Unsettled (setPhase world writer phase) id := by
  rcases hunsettled with hbroken | ⟨store, written, hstore⟩
  · exact Or.inl hbroken
  · refine Or.inr ⟨store, written, ?_⟩
    have hne : store ≠ writer := by
      rintro rfl
      exact hidle true written hstore
    rw [phase_setPhase, if_neg hne]
    exact hstore

/-- A store that is in no update changes its phase to another that is none. -/
theorem sound_setPhase (hsound : Sound timestamp world)
    (hbefore : ¬ (world.phase writer).IsUpdating) (hafter : ¬ phase.IsUpdating) :
    Sound timestamp (setPhase world writer phase) where
  directory := hsound.directory
  table := hsound.table
  marked := fun hdatabase =>
    marked_setPhase (hsound.marked hdatabase) (marked_of_not_updating hafter)
  broken := hsound.broken
  settled := fun database hdatabase id =>
    (hsound.settled database hdatabase id).imp_right
      (unsettled_setPhase phase fun ready written heq => hbefore ⟨id, ready, written, heq⟩)

theorem sound_markDirty (hsound : Sound timestamp world) (writer : Store) (id : Text) :
    Sound timestamp (markDirty world writer id) := by
  rw [markDirty]
  cases hphase : world.phase writer with
  | idle =>
      have hbefore : ∀ other ready written,
          world.phase writer ≠ .updating other ready written := by
        intro other ready written heq
        rw [hphase] at heq
        cases heq
      simp only
      by_cases hready : world.database.any Database.ready = true
      · rw [if_pos hready]
        have hsome : world.database ≠ none := by
          rintro hnone
          simp [hnone] at hready
        exact {
          directory := hsound.directory
          table := hsound.table
          marked := by
            intro _ store other ready written hstore
            have hstore' : (setPhase world writer (.updating id true none)).phase store =
                .updating other ready written := hstore
            rw [phase_setPhase] at hstore'
            split at hstore'
            · cases hstore'
              exact ⟨rfl, rfl⟩
            · exact ⟨(hsound.marked hsome store other ready written hstore').1, rfl⟩
          broken := fun _ _ => rfl
          settled := fun other hother name =>
            (hsound.settled other hother name).imp_right fun hunsettled =>
              unsettled_setPhase (.updating id true none) (hbefore name) hunsettled }
      · rw [if_neg hready]
        rcases Option.eq_none_or_eq_some world.database with hnone | ⟨database, hdatabase⟩
        · exact sound_of_no_database hsound.directory hnone
        · exact absurd (by simp [hdatabase, (hsound.table database hdatabase).2]) hready
  | updating other ready written => exact hsound
  | scanned rows fails => exact hsound
  | clearing => exact hsound

/-- Inside an update, a store may write the files of its session. -/
theorem sound_store (hsound : Sound timestamp world) {ready : Bool} {written : Option SessionFile}
    (hphase : world.phase writer = .updating id ready written) (entry : Entry) (rootMtime : ℤ)
    (after : Option SessionFile) :
    Sound timestamp (setPhase { world with
      directory := store id entry world.directory
      rootMtime } writer (.updating id ready after)) := by
  have hdirectory : ((store id entry world.directory).map Prod.fst).Nodup :=
    nodup_keys_store _ _ hsound.directory
  rcases Option.eq_none_or_eq_some world.database with hnone | ⟨database, hdatabase⟩
  · exact sound_of_no_database hdirectory hnone
  · have hsome : world.database ≠ none := by simp [hdatabase]
    obtain ⟨hready, hdirty⟩ := hsound.marked hsome writer id ready written hphase
    subst hready
    exact {
      directory := hdirectory
      table := hsound.table
      marked := by
        intro _ store other otherReady otherWritten hstore
        have hstore' : (setPhase world writer (.updating id true after)).phase store =
            .updating other otherReady otherWritten := hstore
        rw [phase_setPhase] at hstore'
        split at hstore'
        · cases hstore'
          exact ⟨rfl, hdirty⟩
        · exact hsound.marked hsome store other otherReady otherWritten hstore'
      broken := hsound.broken
      settled := by
        intro other hother name
        by_cases hname : name = id
        · right
          refine Or.inr ⟨writer, after, ?_⟩
          rw [phase_setPhase, if_pos rfl, hname]
        · rcases hsound.settled other hother name with hagrees | hbroken | hunsettled
          · left
            exact hagrees.trans (rowOf_store_of_ne hname entry).symm
          · exact Or.inr (Or.inl hbroken)
          · right
            obtain ⟨store, otherWritten, hstore⟩ := hunsettled
            refine Or.inr ⟨store, otherWritten, ?_⟩
            have hne : store ≠ writer := by
              rintro rfl
              rw [hphase] at hstore
              cases hstore
              exact hname rfl
            rw [phase_setPhase, if_neg hne]
            exact hstore }

/-- A directory that is made is reserved, and a scan skips it. -/
theorem rowOf_addDirectory (directory : Directory) (id : Text)
    (hmissing : (entryOf directory id).directory = none) (other : Text) :
    rowOf timestamp (store id { entryOf directory id with directory := some .reserved }
      directory) other = rowOf timestamp directory other := by
  by_cases hother : other = id
  · subst hother
    rw [rowOf, rowOf, lookup_store_self]
    rw [entryOf] at hmissing ⊢
    cases hentry : lookup other directory with
    | none => rfl
    | some entry =>
        rw [hentry, Option.getD_some] at hmissing
        simp [Entry.row, hmissing]
  · exact rowOf_store_of_ne hother _

omit [DecidableEq Store] in
theorem sound_addDirectory (hsound : Sound timestamp world) (id : Text) (rootMtime : ℤ) :
    Sound timestamp (addDirectory world id rootMtime) := by
  simp only [addDirectory]
  split
  · exact hsound
  · rename_i hmissing
    exact {
      directory := nodup_keys_store _ _ hsound.directory
      table := hsound.table
      marked := hsound.marked
      broken := hsound.broken
      settled := fun database hdatabase name =>
        (hsound.settled database hdatabase name).imp_left fun hagrees =>
          hagrees.trans (rowOf_addDirectory world.directory id hmissing name).symm }

omit [DecidableEq Store] in
theorem sound_makeDirectory (hsound : Sound timestamp world) (writer : Store) (rootMtime : ℤ) :
    Sound timestamp (makeDirectory world writer rootMtime) := by
  rw [makeDirectory]
  split
  · exact sound_addDirectory hsound _ rootMtime
  · exact hsound

theorem sound_fillDirectory (hsound : Sound timestamp world) (writer : Store) :
    Sound timestamp (fillDirectory world writer) := by
  rw [fillDirectory]
  cases hphase : world.phase writer with
  | updating id ready written =>
      simp only
      split
      · have hstored := sound_store hsound hphase
          { entryOf world.directory id with directory := some .unreadable } world.rootMtime written
        have hsame : Function.update world.phase writer (.updating id ready written) =
            world.phase := by
          rw [← hphase, Function.update_eq_self]
        simpa only [setPhase, hsame] using hstored
      · exact hsound
  | idle => exact hsound
  | scanned rows fails => exact hsound
  | clearing => exact hsound

theorem sound_writeManifest (hsound : Sound timestamp world) (writer : Store)
    (file : SessionFile) : Sound timestamp (writeManifest world writer file) := by
  rw [writeManifest]
  cases hphase : world.phase writer with
  | updating id ready written =>
      simp only
      split
      · exact hsound
      · exact hsound
      · exact sound_store hsound hphase
          { entryOf world.directory id with directory := some (.saved file) } world.rootMtime
          (some file)
  | idle => exact hsound
  | scanned rows fails => exact hsound
  | clearing => exact hsound

/-- The row of an orderly upsert is the row of the scan. -/
theorem sound_upsert (hsound : Sound timestamp world) {writer : Store}
    (horderly : Orderly timestamp world (.upsert writer)) :
    Sound timestamp (upsert timestamp world writer) := by
  rw [upsert]
  cases hphase : world.phase writer with
  | idle => exact hsound
  | scanned rows fails => exact hsound
  | clearing => exact hsound
  | updating id ready written =>
      cases written with
      | none => cases ready <;> exact hsound
      | some file =>
          cases ready with
          | false =>
              have hnone : world.database = none := by
                by_contra hsome
                have hready := (hsound.marked hsome writer id false (some file) hphase).1
                cases hready
              exact sound_of_no_database hsound.directory hnone
          | true =>
              obtain ⟨hsome, hmanifest⟩ := horderly id file hphase
              obtain ⟨database, hdatabase⟩ := Option.ne_none_iff_exists'.mp hsome
              have hdirty := (hsound.marked hsome writer id true (some file) hphase).2
              obtain ⟨htable, -⟩ := hsound.table database hdatabase
              have hrow : rowOf timestamp world.directory id =
                  some (file.row timestamp id .manifest) := by
                rw [entryOf] at hmanifest
                cases hentry : lookup id world.directory with
                | none => simp [hentry] at hmanifest
                | some entry =>
                    rw [hentry, Option.getD_some] at hmanifest
                    simp [rowOf, hentry, Entry.row, hmanifest]
              simp only [hmanifest, hdatabase, Option.map_some, Option.getD_some, upsertRow]
              exact {
                directory := hsound.directory
                table := by
                  intro other hother
                  cases hother
                  exact ⟨nodup_keys_store _ _ htable, rfl⟩
                marked := by
                  intro _ store other ready written hstore
                  have hstore' : (setPhase world writer .clearing).phase store =
                      .updating other ready written := hstore
                  rw [phase_setPhase] at hstore'
                  split at hstore'
                  · cases hstore'
                  · exact hsound.marked hsome store other ready written hstore'
                broken := fun _ _ => hdirty
                settled := by
                  intro other hother name
                  cases hother
                  by_cases hname : name = id
                  · left
                    subst hname
                    exact (lookup_store_self _ _ _).trans hrow.symm
                  · rcases hsound.settled database hdatabase name with hagrees | hbroken | hopen
                    · left
                      exact (lookup_store_of_ne hname _ _).trans hagrees
                    · exact Or.inr (Or.inl hbroken)
                    · right
                      obtain ⟨store, written, hstore⟩ := hopen
                      refine Or.inr ⟨store, written, ?_⟩
                      have hne : store ≠ writer := by
                        rintro rfl
                        rw [hphase] at hstore
                        cases hstore
                        exact hname rfl
                      rw [phase_setPhase, if_neg hne]
                      exact hstore }

theorem sound_scan (hsound : Sound timestamp world) (writer : Store) :
    Sound timestamp (scan timestamp world writer) := by
  rw [scan]
  cases hphase : world.phase writer with
  | idle =>
      apply sound_setPhase hsound
      · rw [hphase]
        simp
      · simp
  | updating id ready written => exact hsound
  | scanned rows fails => exact hsound
  | clearing => exact hsound

/-- An orderly rebuild makes the table of the scan. -/
theorem sound_replace (hsound : Sound timestamp world) {writer : Store} {rootMtime : ℤ}
    (horderly : Orderly timestamp world (.replace writer rootMtime)) :
    Sound timestamp (replace world writer rootMtime) := by
  rw [replace]
  cases hphase : world.phase writer with
  | idle => exact hsound
  | updating id ready written => exact hsound
  | clearing => exact hsound
  | scanned rows fails =>
      cases fails with
      | true => exact sound_of_no_database hsound.directory rfl
      | false =>
          obtain ⟨hrows, hmarked⟩ := horderly rows hphase
          have hnodup : (rows.map SessionProjectionRow.id).Nodup := by
            rw [hrows]
            exact nodup_scanRows hsound.directory
          exact {
            directory := hsound.directory
            table := by
              intro database hdatabase
              cases hdatabase
              exact ⟨nodup_foldl_upsertRow rows nodup_nil, rfl⟩
            marked := by
              intro _
              exact marked_setPhase hmarked (marked_of_not_updating (by simp))
            broken := by
              intro _ hbroken
              cases hbroken
            settled := by
              intro database hdatabase id
              cases hdatabase
              left
              apply Option.ext
              intro row
              rw [lookup_foldl_upsertRow hnodup, hrows,
                ← rowOf_eq_some_iff hsound.directory]
              exact Iff.rfl }

theorem sound_clearDirty (hsound : Sound timestamp world) {writer : Store}
    (horderly : Orderly timestamp world (.clearDirty writer)) :
    Sound timestamp (clearDirty world writer) := by
  rw [clearDirty]
  cases hphase : world.phase writer with
  | idle => exact hsound
  | updating id ready written => exact hsound
  | scanned rows fails => exact hsound
  | clearing =>
      obtain ⟨hbroken, hnone⟩ := horderly hphase
      have hmarked : ∀ store, (world.phase store).Marked false :=
        fun store => marked_of_not_updating (hnone store)
      exact {
        directory := hsound.directory
        table := hsound.table
        marked := by
          intro _
          exact marked_setPhase hmarked (marked_of_not_updating (by simp))
        broken := by
          intro _ hwas
          rw [show world.brokenOff = true from hwas] at hbroken
          cases hbroken
        settled := by
          intro database hdatabase id
          rcases hsound.settled database hdatabase id with hagrees | hwas | ⟨store, written, hopen⟩
          · exact Or.inl hagrees
          · rw [hwas] at hbroken
            cases hbroken
          · exact absurd ⟨id, true, written, hopen⟩ (hnone store) }

/-- A crash inside a marked update leaves the mark. -/
theorem sound_crash (hsound : Sound timestamp world) (writer : Store) :
    Sound timestamp (crash world writer) := by
  rw [crash]
  cases hphase : world.phase writer with
  | idle =>
      apply sound_setPhase hsound
      · rw [hphase]
        simp
      · simp
  | scanned rows fails =>
      apply sound_setPhase hsound
      · rw [hphase]
        simp
      · simp
  | clearing =>
      apply sound_setPhase hsound
      · rw [hphase]
        simp
      · simp
  | updating id ready written =>
      rcases Option.eq_none_or_eq_some world.database with hnone | ⟨database, hdatabase⟩
      · cases ready with
        | false => exact sound_of_no_database hsound.directory hnone
        | true => exact sound_of_no_database hsound.directory hnone
      · have hsome : world.database ≠ none := by simp [hdatabase]
        obtain ⟨hready, hdirty⟩ := hsound.marked hsome writer id ready written hphase
        subst hready
        exact {
          directory := hsound.directory
          table := hsound.table
          marked := by
            intro _
            exact marked_setPhase (hsound.marked hsome) (marked_of_not_updating (by simp))
          broken := fun _ _ => hdirty
          settled := fun _ _ _ => Or.inr (Or.inl rfl) }

/-- An orderly step keeps every row current, but for the sessions that are being updated, whose
mark is set. -/
theorem step_sound (hsound : Sound timestamp world) {action : Action Store}
    (horderly : Orderly timestamp world action) :
    Sound timestamp (step timestamp world action) := by
  cases action with
  | markDirty writer id => exact sound_markDirty hsound writer id
  | makeDirectory writer rootMtime => exact sound_makeDirectory hsound writer rootMtime
  | fillDirectory writer => exact sound_fillDirectory hsound writer
  | cacheImage id rootMtime => exact sound_addDirectory hsound id rootMtime
  | writeManifest writer file => exact sound_writeManifest hsound writer file
  | upsert writer => exact sound_upsert hsound horderly
  | scan writer => exact sound_scan hsound writer
  | replace writer rootMtime => exact sound_replace hsound horderly
  | clearDirty writer => exact sound_clearDirty hsound horderly
  | crash writer => exact sound_crash hsound writer

end Steps

/-! ## Queries -/

/-- In a sound world a projection that answers lists what a full scan lists. -/
theorem Sound.query_eq_fullScan {timestamp : Text → ℚ} {world : World Store}
    (hsound : Sound timestamp world) {fingerprint : Option Text} {limit : ℕ}
    {rows : List SessionProjectionRow} (hquery : query world fingerprint limit = some rows) :
    rows = fullScan timestamp world.directory fingerprint limit := by
  rw [query] at hquery
  split at hquery
  · cases hquery
  · rename_i database hdatabase
    have hsome : world.database ≠ none := by simp [hdatabase]
    split at hquery
    · cases hquery
    · rename_i husable
      simp only at hquery
      split at hquery
      · have hclean : world.dirty = false := by
          by_contra hdirty
          simp [Bool.eq_true_of_not_eq_false hdirty] at husable
        have hagrees : ∀ id, lookup id database.rows =
            rowOf timestamp world.directory id := by
          intro id
          rcases hsound.settled database hdatabase id with hagrees | hbroken | hopen
          · exact hagrees
          · have hdirty := hsound.broken hsome hbroken
            rw [hclean] at hdirty
            cases hdirty
          · obtain ⟨store, written, hphase⟩ := hopen
            have hdirty := (hsound.marked hsome store id true written hphase).2
            rw [hclean] at hdirty
            cases hdirty
        have hlisting := listing_eq_fullScan hsound.directory
          (hsound.table database hdatabase).1 hagrees fingerprint limit
        exact (Option.some.inj hquery).symm.trans hlisting
      · cases hquery

/-- No projection was built yet and no store is at work. -/
structure Fresh (world : World Store) : Prop where
  directory : (world.directory.map Prod.fst).Nodup
  database : world.database = none
  idle : ∀ store, world.phase store = .idle

/-- After any orderly run of several stores, broken off where it may be, a query that answers from
the tables answers what a full scan would. -/
theorem run_query_fresh [DecidableEq Store] (timestamp : Text → ℚ) (world : World Store)
    (actions : List (Action Store)) (hfresh : Fresh world)
    (horderly : Meets (step timestamp) (Orderly timestamp) world actions)
    (fingerprint : Option Text) (limit : ℕ) (rows : List SessionProjectionRow)
    (hquery : query (run timestamp world actions) fingerprint limit = some rows) :
    rows = fullScan timestamp (run timestamp world actions).directory fingerprint limit := by
  have hsound : Sound timestamp (run timestamp world actions) := by
    apply invariant_foldl (Sound timestamp) _ _ horderly
    · intro state action hstate haction
      exact step_sound hstate haction
    · exact sound_of_no_database hfresh.directory hfresh.database
  exact hsound.query_eq_fullScan hquery

/-! ## Two stores -/

/-- A session file that differs from others in its modification time. -/
def fileAt (mtime : ℤ) : SessionFile where
  model := lit "gpt"
  savedAt := lit "2025-01-01T00:00:00"
  preview := lit "hello"
  fingerprint := lit "local"
  mtime

def twoSessions : World Bool where
  directory := [(lit "a", { directory := some (.saved (fileAt 1)) }),
    (lit "b", { directory := some (.saved (fileAt 2)) })]

theorem fresh_twoSessions : Fresh twoSessions where
  directory := by decide
  database := rfl
  idle := fun _ => rfl

/-- One store rebuilds the projection and then updates a session. -/
def updateRun : List (Action Bool) :=
  [.scan false, .replace false 0, .clearDirty false, .markDirty false (lit "a"),
    .writeManifest false (fileAt 3), .upsert false, .clearDirty false]

theorem run_query_fresh_updateRun :
    ∃ rows, query (run (fun _ => 0) twoSessions updateRun) none 1 = some rows ∧
      rows.map SessionProjectionRow.id = [lit "a"] := by
  have hquery : (query (run (fun _ => 0) twoSessions updateRun) none 1).isSome = true := by
    decide +kernel
  obtain ⟨rows, hrows⟩ := Option.isSome_iff_exists.mp hquery
  refine ⟨rows, hrows, ?_⟩
  rw [run_query_fresh (fun _ => 0) twoSessions updateRun fresh_twoSessions (by decide +kernel)
    none 1 rows hrows]
  decide +kernel

/-- The second store marks its update, finishes it and removes the mark that the
first store still needs for its own. -/
def hiddenRun : List (Action Bool) :=
  [.scan false, .replace false 0, .clearDirty false, .markDirty false (lit "a"),
    .markDirty true (lit "b"), .writeManifest true (fileAt 3), .upsert true, .clearDirty true,
    .writeManifest false (fileAt 4)]

theorem query_hides_unfinished_update :
    ¬ ∀ (world : World Bool) (actions : List (Action Bool)) (fingerprint : Option Text)
        (limit : ℕ) (rows : List SessionProjectionRow), Fresh world →
      query (run (fun _ => 0) world actions) fingerprint limit = some rows →
      rows = fullScan (fun _ => 0) (run (fun _ => 0) world actions).directory fingerprint
        limit := by
  intro hagrees
  have hquery : (query (run (fun _ => 0) twoSessions hiddenRun) none 1).map
      (List.map SessionProjectionRow.id) = some [lit "b"] := by
    decide +kernel
  have hscan : (fullScan (fun _ => 0) (run (fun _ => 0) twoSessions hiddenRun).directory none
      1).map SessionProjectionRow.id = [lit "a"] := by
    decide +kernel
  obtain ⟨rows, hrows, hids⟩ := Option.map_eq_some_iff.mp hquery
  rw [hagrees twoSessions hiddenRun none 1 rows fresh_twoSessions hrows, hscan] at hids
  exact absurd hids (by decide)

end ReuleauxCoder.Inventory
