import ReuleauxCoder.Library.Json
import ReuleauxCoder.Library.Listing
import ReuleauxCoder.Library.Transition

/-!
# The session inventory

`SessionInventoryProjection` keeps the metadata of every session in a database
next to the session files, so that listing sessions need not read each manifest.
A store marks the projection dirty before it writes a session, upserts the
session's row afterwards and then clears the mark; a store that finds no usable
projection scans the directory and replaces all rows.  Several stores may work
on one directory, so the steps of their updates and rebuilds interleave, and a
store may crash between any two of them.

The environment chooses the modification times.  `timestamp` is the ranking time
that `_parse_saved_at` reads from a `saved_at` text.
-/

namespace ReuleauxCoder.Inventory

open PyText PyJson

structure SessionMetadata where
  id : Text
  model : Text
  savedAt : Text
  preview : Text
  fingerprint : Text
  deriving DecidableEq

structure Counters where
  promptTokens : ℕ := 0
  completionTokens : ℕ := 0
  eventCount : ℕ := 0
  requestCount : ℕ := 0
  checkpointCount : ℕ := 0
  deriving DecidableEq

inductive SourceKind where
  | manifest
  | legacy
  deriving DecidableEq

structure SessionProjectionRow where
  metadata : SessionMetadata
  rankMtime : ℤ
  rankSavedAt : ℚ
  sourceKind : SourceKind
  sourceMtime : ℤ
  counters : Counters
  deriving DecidableEq

/-- The key by which sessions are listed, newest first. -/
def SessionProjectionRow.rank (row : SessionProjectionRow) : ℤ ×ₗ ℚ ×ₗ Text :=
  toLex (row.rankMtime, toLex (row.rankSavedAt, row.metadata.id))

/-! ## The directory -/

/-- What a valid manifest or legacy file says of its session, and its
modification time. -/
structure SessionFile where
  model : Text
  savedAt : Text
  preview : Text
  fingerprint : Text
  counters : Counters := {}
  mtime : ℤ
  deriving DecidableEq

/-- `_is_reserved_session_directory` holds of a directory that is empty or has unsent
images only.  Any other may still have no valid manifest. -/
inductive SessionDirectory where
  | reserved
  | unreadable
  | saved (manifest : SessionFile)
  deriving DecidableEq

/-- The files of one session. -/
structure Entry where
  directory : Option SessionDirectory := none
  legacy : Option SessionFile := none
  deriving DecidableEq

def SessionFile.metadata (file : SessionFile) (id : Text) : SessionMetadata where
  id
  model := file.model
  savedAt := file.savedAt
  preview := file.preview
  fingerprint := file.fingerprint

/-- `_metadata_rank` and the row made from it. -/
def SessionFile.row (timestamp : Text → ℚ) (file : SessionFile) (id : Text)
    (sourceKind : SourceKind) : SessionProjectionRow where
  metadata := file.metadata id
  rankMtime := file.mtime
  rankSavedAt := timestamp file.savedAt
  sourceKind
  sourceMtime := file.mtime
  counters := file.counters

def Entry.manifestRow (timestamp : Text → ℚ) (id : Text) (entry : Entry) :
    Option SessionProjectionRow :=
  match entry.directory with
  | some (.saved file) => some (file.row timestamp id .manifest)
  | _ => none

/-- A directory hides the legacy file unless it is reserved. -/
def Entry.legacyRow (timestamp : Text → ℚ) (id : Text) (entry : Entry) :
    Option SessionProjectionRow :=
  match entry.directory with
  | some (.saved _) | some .unreadable => none
  | some .reserved | none => entry.legacy.map fun file => file.row timestamp id .legacy

abbrev Directory := List (Text × Entry)

/-- `_scan_inventory`: the rows of the directories, then those of the legacy
files that no directory hides. -/
def scanRows (timestamp : Text → ℚ) (directory : Directory) : List SessionProjectionRow :=
  (directory.filterMap fun entry => entry.2.manifestRow timestamp entry.1) ++
    directory.filterMap fun entry => entry.2.legacyRow timestamp entry.1

/-- A directory without a valid manifest is a failure of the scan, but a reserved one is
skipped. -/
def scanFails (directory : Directory) : Bool :=
  directory.any fun entry => entry.2.directory = some .unreadable

def hasFingerprint (fingerprint : Option Text) (row : SessionProjectionRow) : Bool :=
  fingerprint.all fun fingerprint => row.metadata.fingerprint = fingerprint

/-- What a full scan lists. -/
def fullScan (timestamp : Text → ℚ) (directory : Directory) (fingerprint : Option Text)
    (limit : ℕ) : List SessionProjectionRow :=
  (Listing.descending SessionProjectionRow.rank
    ((scanRows timestamp directory).filter (hasFingerprint fingerprint))).take limit

/-! ## The projection -/

structure Database where
  rows : List (Text × SessionProjectionRow)
  rootMtime : ℤ
  ready : Bool
  deriving DecidableEq

/-- A store is between updates, inside an update of one session, or inside a
rebuild.  `ready` is what `mark_dirty` returned and `written` the manifest that
the update wrote. -/
inductive Phase where
  | idle
  | updating (id : Text) (ready : Bool) (written : Option SessionFile)
  | scanned (rows : List SessionProjectionRow) (fails : Bool)
  | clearing
  deriving DecidableEq

/-- The shared directory and the phase of every store.  `brokenOff` remembers
that a store crashed inside a marked update and nothing was rebuilt since; no
step of the program reads it. -/
structure World (Store : Type*) where
  directory : Directory := []
  rootMtime : ℤ := 0
  database : Option Database := none
  dirty : Bool := false
  phase : Store → Phase := fun _ => .idle
  brokenOff : Bool := false

variable {Store : Type*}

def Entry.isCurrent (row : SessionProjectionRow) (entry : Entry) : Bool :=
  match row.sourceKind with
  | .manifest =>
      match entry.directory with
      | some (.saved file) => file.mtime = row.sourceMtime
      | _ => false
  | .legacy => entry.legacy.any fun file => file.mtime = row.sourceMtime

/-- `_source_is_current`. -/
def sourceIsCurrent (directory : Directory) (row : SessionProjectionRow) : Bool :=
  (lookup row.metadata.id directory).any (Entry.isCurrent row)

/-- The selected rows, and the newest one unless it is among them. -/
def validationRows (selected : List SessionProjectionRow)
    (newest : Option SessionProjectionRow) : List SessionProjectionRow :=
  match newest with
  | none => selected
  | some newest =>
      if selected.all fun row => row.metadata.id ≠ newest.metadata.id then selected ++ [newest]
      else selected

/-- `query`: `none` asks for a rescan. -/
def query (world : World Store) (fingerprint : Option Text) (limit : ℕ) :
    Option (List SessionProjectionRow) :=
  match world.database with
  | none => none
  | some database =>
      if world.dirty || !database.ready || database.rootMtime ≠ world.rootMtime then none
      else
        let rows := database.rows.map Prod.snd
        let selected := (Listing.descending SessionProjectionRow.rank
          (rows.filter (hasFingerprint fingerprint))).take limit
        let newest := (Listing.descending SessionProjectionRow.rank rows).head?
        if (validationRows selected newest).all (sourceIsCurrent world.directory) then
          some selected
        else none

def upsertRow (rows : List (Text × SessionProjectionRow)) (row : SessionProjectionRow) :
    List (Text × SessionProjectionRow) :=
  store row.metadata.id row rows

/-! ## Steps -/

inductive Action (Store : Type*) where
  | markDirty (writer : Store) (id : Text)
  | makeDirectory (writer : Store) (rootMtime : ℤ)
  | fillDirectory (writer : Store)
  | cacheImage (id : Text) (rootMtime : ℤ)
  | writeManifest (writer : Store) (file : SessionFile)
  | upsert (writer : Store)
  | scan (writer : Store)
  | replace (writer : Store) (rootMtime : ℤ)
  | clearDirty (writer : Store)
  | crash (writer : Store)

variable [DecidableEq Store]

def setPhase (world : World Store) (writer : Store) (phase : Phase) : World Store :=
  { world with phase := Function.update world.phase writer phase }

/-- `reset`: the derived files are removed. -/
def reset (world : World Store) : World Store :=
  { world with database := none, dirty := false }

def markDirty (world : World Store) (writer : Store) (id : Text) : World Store :=
  match world.phase writer with
  | .idle =>
      if world.database.any Database.ready then
        setPhase { world with dirty := true } writer (.updating id true none)
      else setPhase world writer (.updating id false none)
  | _ => world

def entryOf (directory : Directory) (id : Text) : Entry :=
  (lookup id directory).getD {}

/-- `mkdir` of a session's directory, where it is not there. -/
def addDirectory (world : World Store) (id : Text) (rootMtime : ℤ) : World Store :=
  let entry := entryOf world.directory id
  match entry.directory with
  | some _ => world
  | none =>
      { world with
        directory := store id { entry with directory := some .reserved } world.directory
        rootMtime }

/-- The directory of a new session appears empty. -/
def makeDirectory (world : World Store) (writer : Store) (rootMtime : ℤ) : World Store :=
  match world.phase writer with
  | .updating id _ _ => addDirectory world id rootMtime
  | _ => world

/-- The directories for requests and checkpoints come next. -/
def fillDirectory (world : World Store) (writer : Store) : World Store :=
  match world.phase writer with
  | .updating id _ _ =>
      let entry := entryOf world.directory id
      match entry.directory with
      | some .reserved =>
          { world with
            directory := store id { entry with directory := some .unreadable } world.directory }
      | _ => world
  | _ => world

/-- An image of a message that is not sent yet is kept in the directory of its session,
outside of any update. -/
def cacheImage (world : World Store) (id : Text) (rootMtime : ℤ) : World Store :=
  addDirectory world id rootMtime

/-- The manifest is the last file of `_write_session_directory`. -/
def writeManifest (world : World Store) (writer : Store) (file : SessionFile) : World Store :=
  match world.phase writer with
  | .updating id ready _ =>
      let entry := entryOf world.directory id
      match entry.directory with
      | none | some .reserved => world
      | some _ =>
          setPhase { world with
            directory := store id { entry with directory := some (.saved file) } world.directory
          } writer (.updating id ready (some file))
  | _ => world

/-- `_finish_projection_update`: the row joins the written metadata to the
modification time that the manifest has now. -/
def upsert (timestamp : Text → ℚ) (world : World Store) (writer : Store) : World Store :=
  match world.phase writer with
  | .updating _ false (some _) => setPhase world writer .idle
  | .updating id true (some file) =>
      match (entryOf world.directory id).directory with
      | some (.saved current) =>
          let row := { file with mtime := current.mtime }.row timestamp id .manifest
          let rows := (world.database.map Database.rows).getD []
          setPhase { world with
            database := some { rows := upsertRow rows row, rootMtime := world.rootMtime,
                               ready := true }
          } writer .clearing
      | _ => setPhase (reset world) writer .idle
  | _ => world

def scan (timestamp : Text → ℚ) (world : World Store) (writer : Store) : World Store :=
  match world.phase writer with
  | .idle => setPhase world writer
      (.scanned (scanRows timestamp world.directory) (scanFails world.directory))
  | _ => world

/-- `replace`, or `reset` after a scan with failures.  Creating the index
directory may change the root's modification time. -/
def replace (world : World Store) (writer : Store) (rootMtime : ℤ) : World Store :=
  match world.phase writer with
  | .scanned _ true => setPhase (reset world) writer .idle
  | .scanned rows false =>
      setPhase { world with
        database := some { rows := rows.foldl upsertRow [], rootMtime, ready := true }
        rootMtime
        brokenOff := false
      } writer .clearing
  | _ => world

def clearDirty (world : World Store) (writer : Store) : World Store :=
  match world.phase writer with
  | .clearing => setPhase { world with dirty := false } writer .idle
  | _ => world

def crash (world : World Store) (writer : Store) : World Store :=
  match world.phase writer with
  | .updating _ true _ => setPhase { world with brokenOff := true } writer .idle
  | _ => setPhase world writer .idle

def step (timestamp : Text → ℚ) (world : World Store) : Action Store → World Store
  | .markDirty writer id => markDirty world writer id
  | .makeDirectory writer rootMtime => makeDirectory world writer rootMtime
  | .fillDirectory writer => fillDirectory world writer
  | .cacheImage id rootMtime => cacheImage world id rootMtime
  | .writeManifest writer file => writeManifest world writer file
  | .upsert writer => upsert timestamp world writer
  | .scan writer => scan timestamp world writer
  | .replace writer rootMtime => replace world writer rootMtime
  | .clearDirty writer => clearDirty world writer
  | .crash writer => crash world writer

def run (timestamp : Text → ℚ) (world : World Store) (actions : List (Action Store)) :
    World Store :=
  actions.foldl (step timestamp) world

end ReuleauxCoder.Inventory
