import ReuleauxCoder.Library.Transition
import ReuleauxCoder.Workspace.Patch

/-!
# Applying a patch

`apply_patch` reads every target twice, once for the preflight check and once to
prepare, and then writes the files one after the other.  Other writers of the same
files act between any two of its accesses.  The revision that a file had when it was
prepared reaches the write as `expected_revision`, which only the receipt looks at.
Rendered texts of results and diffs are left out.
-/

namespace ReuleauxCoder.Workspace

open PyText PyJson Check

variable {Path Bytes : Type}

/-! ## Revisions and receipts -/

structure Revision where
  present : Bool
  sha256 : Option Text
  sizeBytes : ℕ
  deriving DecidableEq

def Revision.sameContent (revision other : Revision) : Bool :=
  revision.present = other.present && revision.sha256 = other.sha256 &&
    revision.sizeBytes = other.sizeBytes

inductive Verification where
  | appliedVerified
  | failedUnchanged
  | diverged
  | unknown
  deriving DecidableEq

structure Receipt (Path : Type) where
  resolvedPath : Path
  before : Revision
  intendedAfterSha256 : Text
  intendedSizeBytes : ℕ
  observedAfter : Option Revision
  atomicReplace : Bool
  verification : Verification
  expectedBefore : Option Revision
  externalChangeBeforeWrite : Bool

inductive ErrorCode where
  | invalidPath
  | pathOutsideWorkspace
  | notAFile
  | revisionConflict
  | ioError
  deriving DecidableEq

structure WorkspaceError (Path : Type) where
  code : ErrorCode
  message : Text
  mutationReceipt : Option (Receipt Path) := none

/-- The platform below the workspace: how paths resolve, how `bytes` are decoded with
replacement and encoded strictly, and their digest. -/
structure Host (Path Bytes : Type) where
  resolve : Text → Except (WorkspaceError Path) Path
  pathText : Path → Text
  decode : Bytes → Text
  encode : Text → Option Bytes
  sha256 : Bytes → Text
  size : Bytes → ℕ
  repr : Text → Text

/-- An `OSError` of the platform. -/
structure Fault where
  isDirectory : Bool
  text : Text

def Host.revision (host : Host Path Bytes) : Option Bytes → Revision
  | none => { present := false, sha256 := none, sizeBytes := 0 }
  | some bytes =>
      { present := true, sha256 := some (host.sha256 bytes), sizeBytes := host.size bytes }

/-- What `snapshot_text` reads, or the error that it raises. -/
def snapshot (path : Text) (found : Option Bytes) :
    Option Fault → Except (WorkspaceError Path) (Option Bytes)
  | none => .ok found
  | some fault =>
      if fault.isDirectory then
        .error { code := .notAFile, message := path ++ lit " is not a file" }
      else
        .error
          { code := .ioError
            message := lit "failed to read " ++ path ++ lit ": " ++ fault.text }

/-! ## Preparation -/

/-- A `_PreparedFile`, with the patch file and the contents that it was made from,
which no step reads. -/
structure Prepared (Bytes : Type) where
  path : Text
  oldContent : Text
  newContent : Text
  expectedRevision : Revision
  file : PatchFile
  base : Option Bytes

/-- `str.lower` on hexadecimal digits. -/
def lowerHex (text : Text) : Text :=
  text.map fun c => if 0x41 ≤ c.val ∧ c.val ≤ 0x5A then c + 0x20 else c

def isHexDigit (c : CodePoint) : Bool :=
  (0x30 ≤ c.val && c.val ≤ 0x39) || (0x41 ≤ c.val && c.val ≤ 0x46) ||
    (0x61 ≤ c.val && c.val ≤ 0x66)

/-- The checks on `expected_revisions`. -/
def checkExpected (expected : List (Text × Text)) (files : List PatchFile) :
    Except PatchError Unit := do
  let unknown := (expected.map Prod.fst).filter fun path =>
    path ∉ files.map PatchFile.path
  require (unknown = []) (.unknownPaths (unknown.mergeSort fun left right => left ≤ right))
  forEach (fun value => require (value.length = 64 ∧ value.all isHexDigit) .badRevision)
    (expected.map Prod.snd)

/-- The expectation for an updated file. -/
def checkWanted (expected : List (Text × Text)) (path : Text) (revision : Revision) :
    Except PatchError Unit :=
  match lookup path expected with
  | none => .ok ()
  | some wanted =>
      require (revision.sha256 = some (lowerHex wanted))
        (.revisionMismatch path (lowerHex wanted) (revision.sha256.getD (lit "missing")))

/-- One round of the loop of `_prepare`, for the contents `found`. -/
def prepareFile (host : Host Path Bytes) (expected : List (Text × Text)) (file : PatchFile)
    (found : Option Bytes) : Except PatchError (Prepared Bytes) :=
  if file.add then do
    require ((host.revision found).present = false) (.targetExists file.path)
    return {
      path := file.path
      oldContent := []
      newContent := List.intercalate (lit "\n") ((file.hunks.head?.map Hunk.new).getD []) ++
        lit "\n"
      expectedRevision := { present := false, sha256 := none, sizeBytes := 0 }
      file
      base := found }
  else
    match found with
    | none => .error (.noTarget file.path)
    | some bytes => do
        checkWanted expected file.path (host.revision found)
        let content ← applyHunks (host.decode bytes) file.hunks file.path
        return {
          path := file.path
          oldContent := host.decode bytes
          newContent := content
          expectedRevision := host.revision found
          file
          base := found }

/-! ## The run of a patch -/

inductive Outcome (Path : Type) where
  | invalid (message : Text)
  | raised (message : Text)
  | stopped (applied : List Text) (failed : Text) (unattempted : List Text)
      (error : WorkspaceError Path)
  | applied (results : List (Text × Receipt Path))

/-- How far the patch has come.  The preflight check and the preparation are the same
loop; a write reads the file, replaces it and reads it again for the receipt. -/
inductive Phase (Path Bytes : Type) where
  | preparing (preflight : Bool) (prepared : List (Prepared Bytes)) (rest : List PatchFile)
  | writing (completed : List (Text × Receipt Path)) (item : Prepared Bytes)
      (rest : List (Prepared Bytes))
  | replacing (completed : List (Text × Receipt Path)) (item : Prepared Bytes)
      (rest : List (Prepared Bytes)) (target : Path) (before : Revision) (encoded : Bytes)
  | confirming (completed : List (Text × Receipt Path)) (item : Prepared Bytes)
      (rest : List (Prepared Bytes)) (target : Path) (before : Revision) (encoded : Bytes)
      (failure : Option Fault)
  | finished (outcome : Outcome Path)

/-- A write of a file; `item` is the prepared file that the patch wrote, or `none`
for another writer. -/
structure Write (Path Bytes : Type) where
  path : Path
  found : Option Bytes
  content : Option Bytes
  item : Option (Prepared Bytes)

/-- `history` lists all writes, in order; no step reads it. -/
structure State (Path Bytes : Type) where
  files : Path → Option Bytes
  phase : Phase Path Bytes
  history : List (Write Path Bytes) := []

/-- Another writer acts, or the patch makes its next access, which may fail. -/
inductive Action (Path Bytes : Type) where
  | external (path : Path) (content : Option Bytes)
  | proceed (fault : Option Fault)

/-- The base that `write_text_verified` requires of `_write_text_verified`. -/
def requiredBaseRevision : Option Revision := none

def mutationReceipt (host : Host Path Bytes) (item : Prepared Bytes) (target : Path)
    (before : Revision) (encoded : Bytes) (observed : Option Revision) (failed : Bool) :
    Receipt Path where
  resolvedPath := target
  before
  intendedAfterSha256 := host.sha256 encoded
  intendedSizeBytes := host.size encoded
  observedAfter := observed
  atomicReplace := !failed
  verification :=
    match observed with
    | none => .unknown
    | some observed =>
        if observed.sameContent (host.revision (some encoded)) then .appliedVerified
        else if failed && observed.sameContent before then .failedUnchanged
        else .diverged
  expectedBefore := some item.expectedRevision
  externalChangeBeforeWrite := !item.expectedRevision.sameContent before

/-- The report of a patch that stops at `item`. -/
def stop (completed : List (Text × Receipt Path)) (item : Prepared Bytes)
    (rest : List (Prepared Bytes)) (error : WorkspaceError Path) : Phase Path Bytes :=
  .finished (.stopped (completed.map Prod.fst) item.path (rest.map Prepared.path) error)

def nextWrite (completed : List (Text × Receipt Path)) :
    List (Prepared Bytes) → Phase Path Bytes
  | [] => .finished (.applied completed)
  | item :: rest => .writing completed item rest

/-- An exception of `_prepare`, which only the preflight check reports. -/
def prepareFailed (preflight : Bool) (message : Text) : Phase Path Bytes :=
  .finished (if preflight then .invalid message else .raised message)

/-- One round of `_prepare`. -/
def prepareNext (host : Host Path Bytes) (expected : List (Text × Text))
    (files : Path → Option Bytes) (fault : Option Fault) (preflight : Bool)
    (prepared : List (Prepared Bytes)) (file : PatchFile) (rest : List PatchFile) :
    Phase Path Bytes :=
  match host.resolve file.path >>= fun target => snapshot file.path (files target) fault with
  | .error error => prepareFailed preflight error.message
  | .ok found =>
      match prepareFile host expected file found with
      | .error error => prepareFailed preflight (error.message host.repr)
      | .ok item => .preparing preflight (prepared ++ [item]) rest

/-- `_write_text_verified` up to the replacement: the file is read, a required base
compared and the new contents encoded. -/
def beginWrite (host : Host Path Bytes) (files : Path → Option Bytes) (fault : Option Fault)
    (completed : List (Text × Receipt Path)) (item : Prepared Bytes)
    (rest : List (Prepared Bytes)) : Phase Path Bytes :=
  match host.resolve item.path with
  | .error error => stop completed item rest error
  | .ok target =>
      match snapshot (host.pathText target) (files target) fault with
      | .error error => stop completed item rest error
      | .ok found =>
          if requiredBaseRevision.any fun base => !(host.revision found).sameContent base then
            stop completed item rest
              { code := .revisionConflict
                message :=
                  item.path ++ lit " changed before the prepared edit could be committed" }
          else
            match host.encode item.newContent with
            | none => .finished (.raised (lit "UnicodeEncodeError"))
            | some encoded =>
                .replacing completed item rest target (host.revision found) encoded

/-- The receipt of a write, and what follows it. -/
def confirm (host : Host Path Bytes) (files : Path → Option Bytes) (fault : Option Fault)
    (completed : List (Text × Receipt Path)) (item : Prepared Bytes)
    (rest : List (Prepared Bytes)) (target : Path) (before : Revision) (encoded : Bytes)
    (failure : Option Fault) : Phase Path Bytes :=
  let observed := if fault.isSome then none else some (host.revision (files target))
  let receipt := mutationReceipt host item target before encoded observed failure.isSome
  match failure with
  | some failure =>
      stop completed item rest
        { code := .ioError
          message := lit "failed to write " ++ item.path ++ lit ": " ++ failure.text
          mutationReceipt := some receipt }
  | none => nextWrite (completed ++ [(item.path, receipt)]) rest

variable [DecidableEq Path]

/-- A write takes effect in one step. -/
def State.write (state : State Path Bytes) (path : Path) (content : Option Bytes)
    (item : Option (Prepared Bytes)) : State Path Bytes :=
  { state with
    files := Function.update state.files path content
    history := state.history ++ [{ path, found := state.files path, content, item }] }

/-- The next access of the patch. -/
def State.proceed (host : Host Path Bytes) (expected : List (Text × Text))
    (state : State Path Bytes) (fault : Option Fault) : State Path Bytes :=
  match state.phase with
  | .preparing preflight prepared (file :: rest) =>
      { state with
        phase := prepareNext host expected state.files fault preflight prepared file rest }
  | .preparing true prepared [] =>
      { state with phase := .preparing false [] (prepared.map Prepared.file) }
  | .preparing false prepared [] => { state with phase := nextWrite [] prepared }
  | .writing completed item rest =>
      { state with phase := beginWrite host state.files fault completed item rest }
  | .replacing completed item rest target before encoded =>
      match fault with
      | some fault =>
          { state with
            phase := .confirming completed item rest target before encoded (some fault) }
      | none =>
          { state.write target (some encoded) (some item) with
            phase := .confirming completed item rest target before encoded none }
  | .confirming completed item rest target before encoded failure =>
      { state with
        phase := confirm host state.files fault completed item rest target before encoded failure }
  | .finished _ => state

def State.step (host : Host Path Bytes) (expected : List (Text × Text))
    (state : State Path Bytes) : Action Path Bytes → State Path Bytes
  | .external path content => state.write path content none
  | .proceed fault => state.proceed host expected fault

/-- `_execute_local` up to its first access to a file. -/
def State.start (host : Host Path Bytes) (patch : Text) (expected : List (Text × Text))
    (files : Path → Option Bytes) : State Path Bytes where
  files
  phase :=
    match (do
      let files ← parsePatch patch
      checkExpected expected files
      return files) with
    | .error error => prepareFailed true (error.message host.repr)
    | .ok files => .preparing true [] files

end ReuleauxCoder.Workspace
