import ReuleauxCoder.Library.Listing
import ReuleauxCoder.Workspace.PortableGlob

/-!
# Two ways to glob

The local workspace scans a directory tree for matches and skips directories that can have none;
the portable projection lists the whole tree and matches afterwards.  A tree is what the scans see
of it: entries in the order of `os.scandir`, and directories that cannot be scanned.
-/

namespace ReuleauxCoder.Workspace.Local

open PyText Gaps

/-! ## Directory trees -/

/-- A name of a directory entry. -/
structure Name where
  text : Text
  legal : text ≠ [] ∧ slash ∉ text
  deriving DecidableEq

/-- What `stat` says of an entry, besides that it is a directory. -/
structure Info where
  isFile : Bool
  size : ℕ
  mtime : ℚ
  mode : ℕ
  deriving DecidableEq

/-- An entry; `error` is the text of an `OSError` of `os.scandir`. -/
inductive Tree where
  | leaf (info : Info)
  | directory (info : Info) (children : Except Text (List (Name × Tree)))

abbrev Children := List (Name × Tree)

/-- What stands at a resolved path. -/
inductive Base where
  | missing
  | leaf (info : Info)
  | directory (children : Except Text Children)

/-- A resolved path, which is not empty. -/
structure Root where
  path : Text
  name : Text
  absolute : path ≠ []
  base : Base

def Tree.info : Tree → Info
  | .leaf info => info
  | .directory info _ => info

def Tree.isDir : Tree → Bool
  | .leaf _ => false
  | .directory _ _ => true

structure WorkspaceEntry where
  path : Text
  relativePath : Text
  name : Text
  isFile : Bool
  isDir : Bool
  size : ℕ
  mtime : ℚ
  mode : ℕ
  deriving DecidableEq

structure WorkspaceListResult where
  entries : List WorkspaceEntry
  truncated : Bool := false
  deriving DecidableEq

structure WorkspaceGlobResult where
  entries : List WorkspaceEntry
  matchCount : ℕ
  listingTruncated : Bool := false
  deriving DecidableEq

inductive ErrorCode where
  | notFound
  | notADirectory
  | invalidPath
  | ioError
  deriving DecidableEq

structure WorkspaceError where
  code : ErrorCode
  message : Text
  deriving DecidableEq

/-! ## Paths -/

/-- `os.path.join`. -/
def joinPath (directory name : Text) : Text :=
  if name.head? = some slash then name
  else if directory = [] ∨ directory.getLast? = some slash then directory ++ name
  else directory ++ slash :: name

/-- `str(path.relative_to(base))` of a path below the base. -/
def relativeTo (base path : Text) : Text :=
  if base.getLast? = some slash then path.drop base.length else path.drop (base.length + 1)

def entryOf (path relativePath : Text) (name : Name) (tree : Tree) : WorkspaceEntry where
  path
  relativePath
  name := name.text
  isFile := tree.info.isFile
  isDir := tree.isDir
  size := tree.info.size
  mtime := tree.info.mtime
  mode := tree.info.mode

/-- `sorted(iterator, key=lambda item: item.name.lower())`. -/
def sortedChildren (lower : Text → Text) (children : Children) : Children :=
  children.insertionSort fun left right => lower left.1.text ≤ lower right.1.text

def isHidden (name : Name) : Bool :=
  name.text.head? = some (ofChar '.')

/-! ## The whole list -/

structure ListPending where
  path : Text
  children : Except Text Children

/-- The entries of one directory: the directories to come, the entries so far, and whether the
limit is reached. -/
def listChildren (base : Text) (recursive includeHidden : Bool) (maxEntries : ℤ)
    (directory : Text) :
    Children → List ListPending → List WorkspaceEntry →
      List ListPending × List WorkspaceEntry × Bool
  | [], pending, entries => (pending, entries, false)
  | (name, tree) :: rest, pending, entries =>
      if !includeHidden && isHidden name then
        listChildren base recursive includeHidden maxEntries directory rest pending entries
      else
        let path := joinPath directory name.text
        let entries := entries ++ [entryOf path (relativeTo base path) name tree]
        if maxEntries ≤ entries.length then ([], entries, true)
        else
          let pending := match recursive, tree with
            | true, .directory _ children => ⟨path, children⟩ :: pending
            | _, _ => pending
          listChildren base recursive includeHidden maxEntries directory rest pending entries

/-- The loop of `list_entries`; `none` when the rounds are used up. -/
def listLoop (lower : Text → Text) (base : Text) (recursive includeHidden : Bool)
    (maxEntries : ℤ) :
    ℕ → List ListPending → List WorkspaceEntry → Option (Except Text WorkspaceListResult)
  | _, [], entries => some (.ok ⟨entries, false⟩)
  | 0, _ :: _, _ => none
  | rounds + 1, directory :: pending, entries =>
      match directory.children with
      | .error error => some (.error error)
      | .ok children =>
          match listChildren base recursive includeHidden maxEntries directory.path
            (sortedChildren lower children) pending entries with
          | (_, entries, true) => some (.ok ⟨entries, true⟩)
          | (pending, entries, false) =>
              listLoop lower base recursive includeHidden maxEntries rounds pending entries

/-- `list_entries`.  Every directory but the base has been counted when it is scanned, so there
are no more rounds than entries. -/
def listEntries (lower : Text → Text) (root : Root) (path : Text)
    (recursive includeHidden : Bool) (maxEntries : ℤ) :
    Option (Except WorkspaceError WorkspaceListResult) :=
  if maxEntries < 1 then
    some (.error ⟨.invalidPath, lit "max_entries must be positive"⟩)
  else
    match root.base with
    | .missing => some (.error ⟨.notFound, path ++ lit " not found"⟩)
    | .leaf info =>
        if info.isFile then
          some (.ok ⟨[⟨root.path, root.name, root.name, true, false, info.size, info.mtime,
            info.mode⟩], false⟩)
        else some (.error ⟨.notADirectory, path ++ lit " is not a directory"⟩)
    | .directory children =>
        (listLoop lower root.path recursive includeHidden maxEntries (maxEntries.toNat + 1)
          [⟨root.path, children⟩] []).map fun listed =>
            listed.mapError fun error =>
              ⟨.ioError, lit "failed to list " ++ path ++ lit ": " ++ error⟩

/-! ## The scan -/

structure ScanPending where
  path : Text
  below : Text
  children : Except Text Children

section Scan

variable {σ : Type} (includeHidden : Bool) (maxEntries : ℤ)
  (visit : Text → Text → Name → Tree → σ → σ) (descend : Text → Bool)

/-- The entries of one directory: whether the limit is reached, the directories to come, and the
number of entries so far. -/
def scanChildren (directory below : Text) :
    Children → List ScanPending → ℕ → σ → Bool × List ScanPending × ℕ × σ
  | [], pending, scanned, state => (false, pending, scanned, state)
  | (name, tree) :: rest, pending, scanned, state =>
      if !includeHidden && isHidden name then
        scanChildren directory below rest pending scanned state
      else
        let path := joinPath directory name.text
        let relativePath := if below = [] then name.text else joinPath below name.text
        let state := visit path relativePath name tree state
        if maxEntries ≤ scanned + 1 then (true, pending, scanned + 1, state)
        else
          let pending := match tree with
            | .directory _ children =>
                if descend relativePath then ⟨path, relativePath, children⟩ :: pending
                else pending
            | .leaf _ => pending
          scanChildren directory below rest pending (scanned + 1) state

/-- `_scan_entries`: whether the scan is truncated; `none` when the rounds are used up. -/
def scanLoop (lower : Text → Text) :
    ℕ → List ScanPending → ℕ → σ → Option (Except Text (Bool × σ))
  | _, [], _, state => some (.ok (false, state))
  | 0, _ :: _, _, _ => none
  | rounds + 1, directory :: pending, scanned, state =>
      match directory.children with
      | .error error => some (.error error)
      | .ok children =>
          match scanChildren includeHidden maxEntries visit descend directory.path directory.below
            (sortedChildren lower children) pending scanned state with
          | (true, _, _, state) => some (.ok (true, state))
          | (false, pending, scanned, state) => scanLoop lower rounds pending scanned state

end Scan

/-! ## Globs -/

/-- `hits[:limit]`. -/
def sliceTo {α : Type*} (limit : ℤ) (hits : List α) : List α :=
  if 0 ≤ limit then hits.take limit.toNat else hits.take (hits.length + limit).toNat

/-- `hits.sort(key=lambda entry: entry.mtime, reverse=True)` and what is made of it. -/
def globResult (maxMatches : ℤ) (truncated : Bool) (hits : List WorkspaceEntry) :
    WorkspaceGlobResult where
  entries := sliceTo maxMatches (Listing.descending WorkspaceEntry.mtime hits)
  matchCount := hits.length
  listingTruncated := truncated

/-- `collect` of `glob_paths`. -/
def collect (matcher : PortableGlobMatcher) (path relativePath : Text) (name : Name)
    (tree : Tree) (hits : List WorkspaceEntry) : List WorkspaceEntry :=
  if matcher.matchesPath relativePath then hits ++ [entryOf path relativePath name tree] else hits

/-- `glob_paths`. -/
def globPaths (lower : Text → Text) (fnmatch : Text → Text → Bool) (root : Root)
    (pattern path : Text) (maxEntries maxMatches : ℤ) :
    Option (Except WorkspaceError WorkspaceGlobResult) :=
  if maxEntries < 1 ∨ maxMatches < 1 then
    some (.error ⟨.invalidPath, lit "max_entries and max_matches must be positive"⟩)
  else
    match root.base with
    | .missing => some (.error ⟨.notFound, path ++ lit " not found"⟩)
    | .leaf _ => some (.error ⟨.notADirectory, path ++ lit " is not a directory"⟩)
    | .directory children =>
        let matcher := compilePortableGlob fnmatch pattern
        (scanLoop true maxEntries (collect matcher) matcher.canMatchDescendant lower
          (maxEntries.toNat + 1) [⟨root.path, [], children⟩] 0 []).map fun scanned =>
            (scanned.map fun hits => globResult maxMatches hits.1 hits.2).mapError fun error =>
              ⟨.ioError, lit "failed to scan " ++ root.path ++ lit ": " ++ error⟩

/-- `glob_paths_via_primitives`. -/
def globPathsViaPrimitives (lower : Text → Text) (fnmatch : Text → Text → Bool) (root : Root)
    (pattern path : Text) (maxEntries maxMatches : ℤ) :
    Option (Except WorkspaceError WorkspaceGlobResult) :=
  match root.base with
  | .missing => some (.error ⟨.notFound, path ++ lit " not found"⟩)
  | .leaf _ => some (.error ⟨.notADirectory, path ++ lit " is not a directory"⟩)
  | .directory _ =>
      (listEntries lower root path true true maxEntries).map fun listed =>
        listed.map fun listing =>
          globResult maxMatches listing.truncated (listing.entries.filter fun entry =>
            (compilePortableGlob fnmatch pattern).matchesPath entry.relativePath)

end ReuleauxCoder.Workspace.Local
