import ReuleauxCoder.Library.FileSystem
import ReuleauxCoder.Workspace.TextPage

/-!
# The peer's file operations

`Execute` confines the path of a request to the workspace root and then works on the path it
has confined.  Paths are those of a POSIX system.
-/

namespace ReuleauxCoder.Workspace.Files

open PyText FileTree FileTree.FileOp

/-! ## Paths as strings -/

/-- `unicode.IsSpace`. -/
def isUnicodeSpace (c : CodePoint) : Bool :=
  (9 ≤ c.val && c.val ≤ 13) || c.val == 32 || c.val == 0x85 || c.val == 0xA0 ||
    c.val == 0x1680 || (0x2000 ≤ c.val && c.val ≤ 0x200A) || c.val == 0x2028 ||
    c.val == 0x2029 || c.val == 0x202F || c.val == 0x205F || c.val == 0x3000

/-- `strings.TrimSpace(value) == ""`. -/
def isBlank (value : Text) : Bool :=
  value.all isUnicodeSpace

def cleanPart (path : Path) (part : Text) : Path :=
  if part = [] ∨ part = lit "." then path
  else if part = lit ".." then path.tail
  else part :: path

/-- `filepath.Clean` of `value` below `start`. -/
def clean (start : Path) (value : Text) : Path :=
  (value.splitOn (ofChar '/')).foldl cleanPart start

/-- `filepath.Abs`, relative paths being joined to `working`. -/
def absolute (working : Path) (value : Text) : Path :=
  if value.head? = some (ofChar '/') then clean [] value else clean working value

def relNames : List Name → List Name → List Component
  | name :: base, other :: path =>
      if name = other then relNames base path
      else (name :: base).map (fun _ => .up) ++ (other :: path).map .name
  | base, path => base.map (fun _ => .up) ++ path.map .name

/-- `filepath.Rel`. -/
def rel (base path : Path) : List Component :=
  relNames base.reverse path.reverse

/-- The relative path is `..` or starts with `../`. -/
def escapes (relative : List Component) : Bool :=
  relative.head? = some .up

/-! ## `confinedPath` -/

/-- The path with its links followed, where that succeeds. -/
def evaluated (tree : FileTree.Tree) (path : Path) : Path :=
  match tree.evalSymlinks path with
  | .ok real => real
  | .error _ => path

/-- The path itself evaluated, or a missing one in its evaluated parent. -/
def pinned (tree : FileTree.Tree) (candidate : Path) : Path :=
  if tree.stat candidate = .error .noent then
    match tree.evalSymlinks candidate.tail with
    | .ok real => candidate.take 1 ++ real
    | .error _ => candidate
  else evaluated tree candidate

/-- The workspace root that paths are compared with. -/
def rootAbs (tree : FileTree.Tree) (working : Path) (root : Text) : Path :=
  evaluated tree (absolute working root)

def cwdAbs (tree : FileTree.Tree) (working : Path) (cwd : Text) : Path :=
  evaluated tree (absolute working cwd)

def candidateAbs (tree : FileTree.Tree) (working : Path) (cwd value : Text) : Path :=
  absolute (cwdAbs tree working cwd) value

def confinedPath (tree : FileTree.Tree) (working : Path) (root cwd value : Text) : Except Text Path :=
  if isBlank value then .error (lit "path must be non-empty")
  else if escapes (rel (rootAbs tree working root) (cwdAbs tree working cwd)) then
    .error (lit "cwd escapes workspace root: " ++ cwd)
  else
    let path := pinned tree (candidateAbs tree working cwd value)
    if escapes (rel (rootAbs tree working root) path) then
      .error (lit "path escapes workspace root: " ++ value)
    else .ok path

/-! ## Requests and replies -/

inductive Operation where
  | readBytes
  | readTextPage
  | readText
  | snapshotText
  | writeTextAtomic
  | writeTextVerified
  | replaceExactAtomic
  | replaceExactVerified
  | stat
  | list
  | glob
  | searchText
  deriving DecidableEq

def operations : List (Text × Operation) :=
  [(lit "fs.read_bytes", .readBytes), (lit "fs.read_text_page", .readTextPage),
    (lit "fs.read_text", .readText), (lit "fs.snapshot_text", .snapshotText),
    (lit "fs.write_text_atomic", .writeTextAtomic),
    (lit "fs.write_text_verified", .writeTextVerified),
    (lit "fs.replace_exact_atomic", .replaceExactAtomic),
    (lit "fs.replace_exact_verified", .replaceExactVerified), (lit "fs.stat", .stat),
    (lit "fs.list", .list), (lit "fs.glob", .glob), (lit "fs.search_text", .searchText)]

/-- The arguments of a request as their type assertions find them. -/
structure Arguments where
  path : Option Text := none
  content : Option Text := none
  old : Option Text := none
  new : Option Text := none
  maxBytes : Option Argument := none
  page : PageArguments := {}
  recursive : Bool := false
  includeHidden : Option Bool := none
  maxEntries : Option Argument := none
  maxMatches : Option Argument := none
  pattern : Option Text := none

structure Request where
  operation : Text
  cwd : Option Text := none
  arguments : Arguments

/-- What `mutationReceipt` is made from. -/
structure Mutation where
  path : Path
  before : Option Text
  intended : Text
  observed : Option (Option Text)
  failed : Bool

structure Failure where
  code : Text
  message : Text
  mutation : Option Mutation := none

/-- The data of a successful reply; `σ` is what a search has gathered. -/
inductive Data (σ : Type) where
  | entry (info : Info)
  | entries (items : List Info) (truncated : Bool)
  | hits (items : List Info) (matchCount : ℕ) (listingTruncated : Bool)
  | found (search : σ)
  | bytes (path : Path) (content : Text)
  | content (content : Text)
  | page (page : TextPage)
  | snapshot (path : Path) (content : Option Text)
  | written (old : Text)
  | edited (old new : Text)
  | mutated (mutation : Mutation)

abbrev Reply (σ : Type) := Except Failure (Data σ)

def failure {σ : Type} (code : String) (message : Text) : Reply σ :=
  .error { code := lit code, message }

/-- How the search of one request judges the files it is shown. -/
structure Visitor (σ : Type) where
  start : σ
  excluded : Name → Bool
  /-- The entry is counted; `false` ends the search. -/
  count : σ → σ × Bool
  /-- Whether a regular file is read, or the search ends. -/
  wanted : σ → Path → Text → σ × Except Unit Bool
  /-- The matches of a file; `false` ends the search. -/
  scan : σ → Path → Text → σ × Bool

/-- What a run depends on beyond the tree: the process's working directory, Go's tables and
texts, the random names of `os.CreateTemp`, and the patterns of the requests. -/
structure Host (σ : Type) where
  working : Path
  quote : Text → Text
  errorText : Errno → Text
  toLower : Name → Name
  /-- `os.CreateTemp` tries names until one is new; any name will do that is too long. -/
  temporary : FileTree.Tree → Path → Name
  temporary_fresh : ∀ (tree : FileTree.Tree) (directory : Path) (location : Location),
    tree.place (temporary tree directory :: directory) = .ok location →
      tree.lookup location = none
  /-- `portableGlobMatch`, and whether a directory can hold a match. -/
  globMatch : Text → Path → Bool
  globDescend : Text → Path → Bool
  newestFirst : List Info → List Info
  /-- The checks on the arguments of a search. -/
  search : Arguments → Except Failure (Visitor σ)
  /-- The names that `git ls-files` lists, inside a repository. -/
  lsFiles : FileTree.Tree → Path → Option (List Text)

variable {σ : Type}

def ioError (host : Host σ) (error : Errno) : Reply σ :=
  failure "io_error" (host.errorText error)

/-- The reply to a path that a call has failed on. -/
def notFound (host : Host σ) (pathValue : Text) (error : Errno) : Reply σ :=
  if error = .noent then failure "not_found" (pathValue ++ lit " not found")
  else ioError host error

def isRegular : Node → Bool
  | .file _ => true
  | _ => false

/-! ## Reading -/

def readBytes (host : Host σ) (path : Path) (pathValue : Text) (arguments : Arguments) :
    FileOp (Reply σ) := do
  let maxBytes := intArg 0 arguments.maxBytes
  if maxBytes < 1 ∨ 64 * 1024 * 1024 < maxBytes then
    pure (failure "invalid_path" (lit "max_bytes must be between 1 and 67108864"))
  else
    match ← stat path with
    | .error error => pure (notFound host pathValue error)
    | .ok info =>
      if isRegular info.node then
        match ← readFile path with
        | .error error => pure (ioError host error)
        | .ok content =>
          if maxBytes < (utf8Size content : ℤ) then
            pure (failure "io_error"
              (pathValue ++ lit " exceeds the " ++ lit (toString maxBytes) ++
                lit "-byte read limit"))
          else pure (.ok (.bytes path content))
      else pure (failure "not_a_file" (pathValue ++ lit " is not a file"))

def readPage (host : Host σ) (path : Path) (pathValue : Text) (arguments : Arguments) :
    FileOp (Reply σ) := do
  let page (file : PageFile) : Reply σ :=
    match readTextPage pathValue arguments.page file with
    | .error failed => .error { code := failed.code, message := failed.message }
    | .ok page => .ok (.page page)
  match ← stat path with
  | .error .noent => pure (page .missing)
  | .error error => pure (ioError host error)
  | .ok info =>
    if isRegular info.node then
      match ← readFile path with
      | .error error => pure (ioError host error)
      | .ok content => pure (page (.regular content))
    else pure (page .irregular)

/-- A path that cannot be read as a file, whatever the reason. -/
def unreadable (host : Host σ) (path : Path) (pathValue : Text) (error : Errno) :
    FileOp (Reply σ) := do
  match ← stat path with
  | .ok info =>
    if info.node = .directory then
      pure (failure "not_a_file" (pathValue ++ lit " is not a file"))
    else pure (ioError host error)
  | .error _ => pure (ioError host error)

def readText (host : Host σ) (path : Path) (pathValue : Text) : FileOp (Reply σ) := do
  match ← readFile path with
  | .ok content => pure (.ok (.content content))
  | .error .noent => pure (failure "not_found" (pathValue ++ lit " not found"))
  | .error error => unreadable host path pathValue error

/-- The content of a file, `none` for a missing one. -/
def readDocument (path : Path) : FileOp (Except Errno (Option Text)) := do
  match ← readFile path with
  | .error .noent => pure (.ok none)
  | .error error => pure (.error error)
  | .ok content =>
    match ← stat path with
    | .error error => pure (.error error)
    | .ok _ => pure (.ok (some content))

def snapshotText (host : Host σ) (path : Path) (pathValue : Text) : FileOp (Reply σ) := do
  match ← readDocument path with
  | .ok content => pure (.ok (.snapshot path content))
  | .error error => unreadable host path pathValue error

/-! ## Writing -/

/-- The file modes that `os.Chmod` copies are not part of the tree. -/
def atomicWrite (host : Host σ) (path : Path) (content : Text) :
    FileOp (Except Errno Unit) := do
  match ← mkdirAll path.tail with
  | .error error => pure (.error error)
  | .ok () =>
    let name ← look fun tree => host.temporary tree path.tail
    match ← createFile (name :: path.tail) content with
    | .error error => pure (.error error)
    | .ok () =>
      let renamed ← rename (name :: path.tail) path
      remove (name :: path.tail)
      pure renamed

/-- The path names something other than a regular file. -/
def irregular (path : Path) : FileOp Bool := do
  match ← stat path with
  | .ok info => pure !isRegular info.node
  | .error _ => pure false

def writeTextAtomic (host : Host σ) (path : Path) (pathValue : Text) (arguments : Arguments) :
    FileOp (Reply σ) := do
  match arguments.content with
  | none => pure (failure "invalid_path" (lit "content must be a string"))
  | some content =>
    if ← irregular path then
      pure (failure "not_a_file" (pathValue ++ lit " is not a file"))
    else
      let old ← readFile path
      match ← atomicWrite host path content with
      | .error error => pure (ioError host error)
      | .ok () => pure (.ok (.written (old.toOption.getD [])))

/-- Write the new content and read back what is there. -/
def verifiedWrite (host : Host σ) (path : Path) (before : Option Text) (content : Text) :
    FileOp (Reply σ) := do
  let writeErr ← atomicWrite host path content
  let observed ← readDocument path
  let mutation : Mutation :=
    { path, before, intended := content, observed := observed.toOption,
      failed := !writeErr.isOk }
  match writeErr with
  | .error error =>
    pure (.error { code := lit "io_error", message := host.errorText error,
                   mutation := some mutation })
  | .ok () => pure (.ok (.mutated mutation))

def writeTextVerified (host : Host σ) (path : Path) (pathValue : Text)
    (arguments : Arguments) : FileOp (Reply σ) := do
  match arguments.content with
  | none => pure (failure "invalid_path" (lit "content must be a string"))
  | some content =>
    if ← irregular path then
      pure (failure "not_a_file" (pathValue ++ lit " is not a file"))
    else
      match ← readDocument path with
      | .error error => pure (ioError host error)
      | .ok before => verifiedWrite host path before content

/-- `strings.Count`, the next `skip` characters being part of an occurrence. -/
def countFrom (old : Text) : (skip : ℕ) → Text → ℕ
  | _, [] => if old = [] then 1 else 0
  | skip + 1, _ :: rest => countFrom old skip rest
  | 0, c :: rest =>
      if old.isPrefixOf (c :: rest) then 1 + countFrom old (old.length - 1) rest
      else countFrom old 0 rest

/-- `strings.Replace(content, old, new, 1)`. -/
def replaceFirst (old new : Text) : Text → Text
  | [] => if old = [] then new else []
  | c :: rest =>
      if old.isPrefixOf (c :: rest) then new ++ (c :: rest).drop old.length
      else c :: replaceFirst old new rest

/-- The content with its only occurrence of `old` replaced. -/
def replaceExact (content old new : Text) : Reply σ ⊕ Text :=
  match countFrom old 0 content with
  | 0 => .inl (failure "not_found" (lit "old text was not found"))
  | 1 => .inr (replaceFirst old new content)
  | count =>
      .inl (failure "not_unique"
        (lit "old text occurs " ++ (lit (toString count) ++ lit " times")))

/-- `old` and `new`, which are strings and differ. -/
def replacement (arguments : Arguments) : Option (Text × Text) :=
  match arguments.old, arguments.new with
  | some old, some new => if old = new then none else some (old, new)
  | _, _ => none

def replaceExactAtomic (host : Host σ) (path : Path) (pathValue : Text)
    (arguments : Arguments) : FileOp (Reply σ) := do
  match replacement arguments with
  | none => pure (failure "invalid_path" (lit "old and new must be different strings"))
  | some (old, new) =>
    match ← readFile path with
    | .error error => pure (notFound host pathValue error)
    | .ok content =>
      match replaceExact content old new with
      | .inl reply => pure reply
      | .inr updated =>
        match ← atomicWrite host path updated with
        | .error error => pure (ioError host error)
        | .ok () => pure (.ok (.edited content updated))

def replaceExactVerified (host : Host σ) (path : Path) (pathValue : Text)
    (arguments : Arguments) : FileOp (Reply σ) := do
  match replacement arguments with
  | none => pure (failure "invalid_path" (lit "old and new must be different strings"))
  | some (old, new) =>
    match ← readDocument path with
    | .error error => pure (ioError host error)
    | .ok none => pure (failure "not_found" (pathValue ++ lit " not found"))
    | .ok (some content) =>
      match replaceExact content old new with
      | .inl reply => pure reply
      | .inr updated => verifiedWrite host path (some content) updated

/-! ## Listing -/

def statEntry (host : Host σ) (path : Path) (pathValue : Text) : FileOp (Reply σ) := do
  match ← lstat path with
  | .error error => pure (notFound host pathValue error)
  | .ok info => do
    record (.read info.location)
    pure (.ok (.entry info))

/-- The children of a directory in the order in which they are shown. -/
def sortedChildren (host : Host σ) (directory : Path) :
    FileOp (Except Errno (List Name)) := do
  match ← readDir directory with
  | .error error => pure (.error error)
  | .ok names =>
    pure (.ok (names.mergeSort fun left right =>
      decide (host.toLower left ≤ host.toLower right)))

/-- A listing under way; `pending` is a stack. -/
structure Listing where
  entries : List Info := []
  pending : List Path
  truncated : Bool := false

/-- The children of one directory. -/
def listChildren (recursive includeHidden : Bool) (maxEntries : ℤ) (directory : Path) :
    List Name → Listing → FileOp Listing
  | [], listing => pure listing
  | child :: rest, listing =>
    if !includeHidden && child.head? = some (ofChar '.') then
      listChildren recursive includeHidden maxEntries directory rest listing
    else do
      match ← lstat (child :: directory) with
      | .error _ => listChildren recursive includeHidden maxEntries directory rest listing
      | .ok info => do
        record (.read info.location)
        let listing := { listing with entries := listing.entries ++ [info] }
        if maxEntries ≤ listing.entries.length then pure { listing with truncated := true }
        else
          listChildren recursive includeHidden maxEntries directory rest
            (if recursive && info.node = .directory then
              { listing with pending := (child :: directory) :: listing.pending }
            else listing)

/-- The loop of `listEntries`; a directory is pushed once, so the tree's entries bound it. -/
def listLoop (host : Host σ) (recursive includeHidden : Bool) (maxEntries : ℤ) :
    (rounds : ℕ) → Listing → FileOp (Except Errno Listing)
  | 0, listing => pure (.ok listing)
  | rounds + 1, listing =>
    match listing.pending with
    | [] => pure (.ok listing)
    | directory :: pending =>
      if listing.truncated then pure (.ok listing)
      else do
        match ← sortedChildren host directory with
        | .error error => pure (.error error)
        | .ok names =>
          listLoop host recursive includeHidden maxEntries rounds
            (← listChildren recursive includeHidden maxEntries directory names
              { listing with pending })

def listEntries (host : Host σ) (path : Path) (pathValue : Text) (arguments : Arguments) :
    FileOp (Reply σ) := do
  match ← lstat path with
  | .error error => pure (notFound host pathValue error)
  | .ok info =>
    match info.node with
    | .file _ => do
      record (.read info.location)
      pure (.ok (.entries [info] false))
    | .link _ => pure (failure "not_a_directory" (pathValue ++ lit " is not a directory"))
    | .directory =>
      let maxEntries := intArg 10000 arguments.maxEntries
      if maxEntries < 1 then
        pure (failure "invalid_path" (lit "max_entries must be positive"))
      else
        let rounds ← look fun tree => tree.entries.length + 1
        match ← listLoop host arguments.recursive (arguments.includeHidden.getD true)
            maxEntries rounds { pending := [path] } with
        | .error error => pure (ioError host error)
        | .ok listing => pure (.ok (.entries listing.entries listing.truncated))

/-- A scan under way; each pending directory has its path below the scan's root. -/
structure Scan where
  hits : List Info := []
  scanned : ℕ := 0
  pending : List (Path × Path)
  truncated : Bool := false

/-- The callback of `globEntries` on one entry. -/
def visitMatch (host : Host σ) (pattern : Text) (full below : Path) (hits : List Info) :
    FileOp (List Info) :=
  if host.globMatch pattern below then do
    match ← lstat full with
    | .error _ => pure hits
    | .ok info => do
      record (.read info.location)
      pure (hits ++ [info])
  else pure hits

/-- The children of one directory. -/
def scanChildren (host : Host σ) (pattern : Text) (maxEntries : ℤ) (directory below : Path) :
    List Name → Scan → FileOp Scan
  | [], scan => pure scan
  | child :: rest, scan => do
    let hits ← visitMatch host pattern (child :: directory) (child :: below) scan.hits
    let scan := { scan with hits, scanned := scan.scanned + 1 }
    if maxEntries ≤ scan.scanned then pure { scan with truncated := true }
    else
      match ← lstat (child :: directory) with
      | .error _ => scanChildren host pattern maxEntries directory below rest scan
      | .ok info =>
        scanChildren host pattern maxEntries directory below rest
          (if info.node = .directory ∧ host.globDescend pattern (child :: below) then
            { scan with pending := (child :: directory, child :: below) :: scan.pending }
          else scan)

/-- `scanWorkspace`. -/
def scanLoop (host : Host σ) (pattern : Text) (maxEntries : ℤ) :
    (rounds : ℕ) → Scan → FileOp (Except Errno Scan)
  | 0, scan => pure (.ok scan)
  | rounds + 1, scan =>
    match scan.pending with
    | [] => pure (.ok scan)
    | (directory, below) :: pending =>
      if scan.truncated then pure (.ok scan)
      else do
        match ← sortedChildren host directory with
        | .error error => pure (.error error)
        | .ok names =>
          scanLoop host pattern maxEntries rounds
            (← scanChildren host pattern maxEntries directory below names { scan with pending })

def globEntries (host : Host σ) (path : Path) (pathValue : Text) (arguments : Arguments) :
    FileOp (Reply σ) := do
  match ← lstat path with
  | .error error => pure (notFound host pathValue error)
  | .ok info =>
    if info.node ≠ .directory then
      pure (failure "not_a_directory" (pathValue ++ lit " is not a directory"))
    else if isBlank (arguments.pattern.getD []) then
      pure (failure "invalid_path" (lit "pattern must be a non-empty string"))
    else if (arguments.pattern.getD []).any fun c => decide (c ∈ lit "\\[]") then
      pure (failure "invalid_path" (lit "glob pattern requires compatibility fallback"))
    else
      let maxEntries := intArg 20000 arguments.maxEntries
      let maxMatches := intArg 100 arguments.maxMatches
      if maxEntries < 1 ∨ maxMatches < 1 then
        pure (failure "invalid_path" (lit "max_entries and max_matches must be positive"))
      else
        let rounds ← look fun tree => tree.entries.length + 1
        match ← scanLoop host (arguments.pattern.getD []) maxEntries rounds
            { pending := [(path, [])] } with
        | .error error => pure (ioError host error)
        | .ok scan =>
          pure (.ok (.hits ((host.newestFirst scan.hits).take maxMatches.toNat)
            scan.hits.length scan.truncated))

/-! ## Searching -/

/-- How a part of a search ends early: `errSearchComplete`, or an error. -/
inductive Ending (σ : Type) where
  | complete (search : σ)
  | failed (error : Errno)

/-- The callback of the search on one entry that is no directory. -/
def visit (visitor : Visitor σ) (full : Path) (node : Node) (search : σ) :
    FileOp (Except (Ending σ) σ) :=
  match visitor.count search, node with
  | (search, false), _ => pure (.error (.complete search))
  | (search, true), .file content =>
    match visitor.wanted search full content with
    | (search, .error ()) => pure (.error (.complete search))
    | (search, .ok false) => pure (.ok search)
    | (search, .ok true) => do
      match ← readFile full with
      | .error .noent => pure (.ok search)
      | .error error => pure (.error (.failed error))
      | .ok content =>
        match visitor.scan search full content with
        | (search, true) => pure (.ok search)
        | (search, false) => pure (.error (.complete search))
  | (search, true), _ => pure (.ok search)

/-- One entry of `filepath.WalkDir`, `descend` walking a directory. -/
def walkEntry (visitor : Visitor σ) (descend : Path → σ → FileOp (Except (Ending σ) σ))
    (child : Name) (directory : Path) (node : Node) (search : σ) :
    FileOp (Except (Ending σ) σ) :=
  if node = .directory then
    if visitor.excluded child then pure (.ok search) else descend (child :: directory) search
  else visit visitor (child :: directory) node search

def walkChildren (visitor : Visitor σ)
    (descend : Path → σ → FileOp (Except (Ending σ) σ)) (directory : Path) :
    List Name → σ → FileOp (Except (Ending σ) σ)
  | [], search => pure (.ok search)
  | child :: rest, search => do
    match ← lstat (child :: directory) with
    | .error error => pure (.error (.failed error))
    | .ok info =>
      match ← walkEntry visitor descend child directory info.node search with
      | .error ending => pure (.error ending)
      | .ok search => walkChildren visitor descend directory rest search

/-- `filepath.WalkDir`; the tree's entries bound its depth. -/
def walkDir (visitor : Visitor σ) : (depth : ℕ) → Path → σ → FileOp (Except (Ending σ) σ)
  | 0, _, search => pure (.ok search)
  | depth + 1, directory, search => do
    match ← readDir directory with
    | .error error => pure (.error (.failed error))
    | .ok names => walkChildren visitor (walkDir visitor depth) directory names search

/-- The names of a Git index, without those that pass a link. -/
def visitIndex (visitor : Visitor σ) (root : Path) :
    List Text → σ → FileOp (Except (Ending σ) σ)
  | [], search => pure (.ok search)
  | name :: rest, search => do
    let full := clean root name
    match ← look fun tree => tree.evalSymlinks full with
    | .error .noent => visitIndex visitor root rest search
    | .error error => pure (.error (.failed error))
    | .ok resolved =>
      if resolved ≠ full ∨ escapes (rel root resolved) then
        visitIndex visitor root rest search
      else
        match ← lstat full with
        | .error .noent => visitIndex visitor root rest search
        | .error error => pure (.error (.failed error))
        | .ok info =>
          match ← visit visitor full info.node search with
          | .error ending => pure (.error ending)
          | .ok search => visitIndex visitor root rest search

def visitSearchFiles (host : Host σ) (visitor : Visitor σ) (root : Path) :
    FileOp (Except (Ending σ) σ) := do
  match ← look fun tree => host.lsFiles tree root with
  | some names => visitIndex visitor root names visitor.start
  | none =>
    match ← lstat root with
    | .error error => pure (.error (.failed error))
    | .ok info =>
      if info.node = .directory then
        let depth ← look fun tree => tree.entries.length + 1
        walkDir visitor depth root visitor.start
      else visit visitor root info.node visitor.start

/-- The files of a search: those below a directory, or one file. -/
def searchFiles (host : Host σ) (visitor : Visitor σ) (path : Path) (node : Node) :
    FileOp (Except (Ending σ) σ) :=
  if node = .directory then visitSearchFiles host visitor path
  else visit visitor path node visitor.start

def searchText (host : Host σ) (path : Path) (arguments : Arguments) : FileOp (Reply σ) := do
  match host.search arguments with
  | .error failed => pure (.error failed)
  | .ok visitor =>
    match ← stat path with
    | .error error => pure (ioError host error)
    | .ok info =>
      match ← searchFiles host visitor path info.node with
      | .error (.failed error) => pure (ioError host error)
      | .error (.complete search) | .ok search => pure (.ok (.found search))

/-! ## `Execute` -/

/-- An operation on a path that has been confined. -/
def perform (host : Host σ) (operation : Operation) (path : Path) (pathValue : Text)
    (arguments : Arguments) : FileOp (Reply σ) :=
  match operation with
  | .stat => statEntry host path pathValue
  | .list => listEntries host path pathValue arguments
  | .glob => globEntries host path pathValue arguments
  | .searchText => searchText host path arguments
  | .readBytes => readBytes host path pathValue arguments
  | .readText => readText host path pathValue
  | .readTextPage => readPage host path pathValue arguments
  | .snapshotText => snapshotText host path pathValue
  | .writeTextAtomic => writeTextAtomic host path pathValue arguments
  | .writeTextVerified => writeTextVerified host path pathValue arguments
  | .replaceExactAtomic => replaceExactAtomic host path pathValue arguments
  | .replaceExactVerified => replaceExactVerified host path pathValue arguments

/-- The directory that relative paths of a request are joined to. -/
def requestCwd (request : Request) (defaultCWD : Text) : Text :=
  match request.cwd with
  | some cwd => if cwd = [] then defaultCWD else cwd
  | none => defaultCWD

def execute (host : Host σ) (request : Request) (root defaultCWD : Text) :
    FileOp (Reply σ) := do
  match operations.lookup request.operation with
  | none =>
    pure (failure "invalid_path"
      (lit "unsupported workspace operation " ++ host.quote request.operation))
  | some operation =>
    let pathValue := request.arguments.path.getD []
    if isBlank pathValue then
      pure (failure "invalid_path" (lit "path must be a non-empty string"))
    else
      match ← look fun tree =>
          confinedPath tree host.working root (requestCwd request defaultCWD) pathValue with
      | .error message => pure (failure "path_outside_workspace" message)
      | .ok path => perform host operation path pathValue request.arguments

end ReuleauxCoder.Workspace.Files
