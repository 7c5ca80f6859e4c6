import ReuleauxCoder.Library.FileTree

/-!
# System calls on a file tree

A call finds what it works on by walking the path it is given.  Calls that read an entry's
content, or create or replace an entry, leave a record of the location.  A name or a path that
is too long fails with an error of its own.  There are no permissions and no other processes.
-/

namespace FileTree

open PyText

/-- The links that the system follows in one path. -/
def systemLinks : ℕ := 40

/-- The links that `filepath.EvalSymlinks` follows. -/
def evalLinks : ℕ := 255

/-- No call takes a path with a NUL in it. -/
def hasNuls (path : Path) : Prop := ∃ name ∈ path, hasNul name

instance (path : Path) : Decidable (hasNuls path) :=
  inferInstanceAs (Decidable (∃ name ∈ path, hasNul name))

/-- A path that no call takes. -/
def Refused (path : Path) : Prop := hasNuls path ∨ Overlong path

structure Info where
  location : Location
  node : Node
  deriving DecidableEq

namespace Tree

def info (tree : Tree) (location : Location) : Except Errno Info :=
  match tree.lookup location with
  | some node => .ok ⟨location, node⟩
  | none => .error .noent

def resolve (tree : Tree) (path : Path) : Except Errno Location :=
  if hasNuls path then .error .inval
  else if Overlong path then .error .nametoolong
  else tree.walk systemLinks [] (components path)

def stat (tree : Tree) (path : Path) : Except Errno Info := do
  tree.info (← tree.resolve path)

/-- `filepath.EvalSymlinks` asks for one entry after the other, each by the path that its
location has, so that the path as a whole may be of any length. -/
def evalSymlinks (tree : Tree) (path : Path) : Except Errno Location :=
  if hasNuls path then .error .inval else tree.walk evalLinks [] (components path)

/-- The location that a path names, with the links before its last name followed. -/
def place (tree : Tree) : Path → Except Errno Location
  | [] => .ok []
  | name :: directory =>
    if hasNuls (name :: directory) then .error .inval
    else if Overlong (name :: directory) then .error .nametoolong
    else do
      let real ← tree.walk systemLinks [] (components directory)
      if tree.lookup real = some .directory then
        if TooLong name ∨ Overlong (name :: real) then .error .nametoolong
        else .ok (name :: real)
      else .error .notdir

def lstat (tree : Tree) (path : Path) : Except Errno Info := do
  tree.info (← tree.place path)

/-- Put an entry that is no directory at a location, over one that is no directory. -/
def replace (tree : Tree) (location : Location) (node : Node) : Except Errno Tree :=
  match location with
  | [] => .error .isdir
  | name :: directory =>
    if h : tree.lookup directory = some .directory ∧
        tree.lookup (name :: directory) ≠ some .directory ∧ Legal name directory then
      .ok (tree.put name directory node h.1 h.2.1 h.2.2)
    else .error .isdir

def create (tree : Tree) (location : Location) (node : Node) : Except Errno Tree :=
  match tree.lookup location with
  | some _ => .error .exist
  | none => tree.replace location node

/-- Take away an entry that is no directory; what stood there is the second result. -/
def unlink (tree : Tree) (location : Location) : Except Errno (Tree × Node) :=
  match location with
  | [] => .error .isdir
  | name :: directory =>
    match tree.lookup (name :: directory) with
    | none => .error .noent
    | some node =>
      if h : tree.lookup (name :: directory) ≠ some .directory then
        .ok (tree.remove name directory h, node)
      else .error .isdir

def rename (tree : Tree) (source target : Location) : Except Errno Tree := do
  let (rest, node) ← tree.unlink source
  rest.replace target node

end Tree

/-! ## Calls -/

inductive Access where
  | read (location : Location)
  | create (location : Location)
  | replace (location : Location)
  deriving DecidableEq

def Access.location : Access → Location
  | .read location | .create location | .replace location => location

structure World where
  tree : Tree
  accesses : List Access := []

abbrev FileOp (α : Type) := StateM World α

namespace FileOp

/-- Look at the tree without leaving a record. -/
def look {α : Type} (ask : Tree → α) : FileOp α :=
  fun world => (ask world.tree, world)

def record (access : Access) : FileOp Unit :=
  fun world => ((), { world with accesses := world.accesses ++ [access] })

/-- Change the tree at the location of `access`, or fail and change nothing. -/
def change (make : Tree → Except Errno (Access × Tree)) : FileOp (Except Errno Unit) :=
  fun world =>
    match make world.tree with
    | .error error => (.error error, world)
    | .ok (access, tree) => (.ok (), { tree, accesses := world.accesses ++ [access] })

def stat (path : Path) : FileOp (Except Errno Info) :=
  look fun tree => tree.stat path

def lstat (path : Path) : FileOp (Except Errno Info) :=
  look fun tree => tree.lstat path

/-- Open a file and read all of it. -/
def readFile (path : Path) : FileOp (Except Errno Text) := do
  match ← stat path with
  | .error error => pure (.error error)
  | .ok info =>
    match info.node with
    | .file content => do
      record (.read info.location)
      pure (.ok content)
    | _ => pure (.error .isdir)

/-- The names in a directory, sorted. -/
def readDir (path : Path) : FileOp (Except Errno (List Name)) := do
  match ← stat path with
  | .error error => pure (.error error)
  | .ok info =>
    if info.node = .directory then do
      record (.read info.location)
      let names ← look fun tree => tree.children info.location
      pure (.ok (names.mergeSort fun left right => decide (left ≤ right)))
    else pure (.error .notdir)

/-- Make an entry where nothing was. -/
def createNode (path : Path) (node : Node) : FileOp (Except Errno Unit) :=
  change fun tree => do
    let location ← tree.place path
    let tree ← tree.create location node
    pure (.create location, tree)

def mkdir (path : Path) : FileOp (Except Errno Unit) :=
  createNode path .directory

/-- Create a file that was not there, with its content. -/
def createFile (path : Path) (content : Text) : FileOp (Except Errno Unit) :=
  createNode path (.file content)

def rename (source target : Path) : FileOp (Except Errno Unit) :=
  change fun tree => do
    let source ← tree.place source
    let target ← tree.place target
    let tree ← tree.rename source target
    pure (.replace target, tree)

/-- Remove a file; the location was recorded when the file was created. -/
def remove (path : Path) : FileOp Unit :=
  fun world =>
    match (do world.tree.unlink (← world.tree.place path) : Except Errno (Tree × Node)) with
    | .error _ => ((), world)
    | .ok (tree, _) => ((), { world with tree })

/-- Create a directory and the directories that it needs. -/
def mkdirAll : Path → FileOp (Except Errno Unit)
  | [] => pure (.ok ())
  | name :: parent => do
    match ← stat (name :: parent) with
    | .ok info => pure (if info.node = .directory then .ok () else .error .notdir)
    | .error _ =>
      match ← mkdirAll parent with
      | .error error => pure (.error error)
      | .ok () =>
        match ← mkdir (name :: parent) with
        | .ok () => pure (.ok ())
        | .error error =>
          match ← lstat (name :: parent) with
          | .ok info => pure (if info.node = .directory then .ok () else .error error)
          | .error _ => pure (.error error)

section Running

variable {α β : Type} (world : World)

@[simp]
theorem pure_apply (value : α) : (pure value : FileOp α) world = (value, world) := rfl

@[simp]
theorem bind_apply (operation : FileOp α) (next : α → FileOp β) :
    (operation >>= next) world = next (operation world).1 (operation world).2 := rfl

@[simp]
theorem look_apply (ask : Tree → α) : look ask world = (ask world.tree, world) := rfl

@[simp]
theorem stat_apply (path : Path) : stat path world = (world.tree.stat path, world) := rfl

@[simp]
theorem lstat_apply (path : Path) : lstat path world = (world.tree.lstat path, world) := rfl

@[simp]
theorem record_apply (access : Access) :
    record access world = ((), ⟨world.tree, world.accesses ++ [access]⟩) := rfl

end Running

/-! ## What a call maintains -/

/-- Started where `invariant` holds, the operation ends where it holds, with a result that
has the property. -/
def Maintains {α : Type} (invariant : World → Prop) (operation : FileOp α)
    (result : α → Prop) : Prop :=
  ∀ world, invariant world → invariant (operation world).2 ∧ result (operation world).1

variable {α β : Type} {invariant : World → Prop}

theorem maintains_pure {result : α → Prop} {value : α} (hvalue : result value) :
    Maintains invariant (pure value) result :=
  fun _ hworld => ⟨hworld, hvalue⟩

theorem Maintains.bind {operation : FileOp α} {next : α → FileOp β} {middle : α → Prop}
    {result : β → Prop} (hoperation : Maintains invariant operation middle)
    (hnext : ∀ value, middle value → Maintains invariant (next value) result) :
    Maintains invariant (operation >>= next) result := by
  intro world hworld
  obtain ⟨hbetween, hvalue⟩ := hoperation world hworld
  exact hnext _ hvalue _ hbetween

end FileOp

/-! ## Where a path leads -/

variable {directory : Path} {name : Name}

theorem not_refused_tail (hlegal : ¬Refused (name :: directory)) : ¬Refused directory := by
  rintro (⟨other, hother, hnul⟩ | hlong)
  · exact hlegal (.inl ⟨other, List.mem_cons_of_mem _ hother, hnul⟩)
  · refine hlegal (.inr (hlong.trans ?_))
    rw [List.map_cons, List.sum_cons]
    exact Nat.le_add_left _ _

namespace Tree

variable {tree : Tree}

variable {location : Location} {node : Node} {path : Path}

theorem not_refused_of_lookup (hnode : tree.lookup location = some node) : ¬Refused location := by
  rintro (⟨name, hname, hnul⟩ | hlong)
  · exact tree.not_hasNul hnode name hname hnul
  · cases location with
    | nil => exact absurd hlong (by decide)
    | cons name directory => exact (tree.legal name directory node hnode).2.2 hlong

variable {info : Info} {after : Tree}

theorem info_eq_ok :
    tree.info location = .ok info ↔
      info.location = location ∧ tree.lookup location = some info.node := by
  unfold Tree.info
  cases hnode : tree.lookup location with
  | none => simp
  | some node =>
    obtain ⟨place, found⟩ := info
    simp [eq_comm]

theorem resolve_eq_walk (hlegal : ¬Refused path) :
    tree.resolve path = tree.walk systemLinks [] (components path) := by
  rw [Tree.resolve, if_neg fun hnuls => hlegal (.inl hnuls),
    if_neg fun hlong => hlegal (.inr hlong)]

theorem resolve_of_refused (hrefused : Refused path) :
    ∃ error, tree.resolve path = .error error ∧ error ≠ .noent := by
  by_cases hnuls : hasNuls path
  · exact ⟨.inval, if_pos hnuls, nofun⟩
  · refine ⟨.nametoolong, ?_, nofun⟩
    rw [Tree.resolve, if_neg hnuls, if_pos (hrefused.resolve_left hnuls)]

theorem resolve_eq_ok :
    tree.resolve path = .ok location ↔
      ¬Refused path ∧ tree.walk systemLinks [] (components path) = .ok location := by
  by_cases hrefused : Refused path
  · obtain ⟨error, herror, _⟩ := tree.resolve_of_refused hrefused
    simp [herror, hrefused]
  · rw [tree.resolve_eq_walk hrefused]
    simp [hrefused]

theorem evalSymlinks_eq_ok :
    tree.evalSymlinks path = .ok location ↔
      ¬hasNuls path ∧ tree.walk evalLinks [] (components path) = .ok location := by
  unfold Tree.evalSymlinks
  split <;> simp_all

theorem stat_eq_ok :
    tree.stat path = .ok info ↔
      tree.resolve path = .ok info.location ∧
        tree.lookup info.location = some info.node := by
  unfold Tree.stat
  cases tree.resolve path with
  | error error => simp [bind, Except.bind]
  | ok location =>
    simp only [bind, Except.bind, info_eq_ok, Except.ok.injEq]
    constructor
    · rintro ⟨rfl, hnode⟩
      exact ⟨rfl, hnode⟩
    · rintro ⟨rfl, hnode⟩
      exact ⟨rfl, hnode⟩

theorem settled_of_resolve (hresolve : tree.resolve path = .ok location) :
    tree.Settled location :=
  tree.settled_of_walk (tree.settled_directory tree.lookup_nil) (resolve_eq_ok.mp hresolve).2

theorem settled_of_evalSymlinks (heval : tree.evalSymlinks path = .ok location) :
    tree.Settled location :=
  tree.settled_of_walk (tree.settled_directory tree.lookup_nil) (evalSymlinks_eq_ok.mp heval).2

theorem resolve_settled (hsettled : tree.Settled location) :
    tree.resolve location = .ok location := by
  obtain ⟨node, hnode, _⟩ := id hsettled
  exact resolve_eq_ok.mpr ⟨not_refused_of_lookup hnode, tree.walk_settled systemLinks hsettled⟩

/-- The error of a path that `stat` finds nothing at. -/
theorem resolve_of_stat_error {error : Errno} (hstat : tree.stat path = .error error) :
    tree.resolve path = .error error := by
  cases hresolve : tree.resolve path with
  | error other => simpa [Tree.stat, hresolve, bind, Except.bind] using hstat
  | ok location =>
    obtain ⟨node, hnode, _⟩ := settled_of_resolve hresolve
    simp [Tree.stat, hresolve, bind, Except.bind, Tree.info, hnode] at hstat

theorem stat_settled (hnode : tree.lookup location = some node)
    (hlink : ∀ target, node ≠ .link target) : tree.stat location = .ok ⟨location, node⟩ :=
  stat_eq_ok.mpr ⟨resolve_settled ⟨node, hnode, hlink⟩, hnode⟩

theorem stat_directory (hdirectory : tree.lookup location = some .directory) :
    tree.stat location = .ok ⟨location, .directory⟩ :=
  stat_settled hdirectory (fun _ => nofun)

theorem place_eq_ok :
    tree.place (name :: directory) = .ok location ↔
      ¬Refused (name :: directory) ∧ ∃ real, location = name :: real ∧
        tree.walk systemLinks [] (components directory) = .ok real ∧
          tree.lookup real = some .directory ∧ ¬TooLong name ∧ ¬Overlong (name :: real) := by
  by_cases hrefused : Refused (name :: directory)
  · have herror : ∃ error, tree.place (name :: directory) = .error error := by
      by_cases hnuls : hasNuls (name :: directory)
      · exact ⟨.inval, if_pos hnuls⟩
      · refine ⟨.nametoolong, ?_⟩
        rw [Tree.place, if_neg hnuls, if_pos (hrefused.resolve_left hnuls)]
    obtain ⟨error, herror⟩ := herror
    simp [herror, hrefused]
  · rw [Tree.place, if_neg fun hnuls => hrefused (.inl hnuls),
      if_neg fun hlong => hrefused (.inr hlong)]
    cases hwalk : tree.walk systemLinks [] (components directory) with
    | error error => simp [bind, Except.bind]
    | ok real =>
      simp only [bind, Except.bind, Except.ok.injEq]
      by_cases hreal : tree.lookup real = some .directory
      · by_cases hlong : TooLong name ∨ Overlong (name :: real)
        · rw [if_pos hreal, if_pos hlong]
          simp only [reduceCtorEq, false_iff]
          rintro ⟨_, other, _, rfl, _, hname, hplace⟩
          exact hlong.elim hname hplace
        · rw [if_pos hreal, if_neg hlong]
          rw [not_or] at hlong
          simp [hrefused, hreal, hlong, eq_comm]
      · simp [hreal]

/-- What may stand at the place of a path. -/
theorem legal_of_place {real : Location}
    (hplace : tree.place (name :: directory) = .ok (name :: real)) : Legal name real := by
  obtain ⟨hlegal, other, heq, _, _, hname, hlong⟩ := place_eq_ok.mp hplace
  obtain rfl : real = other := (List.cons.inj heq).2
  exact ⟨fun hnul => hlegal (.inl ⟨name, List.mem_cons_self, hnul⟩), hname, hlong⟩

/-- What stands where the path is placed, unless it is a link, is what `stat` finds. -/
theorem stat_of_place (hplace : tree.place path = .ok location)
    (hnode : tree.lookup location = some node) (hlink : ∀ target, node ≠ .link target) :
    tree.stat path = .ok ⟨location, node⟩ := by
  cases path with
  | nil =>
    obtain rfl : location = [] := by simpa [Tree.place, eq_comm] using hplace
    exact stat_settled hnode hlink
  | cons name directory =>
    obtain ⟨hlegal, real, rfl, hwalk, -⟩ := place_eq_ok.mp hplace
    refine stat_eq_ok.mpr ⟨resolve_eq_ok.mpr ⟨hlegal, ?_⟩, hnode⟩
    obtain ⟨left, _, hmore⟩ := tree.walk_append hwalk
    rw [components_cons, hmore, tree.walk_move (tree.step_settled ⟨node, hnode, hlink⟩),
      walk_nil]

/-- A path in a directory that is there is placed in that directory. -/
theorem eq_of_place {real entry : Location} (hstat : tree.stat directory = .ok ⟨real, .directory⟩)
    (hplace : tree.place (name :: directory) = .ok entry) : entry = name :: real := by
  obtain ⟨_, other, rfl, hwalk, _⟩ := place_eq_ok.mp hplace
  have hreal : tree.walk systemLinks [] (components directory) = .ok real :=
    (resolve_eq_ok.mp (stat_eq_ok.mp hstat).1).2
  rw [hreal, Except.ok.injEq] at hwalk
  rw [hwalk]

theorem place_of_directory {directory : Location}
    (hdirectory : tree.lookup directory = some .directory)
    (hplace : tree.place (name :: directory) = .ok location) : location = name :: directory :=
  eq_of_place (stat_directory hdirectory) hplace

theorem lstat_eq_ok :
    tree.lstat path = .ok info ↔
      tree.place path = .ok info.location ∧ tree.lookup info.location = some info.node := by
  unfold Tree.lstat
  cases tree.place path with
  | error error => simp [bind, Except.bind]
  | ok location =>
    simp only [bind, Except.bind, info_eq_ok, Except.ok.injEq]
    constructor
    · rintro ⟨rfl, hnode⟩
      exact ⟨rfl, hnode⟩
    · rintro ⟨rfl, hnode⟩
      exact ⟨rfl, hnode⟩

/-! ## What a change does to the tree -/

theorem lookup_replace (hreplace : tree.replace location node = .ok after) (other : Location) :
    after.lookup other = if other = location then some node else tree.lookup other := by
  cases location with
  | nil => simp [Tree.replace] at hreplace
  | cons name directory =>
    rw [Tree.replace] at hreplace
    split at hreplace
    · next h =>
      rw [Except.ok.injEq] at hreplace
      rw [← hreplace, lookup_put]
    · simp at hreplace

theorem replace_eq_ok {directory : Location} (hdirectory : tree.lookup directory = some .directory)
    (hentry : tree.lookup (name :: directory) ≠ some .directory) (hname : Legal name directory) :
    ∃ after, tree.replace (name :: directory) node = .ok after :=
  ⟨_, dif_pos ⟨hdirectory, hentry, hname⟩⟩

theorem create_eq_ok :
    tree.create location node = .ok after ↔
      tree.lookup location = none ∧ tree.replace location node = .ok after := by
  unfold Tree.create
  cases tree.lookup location <;> simp

theorem unlink_eq_ok (hunlink : tree.unlink location = .ok (after, node)) :
    tree.lookup location = some node ∧ node ≠ .directory ∧
      ∀ other, after.lookup other = if other = location then none else tree.lookup other := by
  cases location with
  | nil => simp [Tree.unlink] at hunlink
  | cons name directory =>
    rw [Tree.unlink] at hunlink
    cases hnode : tree.lookup (name :: directory) with
    | none => simp [hnode] at hunlink
    | some found =>
      simp only [hnode] at hunlink
      split at hunlink
      · next h =>
        rw [Except.ok.injEq, Prod.mk.injEq] at hunlink
        obtain ⟨rfl, rfl⟩ := hunlink
        exact ⟨rfl, fun heq => h (by rw [heq]), fun other => lookup_remove _ _ _⟩
      · simp at hunlink

end Tree

end FileTree
