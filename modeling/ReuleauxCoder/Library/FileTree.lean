import ReuleauxCoder.Library.Text

/-!
# File trees with symbolic links

A tree gives every location at most one directory, file or link, and an entry's directory is
a directory.  A path is walked as the system walks it: component by component, each link
replaced by its target, with a bound on the links of one walk.
-/

namespace FileTree

open PyText List

abbrev Name := Text

/-- The names from an entry up to the root, deepest first; `[]` is `/`. -/
abbrev Location := List Name

inductive Component where
  | here
  | up
  | name (name : Name)
  deriving DecidableEq

/-- Where a link points. -/
structure Target where
  absolute : Bool
  components : List Component
  deriving DecidableEq

inductive Node where
  | directory
  | file (content : Text)
  | link (target : Target)
  deriving DecidableEq

inductive Errno where
  | noent
  | notdir
  | isdir
  | exist
  | loop
  | inval
  | nametoolong
  deriving DecidableEq

/-- What stands at a location; the root is always a directory. -/
def find (entries : List (Location × Node)) : Location → Option Node
  | [] => some .directory
  | name :: directory => entries.lookup (name :: directory)

/-- A name that no path can hold. -/
def hasNul (name : Name) : Prop := (0 : CodePoint) ∈ name

instance (name : Name) : Decidable (hasNul name) :=
  inferInstanceAs (Decidable ((0 : CodePoint) ∈ name))

/-- `NAME_MAX`: no directory holds a name of more than 255 bytes. -/
def TooLong (name : Name) : Prop := 255 < utf8Size name

/-- `PATH_MAX`: no call takes a path of 4096 bytes, each name with the slash in front of it. -/
def Overlong (path : List Name) : Prop :=
  4096 ≤ (path.map fun name => utf8Size name + 1).sum

/-- What may stand under the name in the directory. -/
def Legal (name : Name) (directory : Location) : Prop :=
  ¬hasNul name ∧ ¬TooLong name ∧ ¬Overlong (name :: directory)

instance (name : Name) : Decidable (TooLong name) :=
  inferInstanceAs (Decidable (255 < _))

instance (path : List Name) : Decidable (Overlong path) :=
  inferInstanceAs (Decidable (4096 ≤ _))

instance (name : Name) (directory : Location) : Decidable (Legal name directory) :=
  inferInstanceAs (Decidable (_ ∧ _))

/-- No entry stands deeper than a path can name. -/
structure Tree where
  entries : List (Location × Node)
  parents : ∀ name directory node,
    find entries (name :: directory) = some node → find entries directory = some .directory
  legal : ∀ name directory node,
    find entries (name :: directory) = some node → Legal name directory

/-- Every entry of a list stands in a directory of the list, under a name that is legal. -/
def isTree (entries : List (Location × Node)) : Bool :=
  entries.all fun entry =>
    match entry.1 with
    | [] => true
    | name :: directory =>
        decide (find entries directory = some .directory) && decide (Legal name directory)

variable {directory location real target : Location} {name : Name} {component : Component}
  {links : ℕ} {path : List Component}

variable {node : Node}

theorem isTree_entry {entries : List (Location × Node)} (htree : isTree entries = true)
    (hfound : find entries (name :: directory) = some node) :
    find entries directory = some .directory ∧ Legal name directory := by
  obtain ⟨before, after, rfl, _⟩ := lookup_eq_some_iff.mp hfound
  have hentry := all_eq_true.mp htree ⟨name :: directory, node⟩ (by simp)
  simpa only [Bool.and_eq_true, decide_eq_true_eq] using hentry

namespace Tree

def ofEntries (entries : List (Location × Node)) (htree : isTree entries = true) : Tree where
  entries
  parents := fun _ _ _ hfound => (isTree_entry htree hfound).1
  legal := fun _ _ _ hfound => (isTree_entry htree hfound).2

def lookup (tree : Tree) (location : Location) : Option Node :=
  find tree.entries location

@[simp]
theorem lookup_nil (tree : Tree) : tree.lookup [] = some .directory := rfl

theorem not_hasNul (tree : Tree) (hnode : tree.lookup location = some node) :
    ∀ name ∈ location, ¬hasNul name := by
  induction location generalizing node with
  | nil => simp
  | cons name directory ih =>
    intro other hother
    rcases mem_cons.mp hother with rfl | hrest
    · exact (tree.legal other directory node hnode).1
    · exact ih (tree.parents name directory node hnode) other hrest

theorem lookup_tail (tree : Tree) (hnode : tree.lookup (name :: directory) = some node) :
    tree.lookup directory = some .directory :=
  tree.parents name directory node hnode

/-! ## Changing an entry -/

private theorem lookup_filter_self (entries : List (Location × Node)) (location : Location) :
    (entries.filter fun entry => entry.1 ≠ location).lookup location = none := by
  rw [lookup_eq_none_iff]
  intro entry hentry
  have hne : entry.1 ≠ location := of_decide_eq_true (mem_filter.mp hentry).2
  exact bne_iff_ne.mpr hne.symm

private theorem lookup_filter_ne (entries : List (Location × Node)) {other : Location}
    (hne : other ≠ location) :
    (entries.filter fun entry => entry.1 ≠ location).lookup other = entries.lookup other := by
  induction entries with
  | nil => rfl
  | cons entry entries ih =>
    obtain ⟨key, node⟩ := entry
    by_cases hkey : key = location
    · subst hkey
      have hother : (other == key) = false := beq_eq_false_iff_ne.mpr hne
      simp only [filter_cons, ne_eq, not_true_eq_false, decide_false,
        Bool.false_eq_true, if_false, List.lookup_cons, hother, ih]
    · simp only [filter_cons, hkey, ne_eq, not_false_eq_true, decide_true, if_true,
        List.lookup_cons, ih]

/-- The entries with one location set or emptied. -/
def assign (entries : List (Location × Node)) (location : Location) (node : Option Node) :
    List (Location × Node) :=
  (node.map fun node => (location, node)).toList ++
    entries.filter fun entry => entry.1 ≠ location

theorem find_assign (entries : List (Location × Node)) (hlocation : location ≠ [])
    (node : Option Node) (other : Location) :
    find (assign entries location node) other =
      if other = location then node else find entries other := by
  cases other with
  | nil => simp [find, Ne.symm hlocation]
  | cons name directory =>
    by_cases hother : name :: directory = location
    · subst hother
      cases node with
      | none => simpa [find, assign] using lookup_filter_self entries (name :: directory)
      | some node => simp [find, assign]
    · have hkey : (name :: directory == location) = false := by simpa using hother
      rw [if_neg hother]
      cases node with
      | none => simpa [find, assign] using lookup_filter_ne entries hother
      | some node =>
        simpa [find, assign, List.lookup_cons, hkey] using lookup_filter_ne entries hother

/-- Put `node` at a location whose directory is there and that is no directory itself. -/
def put (tree : Tree) (name : Name) (directory : Location) (node : Node)
    (hparent : tree.lookup directory = some .directory)
    (hentry : tree.lookup (name :: directory) ≠ some .directory) (hname : Legal name directory) :
    Tree where
  entries := assign tree.entries (name :: directory) (some node)
  parents := by
    intro child parent found hfound
    rw [find_assign _ (cons_ne_nil _ _)] at hfound ⊢
    split at hfound
    · next heq =>
      obtain ⟨rfl, rfl⟩ := List.cons.inj heq
      rw [if_neg (cons_ne_self _ _).symm]
      exact hparent
    · have hdirectory := tree.parents child parent found hfound
      split
      · next heq => exact absurd (heq ▸ hdirectory) hentry
      · exact hdirectory
  legal := by
    intro child parent found hfound
    rw [find_assign _ (cons_ne_nil _ _)] at hfound
    split at hfound
    · next heq =>
      obtain ⟨rfl, rfl⟩ := List.cons.inj heq
      exact hname
    · exact tree.legal child parent found hfound

@[simp]
theorem lookup_put (tree : Tree) (hparent : tree.lookup directory = some .directory)
    (hentry : tree.lookup (name :: directory) ≠ some .directory) (hname : Legal name directory)
    (other : Location) :
    (tree.put name directory node hparent hentry hname).lookup other =
      if other = name :: directory then some node else tree.lookup other :=
  find_assign _ (cons_ne_nil _ _) _ _

/-- Take away an entry that is no directory. -/
def remove (tree : Tree) (name : Name) (directory : Location)
    (hentry : tree.lookup (name :: directory) ≠ some .directory) : Tree where
  entries := assign tree.entries (name :: directory) none
  parents := by
    intro child parent found hfound
    rw [find_assign _ (cons_ne_nil _ _)] at hfound ⊢
    split at hfound
    · simp at hfound
    · have hdirectory := tree.parents child parent found hfound
      split
      · next heq => exact absurd (heq ▸ hdirectory) hentry
      · exact hdirectory
  legal := by
    intro child parent found hfound
    rw [find_assign _ (cons_ne_nil _ _)] at hfound
    split at hfound
    · simp at hfound
    · exact tree.legal child parent found hfound

@[simp]
theorem lookup_remove (tree : Tree) (hentry : tree.lookup (name :: directory) ≠ some .directory)
    (other : Location) :
    (tree.remove name directory hentry).lookup other =
      if other = name :: directory then none else tree.lookup other :=
  find_assign _ (cons_ne_nil _ _) _ _

/-- The names in a directory. -/
def children (tree : Tree) (directory : Location) : List Name :=
  (tree.entries.filterMap fun entry =>
    match entry.1 with
    | [] => none
    | name :: parent => if parent = directory then some name else none).dedup

/-! ## Walking -/

/-- What one component does to a walk that has come to `real`. -/
inductive Step where
  | stop (error : Errno)
  | move (real : Location)
  | jump (base : Location) (components : List Component)

def step (tree : Tree) (real : Location) (component : Component) : Step :=
  if tree.lookup real = some .directory then
    match component with
    | .here => .move real
    | .up => .move real.tail
    | .name name =>
      match tree.lookup (name :: real) with
      | none => .stop (if TooLong name then .nametoolong else .noent)
      | some (.link target) => .jump (if target.absolute then [] else real) target.components
      | some _ => .move (name :: real)
  else .stop .notdir

/-- Walk until the first link, which `follow` takes over with the components after it. -/
def walkNames (tree : Tree) (follow : Location → List Component → Except Errno Location) :
    Location → List Component → Except Errno Location
  | real, [] => .ok real
  | real, component :: rest =>
    match tree.step real component with
    | .stop error => .error error
    | .move next => tree.walkNames follow next rest
    | .jump base components => follow base (components ++ rest)

/-- Walk from a location, through at most so many links. -/
def walk (tree : Tree) : ℕ → Location → List Component → Except Errno Location
  | 0 => tree.walkNames fun _ _ => .error .loop
  | links + 1 => tree.walkNames (tree.walk links)

variable (tree : Tree)

@[simp]
theorem walk_nil (links : ℕ) (real : Location) : tree.walk links real [] = .ok real := by
  cases links <;> rfl

theorem walk_stop {error : Errno} (hstep : tree.step real component = .stop error) (links : ℕ)
    (rest : List Component) : tree.walk links real (component :: rest) = .error error := by
  cases links <;> simp [walk, walkNames, hstep]

theorem walk_move {next : Location} (hstep : tree.step real component = .move next) (links : ℕ)
    (rest : List Component) :
    tree.walk links real (component :: rest) = tree.walk links next rest := by
  cases links <;> simp [walk, walkNames, hstep]

variable {base : Location} {components : List Component}

theorem walk_jump_zero (hstep : tree.step real component = .jump base components)
    (rest : List Component) : tree.walk 0 real (component :: rest) = .error .loop := by
  simp [walk, walkNames, hstep]

theorem walk_jump (hstep : tree.step real component = .jump base components) (links : ℕ)
    (rest : List Component) :
    tree.walk (links + 1) real (component :: rest) =
      tree.walk links base (components ++ rest) := by
  simp [walk, walkNames, hstep]

/-- A walk ends, stops, moves on within a path, or jumps through one more link. -/
theorem walk_induction {motive : ℕ → Location → List Component → Prop}
    (nil : ∀ links real, motive links real [])
    (stop : ∀ links real component rest error, tree.step real component = .stop error →
      motive links real (component :: rest))
    (move : ∀ links real component rest next, tree.step real component = .move next →
      motive links next rest → motive links real (component :: rest))
    (stuck : ∀ real component rest base components,
      tree.step real component = .jump base components → motive 0 real (component :: rest))
    (jump : ∀ links real component rest base components,
      tree.step real component = .jump base components →
      motive links base (components ++ rest) → motive (links + 1) real (component :: rest))
    (links : ℕ) (real : Location) (path : List Component) : motive links real path := by
  induction links generalizing real path with
  | zero =>
    induction path generalizing real with
    | nil => exact nil 0 real
    | cons component rest ih =>
      cases hstep : tree.step real component with
      | stop error => exact stop 0 real component rest error hstep
      | move next => exact move 0 real component rest next hstep (ih next)
      | jump base components => exact stuck real component rest base components hstep
  | succ links ihlinks =>
    induction path generalizing real with
    | nil => exact nil (links + 1) real
    | cons component rest ih =>
      cases hstep : tree.step real component with
      | stop error => exact stop (links + 1) real component rest error hstep
      | move next => exact move (links + 1) real component rest next hstep (ih next)
      | jump base components =>
        exact jump links real component rest base components hstep (ihlinks base _)

/-- A walk that succeeds on a path goes on from where it ends with the links that are left. -/
theorem walk_append (hwalk : tree.walk links real path = .ok target) :
    ∃ left ≤ links, ∀ more, tree.walk links real (path ++ more) = tree.walk left target more := by
  induction links, real, path using tree.walk_induction with
  | nil links real =>
    rw [walk_nil, Except.ok.injEq] at hwalk
    exact ⟨links, le_rfl, fun more => by rw [nil_append, hwalk]⟩
  | stop links real component rest error hstep =>
    rw [tree.walk_stop hstep] at hwalk
    cases hwalk
  | move links real component rest next hstep ih =>
    rw [tree.walk_move hstep] at hwalk
    obtain ⟨left, hleft, hmore⟩ := ih hwalk
    exact ⟨left, hleft, fun more => by rw [cons_append, tree.walk_move hstep, hmore]⟩
  | stuck real component rest base components hstep =>
    rw [tree.walk_jump_zero hstep] at hwalk
    cases hwalk
  | jump links real component rest base components hstep ih =>
    rw [tree.walk_jump hstep] at hwalk
    obtain ⟨left, hleft, hmore⟩ := ih hwalk
    refine ⟨left, Nat.le_succ_of_le hleft, fun more => ?_⟩
    rw [cons_append, tree.walk_jump hstep, ← append_assoc, hmore]

/-- A walk that fails on a path fails the same way on every longer one. -/
theorem walk_append_error {error : Errno} (hwalk : tree.walk links real path = .error error)
    (more : List Component) : tree.walk links real (path ++ more) = .error error := by
  induction links, real, path using tree.walk_induction with
  | nil links real => simp at hwalk
  | stop links real component rest other hstep =>
    rw [cons_append, tree.walk_stop hstep]
    rwa [tree.walk_stop hstep] at hwalk
  | move links real component rest next hstep ih =>
    rw [cons_append, tree.walk_move hstep]
    exact ih (by rwa [tree.walk_move hstep] at hwalk)
  | stuck real component rest base components hstep =>
    rw [cons_append, tree.walk_jump_zero hstep]
    rwa [tree.walk_jump_zero hstep] at hwalk
  | jump links real component rest base components hstep ih =>
    rw [cons_append, tree.walk_jump hstep, ← append_assoc]
    exact ih (by rwa [tree.walk_jump hstep] at hwalk)

/-- Only the error of too many links depends on their bound. -/
theorem walk_mono {more : ℕ} (hle : links ≤ more)
    (hwalk : tree.walk links real path ≠ .error .loop) :
    tree.walk more real path = tree.walk links real path := by
  induction links, real, path using tree.walk_induction generalizing more with
  | nil links real => simp
  | stop links real component rest error hstep => rw [tree.walk_stop hstep, tree.walk_stop hstep]
  | move links real component rest next hstep ih =>
    rw [tree.walk_move hstep] at hwalk ⊢
    rw [tree.walk_move hstep]
    exact ih hle hwalk
  | stuck real component rest base components hstep =>
    exact absurd (tree.walk_jump_zero hstep rest) hwalk
  | jump links real component rest base components hstep ih =>
    cases more with
    | zero => exact absurd hle (Nat.not_succ_le_zero links)
    | succ more =>
      rw [tree.walk_jump hstep] at hwalk ⊢
      rw [tree.walk_jump hstep]
      exact ih (Nat.le_of_succ_le_succ hle) hwalk

/-! ## Where walks end -/

/-- A directory or a file stands at the location. -/
def Settled (location : Location) : Prop :=
  ∃ node, tree.lookup location = some node ∧ ∀ target, node ≠ .link target

theorem settled_directory (hdirectory : tree.lookup location = some .directory) :
    tree.Settled location :=
  ⟨.directory, hdirectory, fun _ => nofun⟩

theorem settled_tail (hsettled : tree.Settled (name :: directory)) :
    tree.lookup directory = some .directory := by
  obtain ⟨node, hnode, _⟩ := hsettled
  exact tree.lookup_tail hnode

/-- The directory a location stands in, the root standing in itself. -/
theorem lookup_tail_of_directory (hdirectory : tree.lookup location = some .directory) :
    tree.lookup location.tail = some .directory := by
  cases location with
  | nil => rfl
  | cons name directory => exact tree.lookup_tail hdirectory

theorem directory_of_step (hstep : ∀ error, tree.step real component ≠ .stop error) :
    tree.lookup real = some .directory := by
  by_contra hne
  exact hstep .notdir (if_neg hne)

theorem settled_of_move {next : Location} (hstep : tree.step real component = .move next) :
    tree.Settled next := by
  have hdirectory : tree.lookup real = some .directory :=
    tree.directory_of_step fun error heq => by rw [heq] at hstep; cases hstep
  simp only [step, if_pos hdirectory] at hstep
  cases component with
  | here =>
    cases hstep
    exact tree.settled_directory hdirectory
  | up =>
    cases hstep
    exact tree.settled_directory (tree.lookup_tail_of_directory hdirectory)
  | name name =>
    cases hnode : tree.lookup (name :: real) with
    | none => simp [hnode] at hstep
    | some node =>
      cases node with
      | link target => simp [hnode] at hstep
      | directory =>
        simp only [hnode, Step.move.injEq] at hstep
        exact ⟨.directory, hstep ▸ hnode, fun _ => nofun⟩
      | file content =>
        simp only [hnode, Step.move.injEq] at hstep
        exact ⟨.file content, hstep ▸ hnode, fun _ => nofun⟩

theorem directory_of_jump (hstep : tree.step real component = .jump base components) :
    tree.lookup base = some .directory := by
  have hdirectory : tree.lookup real = some .directory :=
    tree.directory_of_step fun error heq => by rw [heq] at hstep; cases hstep
  simp only [step, if_pos hdirectory] at hstep
  cases component with
  | here => cases hstep
  | up => cases hstep
  | name name =>
    cases hnode : tree.lookup (name :: real) with
    | none => simp [hnode] at hstep
    | some node =>
      cases node with
      | link target =>
        simp only [hnode, Step.jump.injEq] at hstep
        rw [← hstep.1]
        split
        · exact tree.lookup_nil
        · exact hdirectory
      | directory => simp [hnode] at hstep
      | file content => simp [hnode] at hstep

theorem settled_of_walk (hreal : tree.Settled real)
    (hwalk : tree.walk links real path = .ok target) : tree.Settled target := by
  induction links, real, path using tree.walk_induction with
  | nil links real =>
    rw [walk_nil, Except.ok.injEq] at hwalk
    exact hwalk ▸ hreal
  | stop links real component rest error hstep =>
    rw [tree.walk_stop hstep] at hwalk
    cases hwalk
  | move links real component rest next hstep ih =>
    exact ih (tree.settled_of_move hstep) (by rwa [tree.walk_move hstep] at hwalk)
  | stuck real component rest base components hstep =>
    rw [tree.walk_jump_zero hstep] at hwalk
    cases hwalk
  | jump links real component rest base components hstep ih =>
    exact ih (tree.settled_directory (tree.directory_of_jump hstep))
      (by rwa [tree.walk_jump hstep] at hwalk)

end Tree

/-! ## Clean paths -/

/-- An absolute path without `.` and `..`, written like a location. -/
abbrev Path := List Name

def components (path : Path) : List Component :=
  path.reverse.map .name

@[simp]
theorem components_cons (name : Name) (directory : Path) :
    components (name :: directory) = components directory ++ [.name name] := by
  simp [components]

namespace Tree

variable (tree : Tree)

/-- The path of a directory leads to it, through no link. -/
theorem walk_components (links : ℕ) (hdirectory : tree.lookup directory = some .directory)
    (more : List Component) :
    tree.walk links [] (components directory ++ more) = tree.walk links directory more := by
  induction directory generalizing more with
  | nil => rfl
  | cons name parent ih =>
    have hparent : tree.lookup parent = some .directory := tree.lookup_tail hdirectory
    have hstep : tree.step parent (.name name) = .move (name :: parent) := by
      simp [step, hparent, hdirectory]
    rw [components_cons, append_assoc, ih hparent, singleton_append,
      tree.walk_move hstep]

theorem step_settled (hsettled : tree.Settled (name :: directory)) :
    tree.step directory (.name name) = .move (name :: directory) := by
  have hparent := tree.settled_tail hsettled
  obtain ⟨node, hnode, hlink⟩ := hsettled
  cases node with
  | link target => exact absurd rfl (hlink target)
  | directory => simp [step, hparent, hnode]
  | file content => simp [step, hparent, hnode]

theorem walk_settled (links : ℕ) (hsettled : tree.Settled location) :
    tree.walk links [] (components location) = .ok location := by
  cases location with
  | nil => simp [components]
  | cons name directory =>
    rw [components_cons, tree.walk_components links (tree.settled_tail hsettled),
      tree.walk_move (tree.step_settled hsettled), walk_nil]

/-! ## Walks in a tree that has changed -/

variable {tree}

variable {other : Tree}

theorem step_of_subtree
    (hsub : ∀ location node, tree.lookup location = some node → other.lookup location = some node)
    (hstep : ∀ error, tree.step real component ≠ .stop error) :
    other.step real component = tree.step real component := by
  have hdirectory := tree.directory_of_step hstep
  have hother := hsub real .directory hdirectory
  simp only [step, hdirectory, hother, if_true] at hstep ⊢
  cases component with
  | here => rfl
  | up => rfl
  | name name =>
    cases hnode : tree.lookup (name :: real) with
    | none => exact absurd (by simp [hnode]) (hstep (if TooLong name then .nametoolong else .noent))
    | some node => simp only [hsub _ _ hnode, hnode]

/-- A walk that succeeds ends in the same place when entries are added. -/
theorem walk_of_subtree
    (hsub : ∀ location node, tree.lookup location = some node → other.lookup location = some node)
    (hwalk : tree.walk links real path = .ok target) :
    other.walk links real path = .ok target := by
  induction links, real, path using tree.walk_induction with
  | nil links real => rwa [walk_nil] at hwalk ⊢
  | stop links real component rest error hstep =>
    rw [tree.walk_stop hstep] at hwalk
    cases hwalk
  | move links real component rest next hstep ih =>
    have hother := step_of_subtree hsub (fun error => by rw [hstep]; exact nofun)
    rw [other.walk_move (hother.trans hstep)]
    exact ih (by rwa [tree.walk_move hstep] at hwalk)
  | stuck real component rest base components hstep =>
    rw [tree.walk_jump_zero hstep] at hwalk
    cases hwalk
  | jump links real component rest base components hstep ih =>
    have hother := step_of_subtree hsub (fun error => by rw [hstep]; exact nofun)
    rw [other.walk_jump (hother.trans hstep)]
    exact ih (by rwa [tree.walk_jump hstep] at hwalk)

/-- Where one location holds a file and nothing else is new, a walk ends there or where it
did before. -/
theorem walk_of_put {content : Text} (hfile : other.lookup location = some (.file content))
    (hrest : ∀ place node, place ≠ location → other.lookup place = some node →
      tree.lookup place = some node) (hwalk : other.walk links real path = .ok target) :
    target = location ∨ tree.walk links real path = .ok target := by
  have hstep_eq : ∀ real component, (∀ error, other.step real component ≠ .stop error) →
      other.step real component = .move location ∨
        tree.step real component = other.step real component := by
    intro real component hstep
    have hdirectory := other.directory_of_step hstep
    have hold : tree.lookup real = some .directory :=
      hrest real .directory (fun heq => by rw [heq, hfile] at hdirectory; cases hdirectory)
        hdirectory
    simp only [step, hdirectory, hold, if_true] at hstep ⊢
    cases component with
    | here => exact .inr rfl
    | up => exact .inr rfl
    | name name =>
      by_cases heq : name :: real = location
      · simp [heq, hfile]
      · cases hnode : other.lookup (name :: real) with
        | none => exact absurd (by simp [hnode]) (hstep (if TooLong name then .nametoolong else .noent))
        | some node => exact .inr (by simp only [hrest _ _ heq hnode, hnode])
  induction links, real, path using other.walk_induction with
  | nil links real => exact .inr (by rwa [walk_nil] at hwalk ⊢)
  | stop links real component rest error hstep =>
    rw [other.walk_stop hstep] at hwalk
    cases hwalk
  | move links real component rest next hstep ih =>
    rw [other.walk_move hstep] at hwalk
    rcases hstep_eq real component (fun error => by rw [hstep]; exact nofun) with hmove | hsame
    · obtain rfl : next = location := by rw [hstep] at hmove; exact Step.move.inj hmove
      cases rest with
      | nil =>
        rw [walk_nil, Except.ok.injEq] at hwalk
        exact .inl hwalk.symm
      | cons component rest =>
        have hstop : other.step next component = .stop .notdir := by simp [step, hfile]
        rw [other.walk_stop hstop] at hwalk
        cases hwalk
    · rw [tree.walk_move (hsame.trans hstep)]
      exact ih hwalk
  | stuck real component rest base components hstep =>
    rw [other.walk_jump_zero hstep] at hwalk
    cases hwalk
  | jump links real component rest base components hstep ih =>
    rw [other.walk_jump hstep] at hwalk
    rcases hstep_eq real component (fun error => by rw [hstep]; exact nofun) with hmove | hsame
    · rw [hstep] at hmove
      cases hmove
    · rw [tree.walk_jump (hsame.trans hstep)]
      exact ih hwalk

end Tree

end FileTree
