import ReuleauxCoder.Library.Check
import ReuleauxCoder.Library.FileSystem

/-!
# Making directories and files

Where `MkdirAll` starts on a path can be told before it runs: at the directory itself, or at
the first entry that it makes.  What is made afterwards lies below that place.
-/

namespace FileTree

open PyText List

/-- The directory at the path, or the first entry that `MkdirAll` makes for it. -/
def footing (tree : Tree) : Path → Option Location
  | [] => some []
  | name :: parent =>
    match tree.stat (name :: parent) with
    | .ok info => if info.node = .directory then some info.location else none
    | .error _ =>
      match tree.stat parent with
      | .error _ => footing tree parent
      | .ok _ =>
        match tree.place (name :: parent) with
        | .error _ => none
        | .ok location => if tree.lookup location = none then some location else none

namespace FileOp

variable {world : World} {path : Path}

/-! ## Single calls -/

variable {error : Errno} {location : Location}

theorem createNode_error (hplace : world.tree.place path = .error error) (node : Node) :
    createNode path node world = (.error error, world) := by
  simp [createNode, change, hplace, bind, Except.bind]

theorem createNode_exist {found : Node} (hplace : world.tree.place path = .ok location)
    (hfound : world.tree.lookup location = some found) (node : Node) :
    createNode path node world = (.error .exist, world) := by
  simp [createNode, change, hplace, bind, Except.bind, Tree.create, hfound]

theorem createNode_ok (hplace : world.tree.place path = .ok location)
    (habsent : world.tree.lookup location = none) (node : Node) :
    ∃ after : Tree, createNode path node world =
        (.ok (), ⟨after, world.accesses ++ [.create location]⟩) ∧
      ∀ other, after.lookup other =
        if other = location then some node else world.tree.lookup other := by
  cases path with
  | nil =>
    obtain rfl : location = [] := by simpa [Tree.place, eq_comm] using hplace
    simp at habsent
  | cons name directory =>
    obtain ⟨_, real, rfl, _, hreal, _⟩ := Tree.place_eq_ok.mp hplace
    have hname := Tree.legal_of_place hplace
    obtain ⟨after, hafter⟩ : ∃ after, world.tree.replace (name :: real) node = .ok after :=
      Tree.replace_eq_ok hreal (by simp [habsent]) hname
    have hcreate : world.tree.create (name :: real) node = .ok after :=
      Tree.create_eq_ok.mpr ⟨habsent, hafter⟩
    refine ⟨after, ?_, Tree.lookup_replace hafter⟩
    simp [createNode, change, hplace, bind, Except.bind, hcreate, pure, Except.pure]

/-- What a call that renames does, where it does something. -/
inductive Renamed (world : World) (source target : Path) : Except Errno Unit × World → Prop
  | failed (error : Errno) : Renamed world source target (.error error, world)
  | moved (start finish : Location) (node : Node) (after : Tree)
      (hsource : world.tree.place source = .ok start)
      (htarget : world.tree.place target = .ok finish)
      (hnode : world.tree.lookup start = some node)
      (hlookup : ∀ other, after.lookup other =
        if other = finish then some node
        else if other = start then none else world.tree.lookup other) :
      Renamed world source target (.ok (), ⟨after, world.accesses ++ [.replace finish]⟩)

theorem rename_renamed (world : World) (source target : Path) :
    Renamed world source target (rename source target world) := by
  cases hsource : world.tree.place source with
  | error error =>
    have hrename : rename source target world = (.error error, world) := by
      simp [rename, change, hsource, bind, Except.bind]
    exact hrename ▸ .failed error
  | ok start =>
    cases htarget : world.tree.place target with
    | error error =>
      have hrename : rename source target world = (.error error, world) := by
        simp [rename, change, hsource, htarget, bind, Except.bind]
      exact hrename ▸ .failed error
    | ok finish =>
      cases hchange : world.tree.rename start finish with
      | error error =>
        have hrename : rename source target world = (.error error, world) := by
          simp [rename, change, hsource, htarget, bind, Except.bind, hchange]
        exact hrename ▸ .failed error
      | ok after =>
        have hrename : rename source target world =
            (.ok (), ⟨after, world.accesses ++ [.replace finish]⟩) := by
          simp [rename, change, hsource, htarget, bind, Except.bind, hchange, pure,
            Except.pure]
        rw [hrename]
        cases hunlink : world.tree.unlink start with
        | error error => simp [Tree.rename, hunlink, bind, Except.bind] at hchange
        | ok rest =>
          obtain ⟨rest, node⟩ := rest
          obtain ⟨hnode, _, hrest⟩ := Tree.unlink_eq_ok hunlink
          have hreplace : rest.replace finish node = .ok after := by
            simpa [Tree.rename, hunlink, bind, Except.bind] using hchange
          refine .moved start finish node after hsource htarget hnode (fun other => ?_)
          rw [Tree.lookup_replace hreplace, hrest]

theorem remove_accesses (world : World) (path : Path) :
    (remove path world).2.accesses = world.accesses := by
  rw [remove]
  split <;> rfl

variable {node : Node}

/-- Removing adds no entry. -/
theorem lookup_of_remove (hnode : (remove path world).2.tree.lookup location = some node) :
    world.tree.lookup location = some node := by
  rw [remove] at hnode
  split at hnode
  · exact hnode
  · next after found hunlink =>
    obtain ⟨place, _, hplace⟩ := Check.bind_eq_ok.mp hunlink
    have hlookup := (Tree.unlink_eq_ok hplace).2.2 location
    rw [hlookup] at hnode
    split at hnode
    · cases hnode
    · exact hnode

/-! ## `MkdirAll` -/

/-- Entries are added, the first of them at `first` and the others below it. -/
structure Extends (world : World) (first : Location) (after : World) : Prop where
  keeps : ∀ location node, world.tree.lookup location = some node →
    after.tree.lookup location = some node
  grows : ∀ access ∈ world.accesses, access ∈ after.accesses
  starts : Access.create first ∈ after.accesses
  below : ∀ access ∈ after.accesses, access ∈ world.accesses ∨ first <:+ access.location

/-- How `MkdirAll` ends, told by its footing. -/
inductive Made (world : World) (directory : Path) : Except Errno Unit × World → Prop
  | failed (error : Errno) (hfooting : footing world.tree directory = none) :
      Made world directory (.error error, world)
  | there (location : Location)
      (hstat : world.tree.stat directory = .ok ⟨location, .directory⟩)
      (hfooting : footing world.tree directory = some location) :
      Made world directory (.ok (), world)
  | started (first : Location) (error : Errno) (after : World)
      (hmissing : ∀ info, world.tree.stat directory ≠ .ok info)
      (hfooting : footing world.tree directory = some first)
      (habsent : world.tree.lookup first = none) (hextends : Extends world first after)
      (hfailed : ∀ info, after.tree.stat directory ≠ .ok info) :
      Made world directory (.error error, after)
  | made (first location : Location) (after : World)
      (hmissing : ∀ info, world.tree.stat directory ≠ .ok info)
      (hfooting : footing world.tree directory = some first)
      (habsent : world.tree.lookup first = none) (hextends : Extends world first after)
      (hbelow : first <:+ location)
      (hstat : after.tree.stat directory = .ok ⟨location, .directory⟩)
      (hempty : ∀ name, after.tree.lookup (name :: location) = none) :
      Made world directory (.ok (), after)

variable {tree : Tree} {name : Name} {parent : Path}

variable {directory : Path} {info : Info}

/-- Nothing is found below a path at which nothing is found. -/
theorem resolve_below_missing (hmissing : ∀ info, tree.stat directory ≠ .ok info) (name : Name)
    (location : Location) : tree.resolve (name :: directory) ≠ .ok location := by
  intro hresolve
  obtain ⟨hlegal, hwalk⟩ := Tree.resolve_eq_ok.mp hresolve
  cases hstat : tree.stat directory with
  | ok info => exact hmissing info hstat
  | error error =>
    have herror := Tree.resolve_of_stat_error hstat
    rw [Tree.resolve_eq_walk (not_refused_tail hlegal)] at herror
    rw [components_cons, tree.walk_append_error herror] at hwalk
    cases hwalk

/-- Nothing stands in an empty directory. -/
theorem resolve_in_empty (hstat : tree.stat directory = .ok ⟨location, .directory⟩)
    (hempty : tree.lookup (name :: location) = none) (place : Location) :
    tree.resolve (name :: directory) ≠ .ok place := by
  intro hresolve
  obtain ⟨hdirectory, hnode⟩ := Tree.stat_eq_ok.mp hstat
  obtain ⟨left, _, hmore⟩ := tree.walk_append (Tree.resolve_eq_ok.mp hdirectory).2
  have hwalk := (Tree.resolve_eq_ok.mp hresolve).2
  have hstep : tree.step location (.name name) =
      .stop (if TooLong name then .nametoolong else .noent) := by
    simp [Tree.step, hnode, hempty]
  rw [components_cons, hmore, tree.walk_stop hstep] at hwalk
  cases hwalk

theorem no_child_of_absent (habsent : tree.lookup location = none) (name : Name) :
    tree.lookup (name :: location) = none := by
  cases hnode : tree.lookup (name :: location) with
  | none => rfl
  | some node =>
    have hdirectory := tree.lookup_tail hnode
    rw [habsent] at hdirectory
    cases hdirectory

/-- A directory made in a directory that is there. -/
theorem stat_made {after : Tree} (hlegal : ¬Refused (name :: parent))
    (hparent : tree.stat parent = .ok ⟨location, .directory⟩)
    (hlookup : ∀ other, after.lookup other =
      if other = name :: location then some .directory else tree.lookup other)
    (habsent : tree.lookup (name :: location) = none) :
    after.stat (name :: parent) = .ok ⟨name :: location, .directory⟩ := by
  have hkeeps : ∀ place node, tree.lookup place = some node → after.lookup place = some node := by
    intro place node hnode
    rw [hlookup, if_neg (fun heq => by rw [heq, habsent] at hnode; cases hnode)]
    exact hnode
  obtain ⟨hresolve, hnode⟩ := Tree.stat_eq_ok.mp hparent
  obtain ⟨hrefused, hwalk⟩ := Tree.resolve_eq_ok.mp hresolve
  have hstat : after.stat parent = .ok ⟨location, .directory⟩ :=
    Tree.stat_eq_ok.mpr
      ⟨Tree.resolve_eq_ok.mpr ⟨hrefused, Tree.walk_of_subtree hkeeps hwalk⟩, hkeeps _ _ hnode⟩
  have hmade : after.lookup (name :: location) = some .directory := by rw [hlookup, if_pos rfl]
  refine Tree.stat_eq_ok.mpr ⟨Tree.resolve_eq_ok.mpr ⟨hlegal, ?_⟩, hmade⟩
  obtain ⟨left, _, hmore⟩ :=
    after.walk_append (Tree.resolve_eq_ok.mp (Tree.stat_eq_ok.mp hstat).1).2
  rw [components_cons, hmore,
    after.walk_move (after.step_settled ⟨.directory, hmade, fun _ => nofun⟩), after.walk_nil]

theorem mkdirAll_of_stat (hstat : world.tree.stat (name :: parent) = .ok info) :
    mkdirAll (name :: parent) world =
      (if info.node = .directory then .ok () else .error .notdir, world) := by
  simp only [mkdirAll, bind_apply, stat_apply, hstat, pure_apply]

/-- The last directory, when the ones before it are there. -/
def mkdirLast (path : Path) (world : World) : Except Errno Unit × World :=
  match mkdir path world with
  | (.ok (), after) => (.ok (), after)
  | (.error error, after) =>
    match after.tree.lstat path with
    | .ok info => (if info.node = .directory then .ok () else .error error, after)
    | .error _ => (.error error, after)

theorem mkdirAll_of_missing (hstat : world.tree.stat (name :: parent) = .error error) :
    mkdirAll (name :: parent) world =
      match mkdirAll parent world with
      | (.error error, after) => (.error error, after)
      | (.ok (), after) => mkdirLast (name :: parent) after := by
  simp only [mkdirAll, bind_apply, stat_apply, hstat]
  rcases mkdirAll parent world with ⟨_ | ⟨⟩, after⟩
  · rfl
  · simp only [mkdirLast, bind_apply]
    rcases mkdir (name :: parent) after with ⟨_ | ⟨⟩, made⟩
    · simp only [bind_apply, lstat_apply]
      cases made.tree.lstat (name :: parent) <;> rfl
    · rfl

theorem mkdirLast_eq_ok (hplace : world.tree.place (name :: parent) = .ok location)
    (hnode : world.tree.lookup location = some info.node) :
    mkdirLast (name :: parent) world =
      (if info.node = .directory then .ok () else .error .exist, world) := by
  have hlstat : world.tree.lstat (name :: parent) = .ok ⟨location, info.node⟩ :=
    Tree.lstat_eq_ok.mpr ⟨hplace, hnode⟩
  simp only [mkdirLast, mkdir, createNode_exist hplace hnode, hlstat]

theorem mkdirLast_eq_error {path : Path} (hplace : world.tree.place path = .error error) :
    mkdirLast path world = (.error error, world) := by
  have hlstat : world.tree.lstat path = .error error := by
    simp [Tree.lstat, hplace, bind, Except.bind]
  simp only [mkdirLast, mkdir, createNode_error hplace, hlstat]

theorem place_error_of_stat (hstat : tree.stat parent = .ok info) (hnode : info.node ≠ .directory) :
    ∃ error, tree.place (name :: parent) = .error error := by
  cases hplace : tree.place (name :: parent) with
  | error error => exact ⟨error, rfl⟩
  | ok location =>
    obtain ⟨_, real, _, hwalk, hreal, _⟩ := Tree.place_eq_ok.mp hplace
    obtain ⟨hresolve, hinfo⟩ := Tree.stat_eq_ok.mp hstat
    have hsame := (Tree.resolve_eq_ok.mp hresolve).2
    rw [hwalk, Except.ok.injEq] at hsame
    rw [← hsame, hreal, Option.some.injEq] at hinfo
    exact absurd hinfo.symm hnode

theorem footing_of_stat (hstat : tree.stat directory = .ok ⟨location, .directory⟩) :
    footing tree directory = some location := by
  cases directory with
  | nil =>
    obtain ⟨hresolve, _⟩ := Tree.stat_eq_ok.mp hstat
    have hwalk := (Tree.resolve_eq_ok.mp hresolve).2
    rw [components, reverse_nil, map_nil, Tree.walk_nil, Except.ok.injEq] at hwalk
    rw [footing, hwalk]
  | cons name parent => simp [footing, hstat]

/-- The footing of a missing directory in one that is there. -/
theorem footing_last (hmissing : tree.stat (name :: parent) = .error error)
    (hparent : tree.stat parent = .ok info) :
    footing tree (name :: parent) =
      match tree.place (name :: parent) with
      | .error _ => none
      | .ok location => if tree.lookup location = none then some location else none := by
  simp only [footing, hmissing, hparent]

theorem footing_above (hmissing : tree.stat (name :: parent) = .error error)
    (hparent : ∀ info, tree.stat parent ≠ .ok info) :
    footing tree (name :: parent) = footing tree parent := by
  cases hstat : tree.stat parent with
  | error other => simp only [footing, hmissing, hstat]
  | ok info => exact absurd hstat (hparent info)

/-- One more entry below the first one. -/
theorem Extends.create {first : Location} {after : World} {made : Tree}
    (hextends : Extends world first after) (hbelow : first <:+ location)
    (habsent : after.tree.lookup location = none) (hlookup : ∀ other, made.lookup other =
      if other = location then some node else after.tree.lookup other) :
    Extends world first ⟨made, after.accesses ++ [.create location]⟩ where
  keeps := by
    intro place found hfound
    have hafter := hextends.keeps place found hfound
    rw [hlookup, if_neg (fun heq => by rw [heq, habsent] at hafter; cases hafter)]
    exact hafter
  grows := fun access haccess => mem_append_left _ (hextends.grows access haccess)
  starts := mem_append_left _ hextends.starts
  below := by
    intro access haccess
    rcases mem_append.mp haccess with hold | hnew
    · exact hextends.below access hold
    · obtain rfl := mem_singleton.mp hnew
      exact .inr hbelow

/-- The first entry that is made. -/
theorem Extends.start {made : Tree} (habsent : world.tree.lookup location = none)
    (hlookup : ∀ other, made.lookup other =
      if other = location then some node else world.tree.lookup other) :
    Extends world location ⟨made, world.accesses ++ [.create location]⟩ where
  keeps := by
    intro place found hfound
    rw [hlookup, if_neg (fun heq => by rw [heq, habsent] at hfound; cases hfound)]
    exact hfound
  grows := fun _ haccess => mem_append_left _ haccess
  starts := mem_append_right _ (mem_singleton_self _)
  below := by
    intro access haccess
    rcases mem_append.mp haccess with hold | hnew
    · exact .inl hold
    · obtain rfl := mem_singleton.mp hnew
      exact .inr suffix_rfl

/-- The last directory is made in one that was there before. -/
theorem made_last (hmissing : world.tree.stat (name :: parent) = .error error)
    (hparent : world.tree.stat parent = .ok ⟨location, .directory⟩) :
    Made world (name :: parent) (mkdirLast (name :: parent) world) := by
  have hfooting := footing_last hmissing hparent
  cases hplace : world.tree.place (name :: parent) with
  | error failed =>
    rw [mkdirLast_eq_error hplace]
    exact .failed failed (by rw [hfooting, hplace])
  | ok entry =>
    have hlegal := (Tree.place_eq_ok.mp hplace).1
    obtain rfl : entry = name :: location := Tree.eq_of_place hparent hplace
    cases hnode : world.tree.lookup (name :: location) with
    | some node =>
      have hfound : world.tree.lookup (name :: location) =
          some (Info.mk (name :: location) node).node := hnode
      rw [mkdirLast_eq_ok hplace hfound, if_neg]
      · exact .failed .exist (by simp [hfooting, hplace, hnode])
      · rintro rfl
        rw [Tree.stat_of_place hplace hnode (fun _ => nofun)] at hmissing
        cases hmissing
    | none =>
      obtain ⟨made, hmkdir, hlookup⟩ := createNode_ok hplace hnode .directory
      have hlast : mkdirLast (name :: parent) world =
          (.ok (), ⟨made, world.accesses ++ [.create (name :: location)]⟩) := by
        simp only [mkdirLast, mkdir, hmkdir]
      rw [hlast]
      refine .made (name :: location) (name :: location) _
        (fun info heq => by rw [heq] at hmissing; cases hmissing)
        (by simp [hfooting, hplace, hnode]) hnode (.start hnode hlookup) suffix_rfl
        (stat_made hlegal hparent hlookup hnode) (fun child => ?_)
      rw [hlookup, if_neg (cons_ne_self _ _)]
      exact no_child_of_absent hnode child

/-- The last directory is made in one that has just been made. -/
theorem made_more {first : Location} {after : World}
    (hmissing : world.tree.stat (name :: parent) = .error error)
    (hfooting : footing world.tree (name :: parent) = some first)
    (habsent : world.tree.lookup first = none) (hextends : Extends world first after)
    (hbelow : first <:+ location) (hstat : after.tree.stat parent = .ok ⟨location, .directory⟩)
    (hempty : ∀ child, after.tree.lookup (child :: location) = none) :
    Made world (name :: parent) (mkdirLast (name :: parent) after) := by
  have hmissing' : ∀ info, world.tree.stat (name :: parent) ≠ .ok info :=
    fun info heq => by rw [heq] at hmissing; cases hmissing
  cases hplace : after.tree.place (name :: parent) with
  | error failed =>
    rw [mkdirLast_eq_error hplace]
    refine .started first failed after hmissing' hfooting habsent hextends fun info heq => ?_
    exact resolve_in_empty hstat (hempty name) _ (Tree.stat_eq_ok.mp heq).1
  | ok entry =>
    have hlegal := (Tree.place_eq_ok.mp hplace).1
    obtain rfl : entry = name :: location := Tree.eq_of_place hstat hplace
    have hnone := hempty name
    have hsuffix : first <:+ name :: location := hbelow.trans (suffix_cons name location)
    obtain ⟨made, hmkdir, hlookup⟩ := createNode_ok hplace hnone .directory
    have hlast : mkdirLast (name :: parent) after =
        (.ok (), ⟨made, after.accesses ++ [.create (name :: location)]⟩) := by
      simp only [mkdirLast, mkdir, hmkdir]
    rw [hlast]
    refine .made first (name :: location) _ hmissing' hfooting habsent
      (hextends.create hsuffix hnone hlookup) hsuffix
      (stat_made hlegal hstat hlookup hnone) (fun child => ?_)
    rw [hlookup, if_neg (cons_ne_self _ _)]
    exact no_child_of_absent hnone child

theorem mkdirAll_made (world : World) (directory : Path) :
    Made world directory (mkdirAll directory world) := by
  induction directory with
  | nil => exact .there [] (Tree.stat_directory world.tree.lookup_nil) rfl
  | cons name parent ih =>
    cases hstat : world.tree.stat (name :: parent) with
    | ok info =>
      rw [mkdirAll_of_stat hstat]
      obtain ⟨location, node⟩ := info
      split
      · next hnode =>
        obtain rfl : node = .directory := hnode
        exact .there location hstat (footing_of_stat hstat)
      · next hnode => exact .failed .notdir (by simp [footing, hstat, hnode])
    | error error =>
      rw [mkdirAll_of_missing hstat]
      generalize hmade : mkdirAll parent world = result at ih
      cases ih with
      | failed failed hfooting =>
        refine .failed failed ?_
        cases hparent : world.tree.stat parent with
        | error other => rw [footing_above hstat (fun info => by rw [hparent]; exact nofun), hfooting]
        | ok info =>
          by_cases hnode : info.node = .directory
          · obtain ⟨location, node⟩ := info
            obtain rfl : node = .directory := hnode
            rw [footing_of_stat hparent] at hfooting
            cases hfooting
          · obtain ⟨other, hplace⟩ : ∃ error, world.tree.place (name :: parent) = .error error :=
              place_error_of_stat hparent hnode
            rw [footing_last hstat hparent, hplace]
      | there location hparent hfooting => exact made_last hstat hparent
      | started first failed after hmissing hfooting habsent hextends hfailed =>
        exact .started first failed after (fun info => by rw [hstat]; exact nofun)
          (by rw [footing_above hstat hmissing, hfooting]) habsent hextends
          (fun info heq => resolve_below_missing hfailed name _ (Tree.stat_eq_ok.mp heq).1)
      | made first location after hmissing hfooting habsent hextends hbelow hparent hempty =>
        exact made_more hstat (by rw [footing_above hstat hmissing, hfooting]) habsent hextends
          hbelow hparent hempty

end FileOp

end FileTree
