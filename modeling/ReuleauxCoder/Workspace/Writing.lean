import ReuleauxCoder.Library.FileChanges
import ReuleauxCoder.Workspace.Execute

/-!
# What a write touches

`atomicWrite` makes the missing directories of its path and then works in the last of them.
Everything that it creates or replaces lies below the footing of that directory.
-/

namespace ReuleauxCoder.Workspace.Files

open PyText FileTree FileTree.FileOp List

variable {σ : Type} {world : World} {name : Name} {directory : Path} {location : Location}

/-- `atomicWrite` once the directory is there. -/
def writeInto (host : Host σ) (path : Path) (content : Text) : FileOp (Except Errno Unit) := do
  let name ← look fun tree => host.temporary tree path.tail
  match ← createFile (name :: path.tail) content with
  | .error error => pure (.error error)
  | .ok () =>
    let renamed ← rename (name :: path.tail) path
    remove (name :: path.tail)
    pure renamed

theorem atomicWrite_apply (host : Host σ) (path : Path) (content : Text) (world : World) :
    atomicWrite host path content world =
      match mkdirAll path.tail world with
      | (.error error, after) => (.error error, after)
      | (.ok (), after) => writeInto host path content after := by
  simp only [atomicWrite, bind_apply]
  rcases mkdirAll path.tail world with ⟨_ | ⟨⟩, after⟩ <;> rfl

/-- What stands at a path that resolved before, or stands below `base`. -/
def LeadsBelow (base : Location) (before : FileTree.Tree) (path : Path)
    (after : FileTree.Tree) : Prop :=
  ∀ place, after.resolve path = .ok place →
    base <:+ place ∨ before.resolve path = .ok place

/-- What a write leaves behind whose footing is `base`. -/
structure Written (base : Location) (path : Path) (world after : World) : Prop where
  grows : ∀ access ∈ world.accesses, access ∈ after.accesses
  below : ∀ access ∈ after.accesses, access ∈ world.accesses ∨ base <:+ access.location
  leads : LeadsBelow base world.tree path after.tree

/-- Something new stands at the footing or directly below it. -/
def Touches (base : Location) (world after : World) : Prop :=
  ∃ place, Access.create place ∈ after.accesses ∧ world.tree.lookup place = none ∧
    (place = base ∨ ∃ child, place = child :: base)

/-- Where a write starts.  A directory that is there is only touched where the temporary file
can be made in it. -/
def starting (host : Host σ) (tree : FileTree.Tree) (directory : Path) : Option Location :=
  if (tree.stat directory).isOk ∧
      (tree.place (host.temporary tree directory :: directory)).isOk = false then none
  else footing tree directory

variable {base : Location}

theorem starting_eq_some {host : Host σ} {tree : FileTree.Tree} :
    starting host tree directory = some base ↔ footing tree directory = some base ∧
      ((tree.stat directory).isOk = true →
        (tree.place (host.temporary tree directory :: directory)).isOk = true) := by
  rw [starting]
  split
  · rename_i hnone
    simp [hnone]
  · rename_i hsome
    rw [iff_self_and]
    exact fun _ hthere => Bool.not_eq_false _ |>.mp fun hnone => hsome ⟨hthere, hnone⟩

theorem starting_of_missing (host : Host σ) {tree : FileTree.Tree}
    (hmissing : ∀ info, tree.stat directory ≠ .ok info) :
    starting host tree directory = footing tree directory := by
  rw [starting, if_neg]
  rintro ⟨hthere, _⟩
  cases hstat : tree.stat directory with
  | error error => rw [hstat] at hthere; cases hthere
  | ok info => exact hmissing info hstat

theorem leadsBelow_of_put {before after : FileTree.Tree} {place : Location} {content : Text}
    (path : Path) (hbelow : base <:+ place) (hfile : after.lookup place = some (.file content))
    (hrest : ∀ other node, other ≠ place → after.lookup other = some node →
      before.lookup other = some node) : LeadsBelow base before path after := by
  intro target htarget
  obtain ⟨hlegal, hwalk⟩ := Tree.resolve_eq_ok.mp htarget
  rcases Tree.walk_of_put hfile hrest hwalk with rfl | hbefore
  · exact .inl hbelow
  · exact .inr (Tree.resolve_eq_ok.mpr ⟨hlegal, hbefore⟩)

theorem LeadsBelow.trans {first second third : FileTree.Tree} {path : Path}
    (hleft : LeadsBelow base first path second) (hright : LeadsBelow base second path third) :
    LeadsBelow base first path third := by
  intro place hplace
  rcases hright place hplace with hbelow | hsecond
  · exact .inl hbelow
  · exact hleft place hsecond

theorem leadsBelow_of_subtree {before after : FileTree.Tree} (path : Path)
    (hsub : ∀ place node, after.lookup place = some node → before.lookup place = some node) :
    LeadsBelow base before path after := by
  intro place hplace
  obtain ⟨hlegal, hwalk⟩ := Tree.resolve_eq_ok.mp hplace
  exact .inr (Tree.resolve_eq_ok.mpr ⟨hlegal, Tree.walk_of_subtree hsub hwalk⟩)

theorem rename_grows (source target : Path) {access : Access} (haccess : access ∈ world.accesses) :
    access ∈ (rename source target world).2.accesses := by
  have hcases := rename_renamed world source target
  generalize rename source target world = renamed at hcases ⊢
  cases hcases with
  | failed error => exact haccess
  | moved => exact mem_append_left _ haccess

section Into

variable {made : FileTree.Tree} {content : Text} {host : Host σ}

/-- A temporary file that cannot be made ends the write. -/
theorem writeInto_of_error {error : Errno}
    (hplace : world.tree.place (host.temporary world.tree directory :: directory) = .error error) :
    writeInto host (name :: directory) content world = (.error error, world) := by
  simp only [writeInto, tail_cons, bind_apply, look_apply, createFile,
    createNode_error hplace, pure_apply]

/-- What is done once the temporary file is there. -/
theorem writeInto_of_ok
    (hcreate : createNode (host.temporary world.tree directory :: directory) (.file content) world =
      (.ok (), ⟨made, world.accesses ++
        [.create (host.temporary world.tree directory :: location)]⟩)) :
    (writeInto host (name :: directory) content world).2 =
      (remove (host.temporary world.tree directory :: directory)
        (rename (host.temporary world.tree directory :: directory) (name :: directory)
          ⟨made, world.accesses ++
            [.create (host.temporary world.tree directory :: location)]⟩).2).2 := by
  simp only [writeInto, tail_cons, bind_apply, look_apply, createFile, hcreate]
  rfl

/-- A write into a directory that is there leaves the temporary file's trace. -/
theorem writeInto_touches (host : Host σ) (content : Text)
    (hstat : world.tree.stat directory = .ok ⟨location, .directory⟩)
    (hplaced : (world.tree.place (host.temporary world.tree directory :: directory)).isOk = true) :
    Touches location world (writeInto host (name :: directory) content world).2 := by
  cases hplace : world.tree.place (host.temporary world.tree directory :: directory) with
  | error error =>
    rw [hplace] at hplaced
    cases hplaced
  | ok entry =>
    obtain rfl := Tree.eq_of_place hstat hplace
    have habsent := host.temporary_fresh _ _ _ hplace
    obtain ⟨made, hcreate, _⟩ := createNode_ok hplace habsent (.file content)
    refine ⟨_, ?_, habsent, .inr ⟨_, rfl⟩⟩
    rw [writeInto_of_ok hcreate, remove_accesses]
    exact rename_grows _ _ (mem_append_right _ (mem_singleton_self _))

/-- A write into a directory that is there. -/
theorem writeInto_written (host : Host σ) (content : Text)
    (hstat : world.tree.stat directory = .ok ⟨location, .directory⟩) :
    Written location (name :: directory) world
      (writeInto host (name :: directory) content world).2 := by
  cases hplace : world.tree.place (host.temporary world.tree directory :: directory) with
  | error error =>
    rw [writeInto_of_error hplace]
    exact ⟨fun _ => id, fun _ => .inl, fun _ => .inr⟩
  | ok entry =>
    obtain rfl := Tree.eq_of_place hstat hplace
    have habsent := host.temporary_fresh _ _ _ hplace
    obtain ⟨made, hcreate, hlookup⟩ := createNode_ok hplace habsent (.file content)
    have hkeeps : ∀ place node, world.tree.lookup place = some node →
        made.lookup place = some node := by
      intro place node hnode
      rw [hlookup, if_neg (fun heq => by rw [heq, habsent] at hnode; cases hnode)]
      exact hnode
    have hfirst : LeadsBelow location world.tree (name :: directory) made :=
      leadsBelow_of_put _ (suffix_cons _ _) (by rw [hlookup, if_pos rfl])
        (fun other node hne hnode => by rwa [hlookup, if_neg hne] at hnode)
    have hcreated : ∀ access ∈ world.accesses ++
          [.create (host.temporary world.tree directory :: location)],
        access ∈ world.accesses ∨ location <:+ access.location := by
      intro access haccess
      rcases mem_append.mp haccess with hold | hnew
      · exact .inl hold
      · obtain rfl := mem_singleton.mp hnew
        exact .inr (suffix_cons _ _)
    rw [writeInto_of_ok hcreate]
    generalize hrename : rename (host.temporary world.tree directory :: directory)
      (name :: directory)
      ⟨made, world.accesses ++ [.create (host.temporary world.tree directory :: location)]⟩ =
        renamed
    have hcases := hrename ▸ rename_renamed _ _ _
    cases hcases with
    | failed error =>
      exact
        { grows := by rw [remove_accesses]; exact fun _ haccess => mem_append_left _ haccess
          below := by rw [remove_accesses]; exact hcreated
          leads := hfirst.trans (leadsBelow_of_subtree _ fun _ _ hnode => lookup_of_remove hnode) }
    | moved start finish node after hsource htarget hnode hafter =>
      have hmade : made.stat directory = .ok ⟨location, .directory⟩ := by
        obtain ⟨hdirectory, hinfo⟩ := Tree.stat_eq_ok.mp hstat
        obtain ⟨hrefused, hwalk⟩ := Tree.resolve_eq_ok.mp hdirectory
        exact Tree.stat_eq_ok.mpr
          ⟨Tree.resolve_eq_ok.mpr ⟨hrefused, Tree.walk_of_subtree hkeeps hwalk⟩, hkeeps _ _ hinfo⟩
      obtain rfl := Tree.eq_of_place hmade hsource
      obtain rfl := Tree.eq_of_place hmade htarget
      obtain rfl : node = .file content := by
        rw [hlookup, if_pos rfl, Option.some.injEq] at hnode
        exact hnode.symm
      have hsecond : LeadsBelow location made (name :: directory) after := by
        refine leadsBelow_of_put _ (suffix_cons _ _) (by rw [hafter, if_pos rfl]) ?_
        intro other found hne hfound
        rw [hafter, if_neg hne] at hfound
        split at hfound
        · cases hfound
        · exact hfound
      exact
        { grows := by
            rw [remove_accesses]
            exact fun _ haccess => mem_append_left _ (mem_append_left _ haccess)
          below := by
            rw [remove_accesses]
            intro access haccess
            rcases mem_append.mp haccess with hold | hnew
            · exact hcreated access hold
            · obtain rfl := mem_singleton.mp hnew
              exact .inr (suffix_cons _ _)
          leads := (hfirst.trans hsecond).trans
            (leadsBelow_of_subtree _ fun _ _ hnode => lookup_of_remove hnode) }

end Into

/-- A write that starts nowhere touches nothing. -/
theorem atomicWrite_of_none (host : Host σ) (content : Text)
    (hstarting : starting host world.tree directory = none) :
    ∃ error, atomicWrite host (name :: directory) content world = (.error error, world) := by
  rw [atomicWrite_apply, tail_cons]
  have hmade := mkdirAll_made world directory
  generalize mkdirAll directory world = result at hmade
  cases hmade with
  | failed error => exact ⟨error, rfl⟩
  | there location hstat hsome =>
    cases hplace : world.tree.place (host.temporary world.tree directory :: directory) with
    | error error => exact ⟨error, writeInto_of_error hplace⟩
    | ok entry =>
      rw [starting, if_neg (by rw [hplace]; exact fun hnone => by cases hnone.2), hsome]
        at hstarting
      cases hstarting
  | started first error after hmissing hsome =>
    rw [starting_of_missing host hmissing, hsome] at hstarting
    cases hstarting
  | made first location after hmissing hsome =>
    rw [starting_of_missing host hmissing, hsome] at hstarting
    cases hstarting

theorem atomicWrite_written (host : Host σ) (content : Text)
    (hstarting : starting host world.tree directory = some base) :
    Written base (name :: directory) world
        (atomicWrite host (name :: directory) content world).2 ∧
      Touches base world (atomicWrite host (name :: directory) content world).2 := by
  obtain ⟨hfooting, hplaced⟩ := starting_eq_some.mp hstarting
  rw [atomicWrite_apply, tail_cons]
  have hmade := mkdirAll_made world directory
  generalize mkdirAll directory world = result at hmade
  cases hmade with
  | failed error hnone => rw [hfooting] at hnone; cases hnone
  | there location hstat hsome =>
    obtain rfl : location = base := by
      rw [hfooting, Option.some.injEq] at hsome
      exact hsome.symm
    exact ⟨writeInto_written host content hstat,
      writeInto_touches host content hstat (hplaced (by rw [hstat]; rfl))⟩
  | started first error after hmissing hsome habsent hextends hfailed =>
    obtain rfl : first = base := by
      rw [hfooting, Option.some.injEq] at hsome
      exact hsome.symm
    refine ⟨⟨hextends.grows, hextends.below, fun place hplace => ?_⟩,
      first, hextends.starts, habsent, .inl rfl⟩
    exact absurd hplace (resolve_below_missing hfailed name place)
  | made first location after hmissing hsome habsent hextends hbelow hstat hempty =>
    obtain rfl : first = base := by
      rw [hfooting, Option.some.injEq] at hsome
      exact hsome.symm
    have hwritten : Written location (name :: directory) after
        (writeInto host (name :: directory) content after).2 :=
      writeInto_written host content hstat
    constructor
    · exact
        { grows := fun access haccess => hwritten.grows access (hextends.grows access haccess)
          below := by
            intro access haccess
            rcases hwritten.below access haccess with hafter | hnew
            · exact hextends.below access hafter
            · exact .inr (hbelow.trans hnew)
          leads := by
            intro place hplace
            rcases hwritten.leads place hplace with hnew | hafter
            · exact .inl (hbelow.trans hnew)
            · exact absurd hafter (resolve_in_empty hstat (hempty name) place) }
    · exact ⟨first, hwritten.grows _ hextends.starts, habsent, .inl rfl⟩

end ReuleauxCoder.Workspace.Files
