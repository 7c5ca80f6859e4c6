import ReuleauxCoder.Workspace.Reading
import ReuleauxCoder.Workspace.Writing

/-!
# Staying inside the workspace

A path that `confinedPath` could resolve leads nowhere else.  A path that it could not resolve
is passed on as it is written, links included, and some operations then act through it.
-/

namespace ReuleauxCoder.Workspace.Files

open PyText FileTree FileTree.FileOp List

variable {σ : Type} {root : Location} {tree : FileTree.Tree} {path : Path} {world : World}

/-! ## Writes -/

/-- Everything touched lies below `root`. -/
def Kept (root : Location) (world : World) : Prop :=
  ∀ access ∈ world.accesses, root <:+ access.location

/-- A write to the path starts below `root`, if anywhere. -/
def CanWrite (host : Host σ) (root : Location) (tree : FileTree.Tree) (path : Path) : Prop :=
  ∃ name directory, path = name :: directory ∧
    ∀ base, starting host tree directory = some base → root <:+ base

theorem readFile_grows (path : Path) (world : World) :
    ∀ access ∈ world.accesses, access ∈ (readFile path world).2.accesses := by
  intro access haccess
  simp only [readFile, bind_apply, stat_apply]
  cases world.tree.stat path with
  | error error => exact haccess
  | ok info =>
    obtain ⟨location, node⟩ := info
    cases node with
    | file content => exact mem_append_left _ haccess
    | directory => exact haccess
    | link target => exact haccess

theorem readDocument_grows (path : Path) (world : World) :
    ∀ access ∈ world.accesses, access ∈ (readDocument path world).2.accesses := by
  intro access haccess
  have hread := readFile_grows path world access haccess
  simp only [readDocument, bind_apply]
  generalize readFile path world = result at hread ⊢
  obtain ⟨error | content, after⟩ := result
  · cases error <;> exact hread
  · simp only [bind_apply, stat_apply]
    cases after.tree.stat path <;> exact hread

/-- What a write leaves is kept inside, and so is what the path leads to. -/
theorem atomicWrite_within (host : Host σ) (content : Text) (hworld : Within root tree world)
    (hleads : LeadsInside root tree path) (hwrite : CanWrite host root tree path) :
    let after := (atomicWrite host path content world).2
    Within root after.tree after ∧ LeadsInside root after.tree path := by
  obtain ⟨name, directory, rfl, hstarting⟩ := hwrite
  obtain ⟨rfl, haccesses⟩ := hworld
  cases hbase : starting host world.tree directory with
  | none =>
    obtain ⟨error, hsame⟩ : ∃ error,
        atomicWrite host (name :: directory) content world = (.error error, world) :=
      atomicWrite_of_none host content hbase
    rw [hsame]
    exact ⟨⟨rfl, haccesses⟩, hleads⟩
  | some base =>
    have hwritten : Written base (name :: directory) world
        (atomicWrite host (name :: directory) content world).2 :=
      (atomicWrite_written host content hbase).1
    have hinside := hstarting base hbase
    refine ⟨⟨rfl, fun access haccess => ?_⟩, fun info hinfo => ?_⟩
    · rcases hwritten.below access haccess with hold | hnew
      · exact haccesses access hold
      · exact hinside.trans hnew
    · rcases hwritten.leads _ (Tree.stat_eq_ok.mp hinfo).1 with hnew | hold
      · exact hinside.trans hnew
      · obtain ⟨node, hnode, _⟩ := Tree.settled_of_resolve hold
        exact hleads ⟨info.location, node⟩ (Tree.stat_eq_ok.mpr ⟨hold, hnode⟩)

theorem verifiedWrite_kept (host : Host σ) (before : Option Text) (content : Text)
    (hworld : Within root tree world) (hleads : LeadsInside root tree path)
    (hwrite : CanWrite host root tree path) :
    Kept root (verifiedWrite host path before content world).2 := by
  obtain ⟨hafter, hinside⟩ := atomicWrite_within host content hworld hleads hwrite
  have hread := (maintains_readDocument hinside _ hafter).1.2
  simp only [verifiedWrite, bind_apply]
  cases (atomicWrite host path content world).1 <;> exact hread

/-- A regular file, or nothing, stands at the path. -/
def NotIrregular (tree : FileTree.Tree) (path : Path) : Prop :=
  ∀ info, tree.stat path = .ok info → isRegular info.node = true

theorem irregular_apply (path : Path) (world : World) :
    (irregular path world).2 = world ∧
      ((irregular path world).1 = false ↔ NotIrregular world.tree path) := by
  simp only [irregular, bind_apply, stat_apply, NotIrregular]
  cases world.tree.stat path with
  | error error => simp
  | ok info => simp

variable {arguments : Arguments}

theorem writeTextAtomic_kept (host : Host σ) (pathValue : Text) (hworld : Within root tree world)
    (hleads : LeadsInside root tree path)
    (hwrite : arguments.content.isSome → NotIrregular tree path → CanWrite host root tree path) :
    Kept root (writeTextAtomic host path pathValue arguments world).2 := by
  unfold writeTextAtomic
  cases hcontent : arguments.content with
  | none => exact hworld.2
  | some content =>
    obtain ⟨hsame, hregular⟩ := irregular_apply path world
    simp only [bind_apply, hsame]
    by_cases hirregular : (irregular path world).1 = true
    · rw [if_pos hirregular]
      exact hworld.2
    · have hcan := hwrite (by rw [hcontent]; rfl)
        (hworld.1 ▸ hregular.mp (Bool.eq_false_iff.mpr hirregular))
      rw [if_neg hirregular]
      have hread := (maintains_readFile hleads world hworld).1
      have hafter := (atomicWrite_within host content hread hleads hcan).1.2
      simp only [bind_apply]
      cases (atomicWrite host path content (readFile path world).2).1 <;> exact hafter

theorem writeTextVerified_kept (host : Host σ) (pathValue : Text) (hworld : Within root tree world)
    (hleads : LeadsInside root tree path)
    (hwrite : arguments.content.isSome → NotIrregular tree path →
      (∀ error, tree.stat path = .error error → error = .noent) → CanWrite host root tree path) :
    Kept root (writeTextVerified host path pathValue arguments world).2 := by
  unfold writeTextVerified
  cases hcontent : arguments.content with
  | none => exact hworld.2
  | some content =>
    obtain ⟨hsame, hregular⟩ := irregular_apply path world
    simp only [bind_apply, hsame]
    by_cases hirregular : (irregular path world).1 = true
    · rw [if_pos hirregular]
      exact hworld.2
    · rw [if_neg hirregular]
      have hread := (maintains_readDocument hleads world hworld).1
      have herror : ∀ error, tree.stat path = .error error → error ≠ .noent →
          (readDocument path world).1 = .error error := by
        intro error herror hnoent
        rw [← hworld.1] at herror
        simp only [readDocument, readFile, bind_apply, stat_apply, herror, pure_apply]
      simp only [bind_apply]
      cases hdocument : (readDocument path world).1 with
      | error error => exact hread.2
      | ok before =>
        refine verifiedWrite_kept host before content hread hleads (hwrite (by rw [hcontent]; rfl)
          (hworld.1 ▸ hregular.mp (Bool.eq_false_iff.mpr hirregular)) fun error hstat => ?_)
        by_contra hnoent
        rw [herror error hstat hnoent] at hdocument
        cases hdocument

/-- A file that is read stands at the path. -/
theorem replaceExactAtomic_kept (host : Host σ) (pathValue : Text) (arguments : Arguments)
    (hworld : Within root tree world) (hleads : LeadsInside root tree path)
    (hwrite : ∀ info, tree.stat path = .ok info → isRegular info.node = true →
      CanWrite host root tree path) :
    Kept root (replaceExactAtomic host path pathValue arguments world).2 := by
  unfold replaceExactAtomic
  cases replacement arguments with
  | none => exact hworld.2
  | some pair =>
    obtain ⟨old, new⟩ := pair
    obtain ⟨hread, hfound⟩ := maintains_readFile hleads world hworld
    simp only [bind_apply]
    cases hcontent : (readFile path world).1 with
    | error error => exact hread.2
    | ok content =>
      obtain ⟨info, hinfo, hnode⟩ := hfound content hcontent
      have hcan := hwrite info hinfo (by rw [hnode]; rfl)
      dsimp only
      cases replaceExact (σ := σ) content old new with
      | inl reply => exact hread.2
      | inr updated =>
        have hafter := (atomicWrite_within host updated hread hleads hcan).1.2
        simp only [bind_apply]
        cases (atomicWrite host path updated (readFile path world).2).1 <;> exact hafter

theorem replaceExactVerified_kept (host : Host σ) (pathValue : Text) (arguments : Arguments)
    (hworld : Within root tree world) (hleads : LeadsInside root tree path)
    (hwrite : ∀ info, tree.stat path = .ok info → isRegular info.node = true →
      CanWrite host root tree path) :
    Kept root (replaceExactVerified host path pathValue arguments world).2 := by
  unfold replaceExactVerified
  cases replacement arguments with
  | none => exact hworld.2
  | some pair =>
    obtain ⟨old, new⟩ := pair
    obtain ⟨hread, hfound⟩ := maintains_readDocument hleads world hworld
    simp only [bind_apply]
    cases hcontent : (readDocument path world).1 with
    | error error => exact hread.2
    | ok found =>
      cases found with
      | none => exact hread.2
      | some content =>
        obtain ⟨info, hinfo, hnode⟩ := hfound content hcontent
        have hcan := hwrite info hinfo (by rw [hnode]; rfl)
        dsimp only
        cases replaceExact (σ := σ) content old new with
        | inl reply => exact hread.2
        | inr updated => exact verifiedWrite_kept host _ updated hread hleads hcan

/-! ## Paths that `confinedPath` resolves -/

/-- The links of the path can be followed, or those of its parent where it is missing. -/
def resolves (tree : FileTree.Tree) (candidate : Path) : Bool :=
  if tree.stat candidate = .error .noent then (tree.evalSymlinks candidate.tail).isOk
  else (tree.evalSymlinks candidate).isOk

/-- A path that leads to itself or nowhere, in a directory that is at its own path. -/
structure Anchored (tree : FileTree.Tree) (path : Path) : Prop where
  leads : ∀ info, tree.stat path = .ok info → info.location = path
  parent : tree.lookup path.tail = some .directory

variable {directory : Location} {name : Name} {candidate : Path}

/-- A missing path in a parent that resolves leads nowhere from there either: the links that
lead to the parent are not followed again. -/
theorem anchored_missing {real : Location}
    (hmissing : tree.stat (name :: directory) = .error .noent)
    (hparent : tree.evalSymlinks directory = .ok real) : Anchored tree (name :: real) := by
  have hresolve := Tree.resolve_of_stat_error hmissing
  have hlegal : ¬Refused (name :: directory) := by
    intro hrefused
    obtain ⟨error, herror, hother⟩ := tree.resolve_of_refused hrefused
    rw [herror, Except.error.injEq] at hresolve
    exact hother hresolve
  rw [Tree.resolve_eq_walk hlegal, components_cons] at hresolve
  have hfull := (Tree.evalSymlinks_eq_ok.mp hparent).2
  have hwalk : tree.walk systemLinks [] (components directory) = .ok real := by
    cases hwalk : tree.walk systemLinks [] (components directory) with
    | error error =>
      have hsame := tree.walk_append_error hwalk [.name name]
      rw [hresolve, Except.error.injEq] at hsame
      subst hsame
      have hmono := tree.walk_mono (by decide : systemLinks ≤ evalLinks)
        (by rw [hwalk]; simp)
      rw [hfull, hwalk] at hmono
      cases hmono
    | ok other =>
      have hmono := tree.walk_mono (by decide : systemLinks ≤ evalLinks)
        (by rw [hwalk]; simp)
      rw [hfull, hwalk, Except.ok.injEq] at hmono
      rw [hmono]
  obtain ⟨left, hleft, hmore⟩ := tree.walk_append hwalk
  rw [hmore] at hresolve
  have hdirectory : tree.lookup real = some .directory := by
    by_contra hother
    rw [tree.walk_stop (if_neg hother)] at hresolve
    cases hresolve
  refine ⟨fun info hinfo => ?_, hdirectory⟩
  obtain ⟨_, hlast⟩ := Tree.resolve_eq_ok.mp (Tree.stat_eq_ok.mp hinfo).1
  rw [components_cons, tree.walk_components _ hdirectory,
    tree.walk_mono hleft (by rw [hresolve]; simp), hresolve] at hlast
  cases hlast

theorem anchored_settled (hsettled : tree.Settled path) : Anchored tree path where
  leads := by
    obtain ⟨node, hnode, hlink⟩ := hsettled
    intro info hinfo
    rw [Tree.stat_settled hnode hlink, Except.ok.injEq] at hinfo
    rw [← hinfo]
  parent := by
    cases path with
    | nil => exact tree.lookup_nil
    | cons name directory => exact tree.settled_tail hsettled

theorem anchored_pinned (hresolves : resolves tree candidate = true) :
    Anchored tree (pinned tree candidate) := by
  rw [resolves] at hresolves
  rw [pinned]
  split
  · next hmissing =>
    rw [if_pos hmissing] at hresolves
    cases candidate with
    | nil =>
      rw [Tree.stat_directory tree.lookup_nil] at hmissing
      cases hmissing
    | cons name directory =>
      rw [tail_cons] at hresolves ⊢
      cases hparent : tree.evalSymlinks directory with
      | error error => rw [hparent] at hresolves; cases hresolves
      | ok real => exact anchored_missing hmissing hparent
  · next hfound =>
    rw [if_neg hfound] at hresolves
    rw [evaluated]
    cases hreal : tree.evalSymlinks candidate with
    | error error => rw [hreal] at hresolves; cases hresolves
    | ok real => exact anchored_settled (Tree.settled_of_evalSymlinks hreal)

theorem Anchored.lstat (hanchored : Anchored tree path) {info : Info}
    (hinfo : tree.lstat path = .ok info) : info.location = path := by
  have hplace := (Tree.lstat_eq_ok.mp hinfo).1
  cases path with
  | nil => simpa [Tree.place, eq_comm] using hplace
  | cons name directory => exact Tree.eq_of_place (Tree.stat_directory hanchored.parent) hplace

/-- Below the root, which is a directory, a path that is no directory can be written. -/
theorem Anchored.canWrite (host : Host σ) (hanchored : Anchored tree path) (hbelow : root <:+ path)
    (hroot : tree.lookup root = some .directory) (hregular : NotIrregular tree path) :
    CanWrite host root tree path := by
  have hne : root ≠ path := by
    rintro rfl
    have hfile := hregular _ (Tree.stat_directory hroot)
    cases hfile
  cases path with
  | nil => exact absurd (suffix_nil.mp hbelow) hne
  | cons name directory =>
    refine ⟨name, directory, rfl, fun base hbase => ?_⟩
    have hparent : tree.lookup directory = some .directory := hanchored.parent
    have hfooting := (starting_eq_some.mp hbase).1
    rw [footing_of_stat (Tree.stat_directory hparent), Option.some.injEq] at hfooting
    rw [← hfooting]
    exact (suffix_cons_iff.mp hbelow).resolve_left hne

/-- Every operation on a path that was resolved stays below the root. -/
theorem perform_anchored (host : Host σ) (operation : Operation) (pathValue : Text)
    (arguments : Arguments) (hanchored : Anchored tree path) (hbelow : root <:+ path)
    (hroot : tree.lookup root = some .directory) :
    Kept root (perform host operation path pathValue arguments ⟨tree, []⟩).2 := by
  have hworld : Within root tree ⟨tree, []⟩ := ⟨rfl, fun _ => nofun⟩
  have hleads : LeadsInside root tree path :=
    fun info hinfo => hanchored.leads info hinfo ▸ hbelow
  have hstands : StandsInside root tree path :=
    fun info hinfo _ => ⟨hanchored.lstat hinfo, hbelow⟩
  have hwrite := hanchored.canWrite host hbelow hroot
  have hregular : ∀ info, tree.stat path = .ok info → isRegular info.node = true →
      CanWrite host root tree path := by
    intro info hinfo hfile
    refine hwrite fun other hother => ?_
    rw [hinfo, Except.ok.injEq] at hother
    exact hother ▸ hfile
  cases operation with
  | readBytes => exact (maintains_readBytes host hleads pathValue arguments _ hworld).1.2
  | readTextPage => exact (maintains_readPage host hleads pathValue arguments _ hworld).1.2
  | readText => exact (maintains_readText host hleads pathValue _ hworld).1.2
  | snapshotText => exact (maintains_snapshotText host hleads pathValue _ hworld).1.2
  | writeTextAtomic =>
    exact writeTextAtomic_kept host pathValue hworld hleads fun _ hfile => hwrite hfile
  | writeTextVerified =>
    exact writeTextVerified_kept host pathValue hworld hleads fun _ hfile _ => hwrite hfile
  | replaceExactAtomic =>
    exact replaceExactAtomic_kept host pathValue arguments hworld hleads hregular
  | replaceExactVerified =>
    exact replaceExactVerified_kept host pathValue arguments hworld hleads hregular
  | stat =>
    have hstat : ∀ info, tree.lstat path = .ok info → root <:+ info.location :=
      fun info hinfo => hanchored.lstat hinfo ▸ hbelow
    exact (maintains_statEntry host pathValue hstat _ hworld).1.2
  | list => exact (maintains_listEntries host hstands pathValue arguments _ hworld).1.2
  | glob => exact (maintains_globEntries host hstands pathValue arguments _ hworld).1.2
  | searchText =>
    exact (maintains_searchText host hstands
      (fun info hinfo => ⟨hanchored.leads info hinfo, hbelow⟩) arguments _ hworld).1.2

/-! ## Paths that it does not resolve -/

/-- Where an operation acts first through a path that does not resolve: the entry that `Lstat`
finds, or the place where a write starts. -/
def reached (host : Host σ) (tree : FileTree.Tree) (operation : Operation) (path : Path)
    (arguments : Arguments) : Option Location :=
  match operation with
  | .stat => (tree.lstat path).toOption.map Info.location
  | .writeTextAtomic =>
      if arguments.content.isSome then starting host tree path.tail else none
  | .writeTextVerified =>
      if arguments.content.isSome ∧ tree.stat path = .error .noent then
        starting host tree path.tail
      else none
  | _ => none

/-- A path that does not resolve is passed on as it is. -/
theorem pinned_eq_self (hresolves : resolves tree candidate = false) :
    pinned tree candidate = candidate := by
  rw [resolves] at hresolves
  rw [pinned]
  split
  · next hmissing =>
    rw [if_pos hmissing] at hresolves
    cases hparent : tree.evalSymlinks candidate.tail with
    | error error => rfl
    | ok real => rw [hparent] at hresolves; cases hresolves
  · next hfound =>
    rw [if_neg hfound] at hresolves
    rw [evaluated]
    cases hreal : tree.evalSymlinks candidate with
    | error error => rfl
    | ok real => rw [hreal] at hresolves; cases hresolves

theorem stat_of_not_resolves (hresolves : resolves tree candidate = false) :
    ∃ error, tree.stat candidate = .error error := by
  cases hstat : tree.stat candidate with
  | error error => exact ⟨error, rfl⟩
  | ok info =>
    obtain ⟨hlegal, hwalk⟩ := Tree.resolve_eq_ok.mp (Tree.stat_eq_ok.mp hstat).1
    have hmono := tree.walk_mono (by decide : systemLinks ≤ evalLinks)
      (by rw [hwalk]; exact nofun)
    have heval : tree.evalSymlinks candidate = .ok info.location :=
      Tree.evalSymlinks_eq_ok.mpr ⟨fun hnuls => hlegal (.inl hnuls), hmono.trans hwalk⟩
    rw [resolves, hstat, if_neg nofun, heval] at hresolves
    cases hresolves

variable {error : Errno}

theorem readFile_of_error (hstat : world.tree.stat path = .error error) :
    readFile path world = (.error error, world) := by
  simp only [readFile, bind_apply, stat_apply, hstat, pure_apply]

theorem irregular_of_error (hstat : world.tree.stat path = .error error) :
    irregular path world = (false, world) := by
  simp only [irregular, bind_apply, stat_apply, hstat, pure_apply]

/-- A write is seen where it starts. -/
theorem starting_of_kept (host : Host σ) {base : Location} (content : Text)
    (hroot : tree.lookup root = some .directory) (hbase : starting host tree directory = some base)
    (hkept : Kept root (atomicWrite host (name :: directory) content ⟨tree, []⟩).2) :
    root <:+ base := by
  obtain ⟨place, hcreated, habsent, hplace⟩ : Touches base ⟨tree, []⟩
      (atomicWrite host (name :: directory) content ⟨tree, []⟩).2 :=
    (atomicWrite_written host content hbase).2
  have hbelow : root <:+ place := hkept _ hcreated
  rcases hplace with rfl | ⟨child, rfl⟩
  · exact hbelow
  · rcases suffix_cons_iff.mp hbelow with heq | hsuffix
    · rw [← heq] at habsent
      exact absurd (habsent.symm.trans hroot) nofun
    · exact hsuffix

theorem writeTextAtomic_of_error (host : Host σ) (pathValue : Text) {content : Text}
    (hcontent : arguments.content = some content) (hstat : world.tree.stat path = .error error) :
    (writeTextAtomic host path pathValue arguments world).2 =
      (atomicWrite host path content world).2 := by
  simp only [writeTextAtomic, hcontent, bind_apply, irregular_of_error hstat,
    readFile_of_error hstat, Bool.false_eq_true, if_false]
  cases (atomicWrite host path content world).1 <;> rfl

theorem writeTextVerified_of_missing (host : Host σ) (pathValue : Text) {content : Text}
    (hcontent : arguments.content = some content) (hstat : world.tree.stat path = .error .noent) :
    (writeTextVerified host path pathValue arguments world).2 =
      (readDocument path (atomicWrite host path content world).2).2 := by
  have hdocument : readDocument path world = (.ok none, world) := by
    simp only [readDocument, bind_apply, readFile_of_error hstat, pure_apply]
  simp only [writeTextVerified, hcontent, bind_apply, irregular_of_error hstat, hdocument,
    Bool.false_eq_true, if_false, verifiedWrite]
  cases (atomicWrite host path content world).1 <;> rfl

/-- Through a path that does not resolve an operation stays below the root exactly where it
starts there. -/
theorem perform_unresolved (host : Host σ) (operation : Operation) (pathValue : Text)
    (arguments : Arguments) (hroot : tree.lookup root = some .directory)
    (hstat : tree.stat (name :: directory) = .error error) :
    Kept root (perform host operation (name :: directory) pathValue arguments ⟨tree, []⟩).2 ↔
      ∀ location, reached host tree operation (name :: directory) arguments = some location →
        root <:+ location := by
  have hworld : Within root tree ⟨tree, []⟩ := ⟨rfl, fun _ => nofun⟩
  have hnone : ∀ info, tree.stat (name :: directory) ≠ .ok info :=
    fun info heq => by rw [heq] at hstat; cases hstat
  have hleads : LeadsInside root tree (name :: directory) :=
    fun info hinfo => absurd hinfo (hnone info)
  have hstands : StandsInside root tree (name :: directory) := by
    intro info hinfo hlink
    obtain ⟨hplace, hnode⟩ := Tree.lstat_eq_ok.mp hinfo
    exact absurd (Tree.stat_of_place hplace hnode hlink) (hnone _)
  have hregular : ∀ info, tree.stat (name :: directory) = .ok info →
      isRegular info.node = true → CanWrite host root tree (name :: directory) :=
    fun info hinfo => absurd hinfo (hnone info)
  cases operation with
  | readBytes =>
    exact iff_of_true (maintains_readBytes host hleads pathValue arguments _ hworld).1.2
      (fun _ => nofun)
  | readTextPage =>
    exact iff_of_true (maintains_readPage host hleads pathValue arguments _ hworld).1.2
      (fun _ => nofun)
  | readText =>
    exact iff_of_true (maintains_readText host hleads pathValue _ hworld).1.2 (fun _ => nofun)
  | snapshotText =>
    exact iff_of_true (maintains_snapshotText host hleads pathValue _ hworld).1.2
      (fun _ => nofun)
  | replaceExactAtomic =>
    exact iff_of_true (replaceExactAtomic_kept host pathValue arguments hworld hleads hregular)
      (fun _ => nofun)
  | replaceExactVerified =>
    exact iff_of_true (replaceExactVerified_kept host pathValue arguments hworld hleads hregular)
      (fun _ => nofun)
  | list =>
    exact iff_of_true (maintains_listEntries host hstands pathValue arguments _ hworld).1.2
      (fun _ => nofun)
  | glob =>
    exact iff_of_true (maintains_globEntries host hstands pathValue arguments _ hworld).1.2
      (fun _ => nofun)
  | searchText =>
    exact iff_of_true
      (maintains_searchText host hstands (fun info hinfo => absurd hinfo (hnone info)) arguments _
        hworld).1.2
      (fun _ => nofun)
  | stat =>
    constructor
    · intro hkept location hlocation
      cases hinfo : tree.lstat (name :: directory) with
      | error other => simp [reached, hinfo, Except.toOption] at hlocation
      | ok info =>
        obtain rfl : info.location = location := by
          simpa [reached, hinfo, Except.toOption] using hlocation
        refine hkept (.read info.location) ?_
        simp only [perform, statEntry, bind_apply, lstat_apply, hinfo, record_apply, pure_apply]
        exact mem_singleton_self _
    · intro hreached
      refine (maintains_statEntry host pathValue (fun info hinfo => ?_) _ hworld).1.2
      exact hreached info.location (by simp [reached, hinfo, Except.toOption])
  | writeTextAtomic =>
    constructor
    · intro hkept base hbase
      cases hcontent : arguments.content with
      | none => simp [reached, hcontent] at hbase
      | some content =>
        simp only [reached, hcontent, Option.isSome_some, if_true, tail_cons] at hbase
        simp only [perform] at hkept
        rw [writeTextAtomic_of_error host pathValue hcontent hstat] at hkept
        exact starting_of_kept host content hroot hbase hkept
    · intro hreached
      refine writeTextAtomic_kept host pathValue hworld hleads fun hsome _ => ?_
      exact ⟨name, directory, rfl, fun base hbase =>
        hreached base (by simpa [reached, hsome] using hbase)⟩
  | writeTextVerified =>
    constructor
    · intro hkept base hbase
      cases hcontent : arguments.content with
      | none => simp [reached, hcontent] at hbase
      | some content =>
        simp only [reached, hcontent, Option.isSome_some, true_and, tail_cons] at hbase
        split at hbase
        · next hmissing =>
          simp only [perform] at hkept
          rw [writeTextVerified_of_missing host pathValue hcontent hmissing] at hkept
          exact starting_of_kept host content hroot hbase
            fun access haccess => hkept access (readDocument_grows _ _ access haccess)
        · cases hbase
    · intro hreached
      refine writeTextVerified_kept host pathValue hworld hleads fun hsome _ hnoent => ?_
      have hmissing : tree.stat (name :: directory) = .error .noent := by
        rw [hstat, hnoent error hstat]
      exact ⟨name, directory, rfl, fun base hbase =>
        hreached base (by simpa [reached, hsome, hmissing] using hbase)⟩

/-! ## Requests -/

/-- The text of a request's path. -/
def pathValue (request : Request) : Text :=
  request.arguments.path.getD []

def confined (host : Host σ) (tree : FileTree.Tree) (request : Request)
    (root defaultCWD : Text) : Except Text Path :=
  confinedPath tree host.working root (requestCwd request defaultCWD) (pathValue request)

/-- What is touched lies inside the resolved root, and a path that is not confined is refused
with nothing touched. -/
def StaysInside (host : Host σ) (tree : FileTree.Tree) (request : Request)
    (root defaultCWD : Text) : Prop :=
  let result := execute host request root defaultCWD ⟨tree, []⟩
  Kept (rootAbs tree host.working root) result.2 ∧
    ∀ message, confined host tree request root defaultCWD = .error message →
      result.2 = ⟨tree, []⟩ ∧ ∃ failed, result.1 = .error failed

/-- Where the path of an operation is below the root as it is written and does not resolve,
the operation starts below the root. -/
def StartsInside (host : Host σ) (tree : FileTree.Tree) (request : Request)
    (root defaultCWD : Text) : Prop :=
  ∀ operation, operations.lookup request.operation = some operation →
    let base := rootAbs tree host.working root
    let cwd := requestCwd request defaultCWD
    let candidate := candidateAbs tree host.working cwd (pathValue request)
    isBlank (pathValue request) = false → base <:+ cwdAbs tree host.working cwd →
      base <:+ candidate → resolves tree candidate = false →
        ∀ location, reached host tree operation candidate request.arguments = some location →
          base <:+ location

variable {rootText defaultCWD : Text} {request : Request}

theorem confinedPath_eq_ok {working : Path} {cwd value : Text} :
    confinedPath tree working rootText cwd value = .ok path ↔
      isBlank value = false ∧ rootAbs tree working rootText <:+ cwdAbs tree working cwd ∧
        rootAbs tree working rootText <:+ path ∧
          path = pinned tree (candidateAbs tree working cwd value) := by
  simp only [confinedPath, ← escapes_rel]
  cases isBlank value with
  | true => simp
  | false =>
    cases escapes (rel (rootAbs tree working rootText) (cwdAbs tree working cwd)) with
    | true => simp
    | false =>
      constructor
      · intro haccepted
        simp only [Bool.false_eq_true, if_false] at haccepted
        split at haccepted
        · cases haccepted
        · next hescapes =>
          rw [Except.ok.injEq] at haccepted
          exact ⟨rfl, rfl, haccepted ▸ Bool.eq_false_iff.mpr hescapes, haccepted.symm⟩
      · rintro ⟨_, _, hpath, rfl⟩
        simp [hpath]

theorem confined_eq_ok {host : Host σ} :
    confined host tree request rootText defaultCWD = .ok path ↔
      isBlank (pathValue request) = false ∧
        rootAbs tree host.working rootText <:+
          cwdAbs tree host.working (requestCwd request defaultCWD) ∧
        rootAbs tree host.working rootText <:+ path ∧
          path = pinned tree (candidateAbs tree host.working (requestCwd request defaultCWD)
            (pathValue request)) :=
  confinedPath_eq_ok

/-- A request whose path is confined performs its operation. -/
theorem execute_of_confined (host : Host σ) {operation : Operation}
    (hoperation : operations.lookup request.operation = some operation)
    (hconfined : confined host tree request rootText defaultCWD = .ok path) :
    execute host request rootText defaultCWD ⟨tree, []⟩ =
      perform host operation path (pathValue request) request.arguments ⟨tree, []⟩ := by
  have hblank : isBlank (request.arguments.path.getD []) = false := (confined_eq_ok.mp hconfined).1
  have hpath : confinedPath tree host.working rootText (requestCwd request defaultCWD)
      (request.arguments.path.getD []) = .ok path := hconfined
  simp only [execute, hoperation, hblank, Bool.false_eq_true, if_false, bind_apply, look_apply,
    hpath]
  rfl

/-- Any other request is refused. -/
theorem execute_refused (host : Host σ) (hrefused : operations.lookup request.operation = none ∨
      ∃ message, confined host tree request rootText defaultCWD = .error message) :
    (execute host request rootText defaultCWD ⟨tree, []⟩).2 = ⟨tree, []⟩ ∧
      ∃ failed, (execute host request rootText defaultCWD ⟨tree, []⟩).1 = .error failed := by
  cases hoperation : operations.lookup request.operation with
  | none =>
    simp only [execute, hoperation, pure_apply, failure, true_and]
    exact ⟨_, rfl⟩
  | some operation =>
    obtain ⟨message, hmessage⟩ : ∃ message,
        confined host tree request rootText defaultCWD = .error message :=
      hrefused.resolve_left (by rw [hoperation]; exact nofun)
    have hpath : confinedPath tree host.working rootText (requestCwd request defaultCWD)
        (request.arguments.path.getD []) = .error message := hmessage
    simp only [execute, hoperation]
    split
    · exact ⟨rfl, _, rfl⟩
    · simp only [bind_apply, look_apply, hpath]
      exact ⟨rfl, _, rfl⟩

/-- A request stays inside the workspace exactly when an operation on a path that does not
resolve starts inside. -/
theorem execute_staysInside_iff (host : Host σ) (tree : FileTree.Tree) (request : Request)
    (root defaultCWD : Text)
    (hroot : tree.lookup (rootAbs tree host.working root) = some .directory) :
    StaysInside host tree request root defaultCWD ↔
      StartsInside host tree request root defaultCWD := by
  constructor
  · rintro ⟨hkept, _⟩ operation hoperation base cwd candidate hblank hcwd hbelow hresolves
    have hpinned := pinned_eq_self hresolves
    have hconfined : confined host tree request root defaultCWD = .ok candidate :=
      confined_eq_ok.mpr ⟨hblank, hcwd, hbelow, hpinned.symm⟩
    rw [execute_of_confined host hoperation hconfined] at hkept
    obtain ⟨error, hstat⟩ := stat_of_not_resolves hresolves
    cases hcandidate : candidate with
    | nil =>
      rw [hcandidate, Tree.stat_directory tree.lookup_nil] at hstat
      cases hstat
    | cons name directory =>
      rw [hcandidate] at hkept hstat
      exact (perform_unresolved host operation _ _ hroot hstat).mp hkept
  · intro hstarts
    refine ⟨?_, fun message hmessage => execute_refused host (.inr ⟨message, hmessage⟩)⟩
    cases hoperation : operations.lookup request.operation with
    | none =>
      rw [(execute_refused host (.inl hoperation)).1]
      exact fun _ => nofun
    | some operation =>
      cases hconfined : confined host tree request root defaultCWD with
      | error message =>
        rw [(execute_refused host (.inr ⟨message, hconfined⟩)).1]
        exact fun _ => nofun
      | ok path =>
        rw [execute_of_confined host hoperation hconfined]
        obtain ⟨hblank, hcwd, hbelow, rfl⟩ := confined_eq_ok.mp hconfined
        cases hresolves : resolves tree (candidateAbs tree host.working
            (requestCwd request defaultCWD) (pathValue request)) with
        | true =>
          exact perform_anchored host operation _ _ (anchored_pinned hresolves) hbelow hroot
        | false =>
          rw [pinned_eq_self hresolves] at hbelow ⊢
          have hreached := hstarts operation hoperation hblank hcwd hbelow hresolves
          obtain ⟨error, hstat⟩ := stat_of_not_resolves hresolves
          generalize candidateAbs tree host.working (requestCwd request defaultCWD)
            (pathValue request) = candidate at hreached hstat
          cases candidate with
          | nil =>
            rw [Tree.stat_directory tree.lookup_nil] at hstat
            cases hstat
          | cons name directory =>
            exact (perform_unresolved host operation _ _ hroot hstat).mpr hreached

/-! ## A link out of the workspace -/

/-- More letters than any name of the tree has. -/
def freshName (tree : FileTree.Tree) : Name :=
  lit ".rcoder-" ++
    List.replicate (tree.entries.map fun entry => (entry.1.headD []).length).sum (ofChar '0')

theorem freshName_absent (tree : FileTree.Tree) (directory : Location) :
    tree.lookup (freshName tree :: directory) = none := by
  cases hnode : tree.lookup (freshName tree :: directory) with
  | none => rfl
  | some node =>
    obtain ⟨before, after, hentries, _⟩ := lookup_eq_some_iff.mp hnode
    have hlength : (freshName tree).length ≤
        (tree.entries.map fun entry => (entry.1.headD []).length).sum := by
      refine le_sum_of_mem (mem_map.mpr ⟨⟨freshName tree :: directory, node⟩, ?_, rfl⟩)
      rw [hentries]
      exact mem_append_right _ mem_cons_self
    rw [freshName, length_append, length_replicate] at hlength
    have hbegins : (lit ".rcoder-").length = 8 := rfl
    omega

/-- A system without a repository, on which a search finds nothing. -/
def plainHost : Host Unit where
  working := []
  quote := id
  errorText := fun _ => []
  toLower := id
  temporary := fun tree _ => freshName tree
  temporary_fresh := by
    intro tree directory location hplace
    obtain ⟨_, real, rfl, _⟩ := Tree.place_eq_ok.mp hplace
    exact freshName_absent tree real
  globMatch := fun _ _ => false
  globDescend := fun _ _ => false
  newestFirst := id
  search := fun _ => .ok ⟨(), fun _ => false, fun _ => ((), true), fun _ _ _ => ((), .ok false),
    fun _ _ _ => ((), true)⟩
  lsFiles := fun _ _ => none

/-- `/ws/link` points to `/out`. -/
def linkedTree : FileTree.Tree :=
  .ofEntries
    [([lit "ws"], .directory), ([lit "out"], .directory),
      ([lit "link", lit "ws"], .link ⟨true, [.name (lit "out")]⟩)]
    (by decide)

def throughLink : Request where
  operation := lit "fs.write_text_atomic"
  arguments := { path := some (lit "link/missing/child"), content := some (lit "x") }

theorem execute_staysInside_iff_linked :
    linkedTree.lookup (rootAbs linkedTree plainHost.working (lit "/ws")) = some .directory ∧
      (StaysInside plainHost linkedTree throughLink (lit "/ws") (lit "/ws") ↔
        StartsInside plainHost linkedTree throughLink (lit "/ws") (lit "/ws")) :=
  ⟨by decide +kernel,
    execute_staysInside_iff plainHost linkedTree throughLink (lit "/ws") (lit "/ws")
      (by decide +kernel)⟩

/-- The missing directory is made behind the link. -/
theorem throughLink_leaves :
    ¬StaysInside plainHost linkedTree throughLink (lit "/ws") (lit "/ws") := by
  rintro ⟨hkept, _⟩
  have hcreated : Access.create [lit "missing", lit "out"] ∈
      (execute plainHost throughLink (lit "/ws") (lit "/ws") ⟨linkedTree, []⟩).2.accesses := by
    decide +kernel
  have hbelow := hkept _ hcreated
  exact absurd hbelow (by decide +kernel)

end ReuleauxCoder.Workspace.Files
