import ReuleauxCoder.Workspace.Execute

/-!
# What reading touches

The operations that only read leave the tree alone.  What they read lies inside a location
when the path they are given leads there.
-/

namespace ReuleauxCoder.Workspace.Files

open PyText FileTree FileTree.FileOp List

/-- The tree as it was, and everything touched below `root`. -/
def Within (root : Location) (tree : FileTree.Tree) (world : World) : Prop :=
  world.tree = tree ∧ ∀ access ∈ world.accesses, root <:+ access.location

variable {σ : Type} {root : Location} {tree : FileTree.Tree} {path : Path}

theorem maintains_look {α : Type} (ask : FileTree.Tree → α) :
    Maintains (Within root tree) (look ask) fun value => value = ask tree := by
  rintro world ⟨rfl, haccesses⟩
  exact ⟨⟨rfl, haccesses⟩, rfl⟩

theorem maintains_stat (path : Path) :
    Maintains (Within root tree) (stat path) fun found => found = tree.stat path :=
  maintains_look _

theorem maintains_lstat (path : Path) :
    Maintains (Within root tree) (lstat path) fun found => found = tree.lstat path :=
  maintains_look _

theorem maintains_record {access : Access} (hinside : root <:+ access.location) :
    Maintains (Within root tree) (record access) fun _ => True := by
  rintro world ⟨htree, haccesses⟩
  refine ⟨⟨htree, fun other hother => ?_⟩, trivial⟩
  rcases mem_append.mp hother with hold | hnew
  · exact haccesses other hold
  · exact mem_singleton.mp hnew ▸ hinside

/-- Wherever the path leads, it leads inside. -/
def LeadsInside (root : Location) (tree : FileTree.Tree) (path : Path) : Prop :=
  ∀ info, tree.stat path = .ok info → root <:+ info.location

theorem maintains_readFile (hinside : LeadsInside root tree path) :
    Maintains (Within root tree) (readFile path) fun read =>
      ∀ content, read = .ok content →
        ∃ info, tree.stat path = .ok info ∧ info.node = .file content := by
  refine (maintains_stat path).bind fun found hfound => ?_
  cases found with
  | error error => exact maintains_pure fun _ => nofun
  | ok info =>
    obtain ⟨location, node⟩ := info
    cases node with
    | file content =>
      refine (maintains_record (hinside _ hfound.symm)).bind fun _ _ => maintains_pure ?_
      intro other heq
      exact ⟨⟨location, .file content⟩, hfound.symm, by rw [Except.ok.inj heq]⟩
    | directory => exact maintains_pure fun _ => nofun
    | link target => exact maintains_pure fun _ => nofun

theorem maintains_readDir (hinside : LeadsInside root tree path) :
    Maintains (Within root tree) (readDir path) fun _ => True := by
  refine (maintains_stat path).bind fun found hfound => ?_
  cases found with
  | error error => exact maintains_pure trivial
  | ok info =>
    dsimp only
    split
    · refine (maintains_record (hinside _ hfound.symm)).bind fun _ _ => ?_
      exact (maintains_look _).bind fun _ _ => maintains_pure trivial
    · exact maintains_pure trivial

/-! ## Files -/

theorem maintains_readBytes (host : Host σ) (hinside : LeadsInside root tree path)
    (pathValue : Text) (arguments : Arguments) :
    Maintains (Within root tree) (readBytes host path pathValue arguments) fun _ => True := by
  unfold readBytes
  dsimp only
  split
  · exact maintains_pure trivial
  · refine (maintains_stat path).bind fun found _ => ?_
    cases found with
    | error error => exact maintains_pure trivial
    | ok info =>
      dsimp only
      split
      · refine (maintains_readFile hinside).bind fun read _ => ?_
        cases read with
        | error error => exact maintains_pure trivial
        | ok content =>
          dsimp only
          split <;> exact maintains_pure trivial
      · exact maintains_pure trivial

theorem maintains_readPage (host : Host σ) (hinside : LeadsInside root tree path)
    (pathValue : Text) (arguments : Arguments) :
    Maintains (Within root tree) (readPage host path pathValue arguments) fun _ => True := by
  refine (maintains_stat path).bind fun found _ => ?_
  cases found with
  | error error => cases error <;> exact maintains_pure trivial
  | ok info =>
    dsimp only
    split
    · refine (maintains_readFile hinside).bind fun read _ => ?_
      cases read with
      | error error => exact maintains_pure trivial
      | ok content => exact maintains_pure trivial
    · exact maintains_pure trivial

theorem maintains_unreadable (host : Host σ) (path : Path) (pathValue : Text) (error : Errno) :
    Maintains (Within root tree) (unreadable host path pathValue error) fun _ => True := by
  refine (maintains_stat path).bind fun found _ => ?_
  cases found with
  | error other => exact maintains_pure trivial
  | ok info =>
    dsimp only
    split <;> exact maintains_pure trivial

theorem maintains_readText (host : Host σ) (hinside : LeadsInside root tree path)
    (pathValue : Text) :
    Maintains (Within root tree) (readText host path pathValue) fun _ => True := by
  refine (maintains_readFile hinside).bind fun read _ => ?_
  cases read with
  | ok content => exact maintains_pure trivial
  | error error =>
    cases error with
    | noent => exact maintains_pure trivial
    | _ => exact maintains_unreadable host path pathValue _

theorem maintains_readDocument (hinside : LeadsInside root tree path) :
    Maintains (Within root tree) (readDocument path) fun read =>
      ∀ content, read = .ok (some content) →
        ∃ info, tree.stat path = .ok info ∧ info.node = .file content := by
  refine (maintains_readFile hinside).bind fun read hread => ?_
  cases read with
  | error error => cases error <;> exact maintains_pure fun _ => nofun
  | ok content =>
    refine (maintains_stat path).bind fun found _ => ?_
    cases found with
    | error error => exact maintains_pure fun _ => nofun
    | ok info =>
      refine maintains_pure fun other heq => ?_
      obtain rfl : content = other := Option.some.inj (Except.ok.inj heq)
      exact hread content rfl

theorem maintains_snapshotText (host : Host σ) (hinside : LeadsInside root tree path)
    (pathValue : Text) :
    Maintains (Within root tree) (snapshotText host path pathValue) fun _ => True := by
  refine (maintains_readDocument hinside).bind fun read _ => ?_
  cases read with
  | ok content => exact maintains_pure trivial
  | error error => exact maintains_unreadable host path pathValue error

theorem maintains_statEntry (host : Host σ) (pathValue : Text)
    (hinside : ∀ info, tree.lstat path = .ok info → root <:+ info.location) :
    Maintains (Within root tree) (statEntry host path pathValue) fun _ => True := by
  refine (maintains_lstat path).bind fun found hfound => ?_
  cases found with
  | error error => exact maintains_pure trivial
  | ok info =>
    exact (maintains_record (hinside info hfound.symm)).bind fun _ _ => maintains_pure trivial

/-! ## Directories -/

/-- A directory that stands inside, at its own path. -/
def IsInner (root : Location) (tree : FileTree.Tree) (directory : Path) : Prop :=
  tree.lookup directory = some .directory ∧ root <:+ directory

variable {directory : Path}

theorem IsInner.leadsInside (hinner : IsInner root tree directory) :
    LeadsInside root tree directory := by
  intro info hinfo
  rw [Tree.stat_directory hinner.1, Except.ok.injEq] at hinfo
  rw [← hinfo]
  exact hinner.2

/-- What `Lstat` finds of a directory's child. -/
theorem IsInner.child (hinner : IsInner root tree directory) {name : Name} {info : Info}
    (hinfo : tree.lstat (name :: directory) = .ok info) :
    info.location = name :: directory ∧ tree.lookup (name :: directory) = some info.node := by
  obtain ⟨hplace, hnode⟩ := Tree.lstat_eq_ok.mp hinfo
  have hlocation := Tree.place_of_directory hinner.1 hplace
  exact ⟨hlocation, hlocation ▸ hnode⟩

theorem IsInner.descend (hinner : IsInner root tree directory) {name : Name} {info : Info}
    (hinfo : tree.lstat (name :: directory) = .ok info) (hnode : info.node = .directory) :
    IsInner root tree (name :: directory) :=
  ⟨hnode ▸ (hinner.child hinfo).2, hinner.2.trans (suffix_cons name directory)⟩

theorem maintains_sortedChildren (host : Host σ) (hinner : IsInner root tree directory) :
    Maintains (Within root tree) (sortedChildren host directory) fun _ => True := by
  refine (maintains_readDir hinner.leadsInside).bind fun names _ => ?_
  cases names with
  | error error => exact maintains_pure trivial
  | ok names => exact maintains_pure trivial

theorem maintains_listChildren (recursive includeHidden : Bool) (maxEntries : ℤ)
    (hinner : IsInner root tree directory) (names : List Name) {listing : Listing}
    (hpending : ∀ other ∈ listing.pending, IsInner root tree other) :
    Maintains (Within root tree)
      (listChildren recursive includeHidden maxEntries directory names listing)
      fun after => ∀ other ∈ after.pending, IsInner root tree other := by
  induction names generalizing listing with
  | nil => exact maintains_pure hpending
  | cons child rest ih =>
    rw [listChildren]
    split
    · exact ih hpending
    · refine (maintains_lstat _).bind fun found hfound => ?_
      cases found with
      | error error => exact ih hpending
      | ok info =>
        have hlocation := (hinner.child hfound.symm).1
        have hinside : root <:+ info.location :=
          hlocation ▸ hinner.2.trans (suffix_cons child directory)
        refine (maintains_record hinside).bind fun _ _ => ?_
        dsimp only
        split
        · exact maintains_pure hpending
        · split
          · next hdirectory =>
            refine ih fun other hother => ?_
            rcases mem_cons.mp hother with rfl | hrest
            · simp only [Bool.and_eq_true, decide_eq_true_eq] at hdirectory
              exact hinner.descend hfound.symm hdirectory.2
            · exact hpending other hrest
          · exact ih hpending

theorem maintains_listLoop (host : Host σ) (recursive includeHidden : Bool) (maxEntries : ℤ)
    (rounds : ℕ) {listing : Listing}
    (hpending : ∀ other ∈ listing.pending, IsInner root tree other) :
    Maintains (Within root tree)
      (listLoop host recursive includeHidden maxEntries rounds listing) fun _ => True := by
  induction rounds generalizing listing with
  | zero => exact maintains_pure trivial
  | succ rounds ih =>
    rw [listLoop]
    split
    · exact maintains_pure trivial
    · next directory pending heq =>
      have hinner := hpending directory (by rw [heq]; exact mem_cons_self)
      split
      · exact maintains_pure trivial
      · refine (maintains_sortedChildren host hinner).bind fun names _ => ?_
        cases names with
        | error error => exact maintains_pure trivial
        | ok names =>
          refine (maintains_listChildren _ _ _ hinner names fun other hother => ?_).bind
            fun _ hafter => ih hafter
          exact hpending other (by rw [heq]; exact mem_cons_of_mem _ hother)

theorem maintains_visitMatch (host : Host σ) (pattern : Text) {child : Name} (below : Path)
    (hinner : IsInner root tree directory) (hits : List Info) :
    Maintains (Within root tree) (visitMatch host pattern (child :: directory) below hits)
      fun _ => True := by
  unfold visitMatch
  split
  · refine (maintains_lstat _).bind fun found hfound => ?_
    cases found with
    | error error => exact maintains_pure trivial
    | ok info =>
      have hlocation := (hinner.child hfound.symm).1
      refine (maintains_record ?_).bind fun _ _ => maintains_pure trivial
      exact hlocation ▸ hinner.2.trans (suffix_cons child directory)
  · exact maintains_pure trivial

theorem maintains_scanChildren (host : Host σ) (pattern : Text) (maxEntries : ℤ) (below : Path)
    (hinner : IsInner root tree directory) (names : List Name) {scan : Scan}
    (hpending : ∀ other ∈ scan.pending, IsInner root tree other.1) :
    Maintains (Within root tree)
      (scanChildren host pattern maxEntries directory below names scan)
      fun after => ∀ other ∈ after.pending, IsInner root tree other.1 := by
  induction names generalizing scan with
  | nil => exact maintains_pure hpending
  | cons child rest ih =>
    refine (maintains_visitMatch host pattern _ hinner scan.hits).bind fun hits _ => ?_
    dsimp only
    split
    · exact maintains_pure hpending
    · refine (maintains_lstat _).bind fun found hfound => ?_
      cases found with
      | error error => exact ih hpending
      | ok info =>
        refine ih ?_
        split
        · next hdirectory =>
          intro other hother
          rcases mem_cons.mp hother with rfl | hrest
          · exact hinner.descend hfound.symm hdirectory.1
          · exact hpending other hrest
        · exact hpending

theorem maintains_scanLoop (host : Host σ) (pattern : Text) (maxEntries : ℤ) (rounds : ℕ)
    {scan : Scan} (hpending : ∀ other ∈ scan.pending, IsInner root tree other.1) :
    Maintains (Within root tree) (scanLoop host pattern maxEntries rounds scan)
      fun _ => True := by
  induction rounds generalizing scan with
  | zero => exact maintains_pure trivial
  | succ rounds ih =>
    rw [scanLoop]
    split
    · exact maintains_pure trivial
    · next directory below pending heq =>
      have hinner := hpending (directory, below) (by rw [heq]; exact mem_cons_self)
      split
      · exact maintains_pure trivial
      · refine (maintains_sortedChildren host hinner).bind fun names _ => ?_
        cases names with
        | error error => exact maintains_pure trivial
        | ok names =>
          refine (maintains_scanChildren host pattern maxEntries below hinner names
            fun other hother => ?_).bind fun _ hafter => ih hafter
          exact hpending other (by rw [heq]; exact mem_cons_of_mem _ hother)

/-- What `Lstat` finds at the path, unless it is a link, stands inside at the path itself. -/
def StandsInside (root : Location) (tree : FileTree.Tree) (path : Path) : Prop :=
  ∀ info, tree.lstat path = .ok info → (∀ target, info.node ≠ .link target) →
    info.location = path ∧ root <:+ path

theorem StandsInside.isInner (hstands : StandsInside root tree path) {info : Info}
    (hinfo : tree.lstat path = .ok info) (hnode : info.node = .directory) :
    IsInner root tree path := by
  obtain ⟨hlocation, hinside⟩ := hstands info hinfo (fun target => by rw [hnode]; exact nofun)
  exact ⟨by rw [← hnode, ← (Tree.lstat_eq_ok.mp hinfo).2, hlocation], hinside⟩

theorem maintains_listEntries (host : Host σ) (hstands : StandsInside root tree path)
    (pathValue : Text) (arguments : Arguments) :
    Maintains (Within root tree) (listEntries host path pathValue arguments) fun _ => True := by
  refine (maintains_lstat path).bind fun found hfound => ?_
  cases found with
  | error error => exact maintains_pure trivial
  | ok info =>
    obtain ⟨location, node⟩ := info
    cases node with
    | file content =>
      obtain ⟨hlocation, hinside⟩ := hstands _ hfound.symm (fun _ => nofun)
      refine (maintains_record ?_).bind fun _ _ => maintains_pure trivial
      exact hlocation ▸ hinside
    | link target => exact maintains_pure trivial
    | directory =>
      have hinner := hstands.isInner hfound.symm rfl
      dsimp only
      split
      · exact maintains_pure trivial
      · refine (maintains_look _).bind fun rounds _ => ?_
        refine (maintains_listLoop host _ _ _ rounds fun other hother => ?_).bind
          fun listed _ => ?_
        · exact mem_singleton.mp hother ▸ hinner
        · cases listed with
          | error error => exact maintains_pure trivial
          | ok listing => exact maintains_pure trivial

theorem maintains_globEntries (host : Host σ) (hstands : StandsInside root tree path)
    (pathValue : Text) (arguments : Arguments) :
    Maintains (Within root tree) (globEntries host path pathValue arguments) fun _ => True := by
  refine (maintains_lstat path).bind fun found hfound => ?_
  cases found with
  | error error => exact maintains_pure trivial
  | ok info =>
    dsimp only
    split
    · exact maintains_pure trivial
    · next hnode =>
      have hinner := hstands.isInner hfound.symm (not_not.mp hnode)
      split
      · exact maintains_pure trivial
      · split
        · exact maintains_pure trivial
        · split
          · exact maintains_pure trivial
          · refine (maintains_look _).bind fun rounds _ => ?_
            refine (maintains_scanLoop host _ _ rounds fun other hother => ?_).bind
              fun scanned _ => ?_
            · exact mem_singleton.mp hother ▸ hinner
            · cases scanned with
              | error error => exact maintains_pure trivial
              | ok scan => exact maintains_pure trivial

/-! ## Searches -/

theorem lookup_of_lstat (hsettled : tree.Settled path) {info : Info}
    (hinfo : tree.lstat path = .ok info) :
    info.location = path ∧ tree.lookup path = some info.node := by
  obtain ⟨hplace, hnode⟩ := Tree.lstat_eq_ok.mp hinfo
  have hlocation : info.location = path := by
    cases path with
    | nil => simpa [Tree.place, eq_comm] using hplace
    | cons name directory =>
      exact Tree.place_of_directory (tree.settled_tail hsettled) hplace
  exact ⟨hlocation, hlocation ▸ hnode⟩

/-- A file that stands inside, at its own path. -/
theorem leadsInside_of_file {full : Path} {content : Text}
    (hfile : tree.lookup full = some (.file content)) (hinside : root <:+ full) :
    LeadsInside root tree full := by
  intro info hinfo
  rw [Tree.stat_settled hfile (fun _ => nofun), Except.ok.injEq] at hinfo
  exact hinfo ▸ hinside

theorem maintains_visit (visitor : Visitor σ) {full : Path} {node : Node}
    (hnode : tree.lookup full = some node) (hinside : root <:+ full) (search : σ) :
    Maintains (Within root tree) (visit visitor full node search) fun _ => True := by
  unfold visit
  split
  · exact maintains_pure trivial
  · next content _ =>
    split
    · exact maintains_pure trivial
    · exact maintains_pure trivial
    · refine (maintains_readFile (leadsInside_of_file hnode hinside)).bind fun read _ => ?_
      cases read with
      | error error => cases error <;> exact maintains_pure trivial
      | ok content =>
        dsimp only
        split <;> exact maintains_pure trivial
  · exact maintains_pure trivial

theorem maintains_walkEntry (visitor : Visitor σ)
    {descend : Path → σ → FileOp (Except (Ending σ) σ)}
    (hdescend : ∀ directory search, IsInner root tree directory →
      Maintains (Within root tree) (descend directory search) fun _ => True)
    (hinner : IsInner root tree directory) {child : Name} {info : Info}
    (hinfo : tree.lstat (child :: directory) = .ok info) (search : σ) :
    Maintains (Within root tree) (walkEntry visitor descend child directory info.node search)
      fun _ => True := by
  unfold walkEntry
  split
  · next hnode =>
    split
    · exact maintains_pure trivial
    · exact hdescend _ _ (hinner.descend hinfo hnode)
  · exact maintains_visit visitor (hinner.child hinfo).2
      (hinner.2.trans (suffix_cons child directory)) search

theorem maintains_walkChildren (visitor : Visitor σ)
    {descend : Path → σ → FileOp (Except (Ending σ) σ)}
    (hdescend : ∀ directory search, IsInner root tree directory →
      Maintains (Within root tree) (descend directory search) fun _ => True)
    (hinner : IsInner root tree directory) (names : List Name) (search : σ) :
    Maintains (Within root tree) (walkChildren visitor descend directory names search)
      fun _ => True := by
  induction names generalizing search with
  | nil => exact maintains_pure trivial
  | cons child rest ih =>
    refine (maintains_lstat _).bind fun found hfound => ?_
    cases found with
    | error error => exact maintains_pure trivial
    | ok info =>
      refine (maintains_walkEntry visitor hdescend hinner hfound.symm search).bind
        fun visited _ => ?_
      cases visited with
      | error ending => exact maintains_pure trivial
      | ok search => exact ih search

theorem maintains_walkDir (visitor : Visitor σ) (depth : ℕ) (hinner : IsInner root tree directory)
    (search : σ) :
    Maintains (Within root tree) (walkDir visitor depth directory search) fun _ => True := by
  induction depth generalizing directory search with
  | zero => exact maintains_pure trivial
  | succ depth ih =>
    refine (maintains_readDir hinner.leadsInside).bind fun listed _ => ?_
    cases listed with
    | error error => exact maintains_pure trivial
    | ok names =>
      exact maintains_walkChildren visitor (fun _ search hother => ih hother search) hinner
        names search

theorem relNames_eq_up {base path : List Name} :
    escapes (relNames base path) = false ↔ base <+: path := by
  induction base generalizing path with
  | nil => cases path <;> simp [relNames, escapes]
  | cons name base ih =>
    cases path with
    | nil => simp [relNames, escapes]
    | cons other path =>
      by_cases heq : name = other
      · subst heq
        rw [relNames, if_pos rfl, ih, cons_prefix_cons]
        simp
      · rw [relNames, if_neg heq, cons_prefix_cons]
        simp [escapes, heq]

/-- A relative path that does not climb stays below its base. -/
theorem escapes_rel {base path : Path} : escapes (rel base path) = false ↔ base <:+ path := by
  rw [rel, relNames_eq_up, List.reverse_prefix]

theorem maintains_visitIndex (visitor : Visitor σ) (hinside : root <:+ path)
    (names : List Text) (search : σ) :
    Maintains (Within root tree) (visitIndex visitor path names search) fun _ => True := by
  induction names generalizing search with
  | nil => exact maintains_pure trivial
  | cons name rest ih =>
    rw [visitIndex]
    refine (maintains_look _).bind fun resolved hresolved => ?_
    cases resolved with
    | error error =>
      cases error with
      | noent => exact ih search
      | _ => exact maintains_pure trivial
    | ok resolved =>
      dsimp only
      split
      · exact ih search
      · next hkept =>
        obtain ⟨hsame, hrel⟩ := not_or.mp hkept
        obtain rfl : resolved = clean path name := not_not.mp hsame
        have hbelow : path <:+ clean path name :=
          escapes_rel.mp (Bool.eq_false_iff.mpr hrel)
        have hsettled : tree.Settled (clean path name) :=
          Tree.settled_of_evalSymlinks hresolved.symm
        refine (maintains_lstat _).bind fun found hfound => ?_
        cases found with
        | error error =>
          cases error with
          | noent => exact ih search
          | _ => exact maintains_pure trivial
        | ok info =>
          obtain ⟨_, hnode⟩ := lookup_of_lstat hsettled hfound.symm
          refine (maintains_visit visitor hnode (hinside.trans hbelow) search).bind
            fun visited _ => ?_
          cases visited with
          | error ending => exact maintains_pure trivial
          | ok search => exact ih search

theorem maintains_searchText (host : Host σ) (hstands : StandsInside root tree path)
    (hleads : ∀ info, tree.stat path = .ok info → info.location = path ∧ root <:+ path)
    (arguments : Arguments) :
    Maintains (Within root tree) (searchText host path arguments) fun _ => True := by
  unfold searchText
  cases host.search arguments with
  | error failed => exact maintains_pure trivial
  | ok visitor =>
    refine (maintains_stat path).bind fun found hfound => ?_
    cases found with
    | error error => exact maintains_pure trivial
    | ok info =>
      obtain ⟨hlocation, hinside⟩ := hleads info hfound.symm
      have hnode : tree.lookup path = some info.node :=
        hlocation ▸ (Tree.stat_eq_ok.mp hfound.symm).2
      have hsettled : tree.Settled path :=
        hlocation ▸ Tree.settled_of_resolve (Tree.stat_eq_ok.mp hfound.symm).1
      have hfiles : Maintains (Within root tree) (searchFiles host visitor path info.node)
          fun _ => True := by
        unfold searchFiles
        split
        · refine (maintains_look _).bind fun listed _ => ?_
          cases listed with
          | some names => exact maintains_visitIndex visitor hinside names visitor.start
          | none =>
            refine (maintains_lstat path).bind fun entry hentry => ?_
            cases entry with
            | error error => exact maintains_pure trivial
            | ok entry =>
              dsimp only
              split
              · next hdirectory =>
                refine (maintains_look _).bind fun depth _ => ?_
                exact maintains_walkDir visitor depth (hstands.isInner hentry.symm hdirectory) _
              · next hother =>
                obtain ⟨_, hsame⟩ := lookup_of_lstat hsettled hentry.symm
                exact maintains_visit visitor hsame hinside visitor.start
        · exact maintains_visit visitor hnode hinside visitor.start
      refine hfiles.bind fun searched _ => ?_
      cases searched with
      | error ending => cases ending <;> exact maintains_pure trivial
      | ok search => exact maintains_pure trivial

end ReuleauxCoder.Workspace.Files
