import ReuleauxCoder.Workspace.ApplyPatch

/-!
# Patches under concurrent writers

The report of a patch always agrees with the writes that it made, and a file that is
reported as failed or unattempted was not written.  What a write replaces is only
looked at for the receipt, so it is what the hunks were matched against exactly when
nobody changed the file between its preparation and its replacement.
-/

namespace ReuleauxCoder.Workspace

open PyText PyJson Check List

variable {Path Bytes : Type}

/-- The paths of a patch that is accepted. -/
def patchPaths (patch : Text) : List Text :=
  match parsePatch patch with
  | .ok files => files.map PatchFile.path
  | .error _ => []

theorem patchPaths_nodup (patch : Text) : (patchPaths patch).Nodup := by
  rw [patchPaths]
  split
  · rename_i files hparse
    exact (parsePatch_accepted hparse).1.distinct
  · exact nodup_nil

/-- The prepared file is what the loop of `_prepare` makes of the contents it read. -/
def Prepared.Matches (host : Host Path Bytes) (expected : List (Text × Text))
    (item : Prepared Bytes) : Prop :=
  prepareFile host expected item.file item.base = .ok item

variable {item : Prepared Bytes}

variable {file : PatchFile}

theorem prepareFile_eq_ok {host : Host Path Bytes} {expected : List (Text × Text)}
    {found : Option Bytes} (hprepare : prepareFile host expected file found = .ok item) :
    item.file = file ∧ item.base = found ∧ item.path = file.path := by
  unfold prepareFile at hprepare
  split at hprepare
  · simp only [bind_eq_ok, exists_unit, pure_eq_ok] at hprepare
    obtain ⟨-, rfl⟩ := hprepare
    exact ⟨rfl, rfl, rfl⟩
  · split at hprepare
    · cases hprepare
    · simp only [bind_eq_ok, exists_unit, pure_eq_ok] at hprepare
      obtain ⟨-, content, -, rfl⟩ := hprepare
      exact ⟨rfl, rfl, rfl⟩

theorem Prepared.Matches.path {host : Host Path Bytes} {expected : List (Text × Text)}
    (hmatches : item.Matches host expected) : item.path = item.file.path :=
  (prepareFile_eq_ok hmatches).2.2

namespace State

/-- The paths that the patch has written, in order. -/
def written (state : State Path Bytes) : List Text :=
  (state.history.filterMap Write.item).map Prepared.path

/-- The paths that are reported as written, or will be. -/
def Placed (host : Host Path Bytes) (expected : List (Text × Text)) (paths written : List Text) :
    Phase Path Bytes → Prop
  | .preparing _ prepared rest =>
      written = [] ∧ prepared.map Prepared.path ++ rest.map PatchFile.path = paths ∧
        ∀ item ∈ prepared, item.Matches host expected
  | .writing completed item rest =>
      written = completed.map Prod.fst ∧
        completed.map Prod.fst ++ item.path :: rest.map Prepared.path = paths ∧
        ∀ other ∈ item :: rest, other.Matches host expected
  | .replacing completed item rest target _ encoded =>
      written = completed.map Prod.fst ∧
        completed.map Prod.fst ++ item.path :: rest.map Prepared.path = paths ∧
        (∀ other ∈ item :: rest, other.Matches host expected) ∧
        host.resolve item.path = .ok target ∧ host.encode item.newContent = some encoded
  | .confirming completed item rest _ _ _ failure =>
      written = completed.map Prod.fst ++ (if failure.isSome then [] else [item.path]) ∧
        completed.map Prod.fst ++ item.path :: rest.map Prepared.path = paths ∧
        ∀ other ∈ rest, other.Matches host expected
  | .finished (.invalid _) => written = []
  | .finished (.raised _) => written <+: paths
  | .finished (.stopped applied failed unattempted _) =>
      written = applied ∧ applied ++ failed :: unattempted = paths
  | .finished (.applied results) => written = results.map Prod.fst ∧ written = paths

variable {host : Host Path Bytes} {expected : List (Text × Text)} {paths : List Text}
  {files : Path → Option Bytes}

/-! ## The accesses of the patch -/

variable {written : List Text} {completed : List (Text × Receipt Path)}
  {rest : List (Prepared Bytes)}

theorem placed_prepareFailed (hwritten : written = []) (preflight : Bool) (message : Text) :
    Placed host expected paths written (prepareFailed preflight message) := by
  cases preflight with
  | true => exact hwritten
  | false => exact hwritten ▸ List.nil_prefix

theorem placed_prepareNext {preflight : Bool} {prepared : List (Prepared Bytes)}
    {rest : List PatchFile}
    (hplaced : Placed host expected paths written (.preparing preflight prepared (file :: rest)))
    (fault : Option Fault) :
    Placed host expected paths written
      (prepareNext host expected files fault preflight prepared file rest) := by
  obtain ⟨hwritten, hpaths, hmatches⟩ := hplaced
  unfold prepareNext
  split
  · exact placed_prepareFailed hwritten _ _
  · split
    · exact placed_prepareFailed hwritten _ _
    · rename_i item hitem
      obtain ⟨hfile, hbase, hpath⟩ := prepareFile_eq_ok hitem
      refine ⟨hwritten, ?_, fun other hother => ?_⟩
      · rw [← hpaths, map_append, map_singleton, hpath, map_cons, append_assoc]
        rfl
      · rcases mem_append.mp hother with hold | hnew
        · exact hmatches other hold
        · rw [mem_singleton.mp hnew, Prepared.Matches, hfile, hbase]
          exact hitem

theorem placed_nextWrite (hwritten : written = completed.map Prod.fst)
    (hpaths : completed.map Prod.fst ++ rest.map Prepared.path = paths)
    (hmatches : ∀ item ∈ rest, item.Matches host expected) :
    Placed host expected paths written (nextWrite completed rest) := by
  cases rest with
  | nil =>
      rw [map_nil, append_nil] at hpaths
      exact ⟨hwritten, hwritten.trans hpaths⟩
  | cons item rest => exact ⟨hwritten, hpaths, hmatches⟩

theorem placed_beginWrite
    (hplaced : Placed host expected paths written (.writing completed item rest))
    (fault : Option Fault) :
    Placed host expected paths written (beginWrite host files fault completed item rest) := by
  obtain ⟨hwritten, hpaths, hmatches⟩ := hplaced
  have hstop : ∀ error, Placed host expected paths written (stop completed item rest error) :=
    fun _ => ⟨hwritten, hpaths⟩
  unfold beginWrite
  split
  · exact hstop _
  · rename_i target htarget
    split
    · exact hstop _
    · split
      · exact hstop _
      · split
        · rw [hwritten, ← hpaths]
          exact prefix_append _ _
        · rename_i encoded hencoded
          exact ⟨hwritten, hpaths, hmatches, htarget, hencoded⟩

variable {before : Revision} {encoded : Bytes} {target : Path}

theorem placed_confirm {failure : Option Fault} (hplaced : Placed host expected paths written
      (.confirming completed item rest target before encoded failure)) (fault : Option Fault) :
    Placed host expected paths written
      (confirm host files fault completed item rest target before encoded failure) := by
  obtain ⟨hwritten, hpaths, hmatches⟩ := hplaced
  cases failure with
  | some failure => exact ⟨by simpa using hwritten, hpaths⟩
  | none =>
      refine placed_nextWrite (by simpa using hwritten) ?_ hmatches
      rw [← hpaths, map_append, append_assoc]
      rfl

/-! ## Files that wait to be written -/

/-- The files that are prepared and not yet written. -/
def pending : Phase Path Bytes → List (Prepared Bytes)
  | .preparing false prepared _ => prepared
  | .writing _ item rest | .replacing _ item rest _ _ _ => item :: rest
  | .confirming _ _ rest _ _ _ none => rest
  | _ => []

/-- Every file that is prepared and not yet written has the contents that it had. -/
def Kept (host : Host Path Bytes) (files : Path → Option Bytes)
    (items : List (Prepared Bytes)) : Prop :=
  ∀ item ∈ items, ∀ target, host.resolve item.path = .ok target → files target = item.base

variable {fault : Option Fault}

theorem snapshot_eq_ok {path : Text} {found result : Option Bytes}
    (hread : (snapshot path found fault : Except (WorkspaceError Path) (Option Bytes)) =
      .ok result) : result = found := by
  cases fault with
  | none =>
      cases hread
      rfl
  | some fault =>
      rw [snapshot] at hread
      split at hread <;> cases hread

theorem kept_prepareNext {preflight : Bool} {prepared : List (Prepared Bytes)}
    {rest : List PatchFile}
    (hkept : Kept host files (pending (.preparing preflight prepared (file :: rest) :
      Phase Path Bytes))) :
    Kept host files
      (pending (prepareNext host expected files fault preflight prepared file rest)) := by
  have hnone : Kept host files [] := fun item hitem => by cases hitem
  have hfailed : ∀ message, Kept host files
      (pending (prepareFailed preflight message : Phase Path Bytes)) := fun _ => hnone
  unfold prepareNext
  split
  · exact hfailed _
  · rename_i found hread
    split
    · exact hfailed _
    · rename_i item hitem
      obtain ⟨-, hbase, hpath⟩ := prepareFile_eq_ok hitem
      cases preflight with
      | true => exact hnone
      | false =>
          intro other hother target htarget
          rcases mem_append.mp hother with hold | hnew
          · exact hkept other hold target htarget
          · rw [mem_singleton.mp hnew] at htarget ⊢
            rw [hpath] at htarget
            rw [htarget] at hread
            rw [hbase]
            exact (snapshot_eq_ok hread).symm

theorem pending_nextWrite (completed : List (Text × Receipt Path)) (rest : List (Prepared Bytes)) :
    pending (nextWrite completed rest) = rest := by
  cases rest <;> rfl

theorem kept_beginWrite (hkept : Kept host files (item :: rest)) :
    Kept host files (pending (beginWrite host files fault completed item rest)) := by
  have hnone : Kept host files [] := fun item hitem => by cases hitem
  unfold beginWrite
  split
  · exact hnone
  · split
    · exact hnone
    · split
      · exact hnone
      · split
        · exact hnone
        · exact hkept

theorem kept_confirm {failure : Option Fault} (hkept : Kept host files
      (pending (.confirming completed item rest target before encoded failure))) :
    Kept host files
      (pending (confirm host files fault completed item rest target before encoded failure)) := by
  cases failure with
  | some failure => exact fun item hitem => by cases hitem
  | none =>
      show Kept host files (pending (nextWrite _ rest))
      rw [pending_nextWrite]
      exact hkept

theorem kept_start (patch : Text) :
    Kept host files (pending (start host patch expected files).phase) := by
  intro item hitem
  rw [start] at hitem
  dsimp only at hitem
  split at hitem <;> cases hitem

section

variable [DecidableEq Path]

/-- The account that a run keeps of its writes. -/
structure Accounted (host : Host Path Bytes) (expected : List (Text × Text)) (paths : List Text)
    (files : Path → Option Bytes) (state : State Path Bytes) : Prop where
  replay : state.files =
    state.history.foldl (fun files write => Function.update files write.path write.content) files
  prepared : ∀ write ∈ state.history, ∀ item, write.item = some item →
    item.Matches host expected ∧ host.resolve item.path = .ok write.path ∧
      host.encode item.newContent = write.content
  placed : Placed host expected paths state.written state.phase

variable {state : State Path Bytes}

theorem accounted_start (patch : Text) :
    Accounted host expected (patchPaths patch) files (start host patch expected files) where
  replay := rfl
  prepared write hwrite := by cases hwrite
  placed := by
    rw [start, patchPaths]
    cases hparse : parsePatch patch with
    | error error => exact rfl
    | ok files =>
        simp only [bind, Except.bind]
        cases checkExpected expected files with
        | error error => exact rfl
        | ok _ => exact ⟨rfl, rfl, fun item hitem => by cases hitem⟩

section

variable (haccounted : state.Accounted host expected paths files)
include haccounted

/-- A step that writes nothing only has to find the right place. -/
theorem Accounted.of_placed
    {phase : Phase Path Bytes} (hplaced : Placed host expected paths state.written phase) :
    Accounted host expected paths files { state with phase } where
  replay := haccounted.replay
  prepared := haccounted.prepared
  placed := hplaced

theorem accounted_external (path : Path)
    (content : Option Bytes) :
    (state.write path content none).Accounted host expected paths files where
  replay := by
    show Function.update state.files path content = (state.history ++ [_]).foldl _ files
    rw [foldl_append, ← haccounted.replay]
    rfl
  prepared write hwrite item hitem := by
    rcases mem_append.mp hwrite with hold | hnew
    · exact haccounted.prepared write hold item hitem
    · rw [mem_singleton.mp hnew] at hitem
      cases hitem
  placed := by
    have hwritten : (state.write path content none).written = state.written := by
      simp [written, write]
    rw [hwritten]
    exact haccounted.placed

/-! ## Steps -/

theorem accounted_replace
    (hphase : state.phase = .replacing completed item rest target before encoded) :
    Accounted host expected paths files
      { state.write target (some encoded) (some item) with
        phase := .confirming completed item rest target before encoded none } := by
  have hplaced := haccounted.placed
  rw [hphase] at hplaced
  obtain ⟨hwritten, hpaths, hmatches, htarget, hencoded⟩ := hplaced
  exact {
    replay := by
      show Function.update state.files target (some encoded) =
        (state.history ++ [_]).foldl _ files
      rw [foldl_append, ← haccounted.replay]
      rfl
    prepared := by
      intro write hwrite other hother
      rcases mem_append.mp hwrite with hold | hnew
      · exact haccounted.prepared write hold other hother
      · rw [mem_singleton.mp hnew] at hother ⊢
        cases hother
        exact ⟨hmatches item mem_cons_self, htarget, hencoded⟩
    placed := by
      refine ⟨?_, hpaths, fun other hother => hmatches other (mem_cons_of_mem _ hother)⟩
      show ((state.history ++ [_]).filterMap Write.item).map Prepared.path = _
      rw [filterMap_append, map_append]
      exact congrArg (· ++ [item.path]) hwritten }

theorem accounted_proceed
    (fault : Option Fault) :
    (state.proceed host expected fault).Accounted host expected paths files := by
  have hplaced := haccounted.placed
  unfold proceed
  split
  · rename_i preflight prepared file rest hphase
    rw [hphase] at hplaced
    exact haccounted.of_placed (placed_prepareNext hplaced _)
  · rename_i prepared hphase
    rw [hphase] at hplaced
    obtain ⟨hwritten, hpaths, hmatches⟩ := hplaced
    refine haccounted.of_placed ⟨hwritten, ?_, fun item hitem => by cases hitem⟩
    rw [← hpaths, map_map]
    simpa using fun item hitem => ((hmatches item hitem).path).symm
  · rename_i prepared hphase
    rw [hphase] at hplaced
    obtain ⟨hwritten, hpaths, hmatches⟩ := hplaced
    refine haccounted.of_placed (placed_nextWrite hwritten ?_ hmatches)
    simpa using hpaths
  · rename_i completed item rest hphase
    rw [hphase] at hplaced
    exact haccounted.of_placed (placed_beginWrite hplaced _)
  · rename_i completed item rest target before encoded hphase
    split
    · rw [hphase] at hplaced
      obtain ⟨hwritten, hpaths, hmatches, -, -⟩ := hplaced
      refine haccounted.of_placed ⟨?_, hpaths, fun other hother =>
        hmatches other (mem_cons_of_mem _ hother)⟩
      simpa using hwritten
    · exact accounted_replace haccounted hphase
  · rename_i hphase
    rw [hphase] at hplaced
    exact haccounted.of_placed (placed_confirm hplaced _)
  · exact haccounted

/-- Whoever writes in between, the files are those that the history leaves, and each write of the
patch put in place what it had prepared. -/
theorem step_accounted
    (action : Action Path Bytes) :
    (state.step host expected action).Accounted host expected paths files := by
  cases action with
  | external path content => exact accounted_external haccounted path content
  | proceed fault => exact accounted_proceed haccounted fault

end

/-! ## What a write replaces -/

/-- Every file that the patch wrote still had the contents that it was prepared from. -/
def Faithful (state : State Path Bytes) : Prop :=
  ∀ write ∈ state.history, ∀ item, write.item = some item → write.found = item.base

/-- When the patch replaces a file, the file has the contents it was prepared from. -/
def Unchanged (state : State Path Bytes) : Action Path Bytes → Prop
  | .external _ _ => True
  | .proceed fault =>
      match state.phase, fault with
      | .replacing _ item _ target _ _, none => state.files target = item.base
      | _, _ => True

theorem faithful_write (path : Path) (content : Option Bytes) (item : Option (Prepared Bytes)) :
    (state.write path content item).Faithful ↔
      state.Faithful ∧ ∀ other, item = some other → state.files path = other.base := by
  simp only [Faithful, write, mem_append, mem_singleton]
  constructor
  · intro hall
    exact ⟨fun write hwrite => hall write (.inl hwrite), hall _ (.inr rfl)⟩
  · rintro ⟨hold, hnew⟩ write (hwrite | rfl)
    · exact hold write hwrite
    · exact hnew

/-- A patch stays faithful exactly when the file it replaces still is what it had read. -/
theorem step_faithful (action : Action Path Bytes) :
    (state.step host expected action).Faithful ↔ state.Faithful ∧ state.Unchanged action := by
  cases action with
  | external path content =>
      refine (faithful_write path content none).trans (and_congr_right fun _ => ?_)
      simp [Unchanged]
  | proceed fault =>
      have hstays : state.Unchanged (.proceed fault) →
          ∀ phase, Faithful { state with phase } ↔
            state.Faithful ∧ state.Unchanged (.proceed fault) :=
        fun hunchanged _ => (and_iff_left hunchanged).symm
      show (state.proceed host expected fault).Faithful ↔ _
      unfold proceed
      split
      · rename_i hphase
        exact hstays (by simp [Unchanged, hphase]) _
      · rename_i hphase
        exact hstays (by simp [Unchanged, hphase]) _
      · rename_i hphase
        exact hstays (by simp [Unchanged, hphase]) _
      · rename_i hphase
        exact hstays (by simp [Unchanged, hphase]) _
      · rename_i completed item rest target before encoded hphase
        cases fault with
        | some fault => exact hstays (by simp [Unchanged, hphase]) _
        | none =>
            refine (faithful_write target (some encoded) (some item)).trans
              (and_congr_right fun _ => ?_)
            simp [Unchanged, hphase]
      · rename_i hphase
        exact hstays (by simp [Unchanged, hphase]) _
      · rename_i hphase
        exact hstays (by simp [Unchanged, hphase]) _

theorem foldl_faithful (actions : List (Action Path Bytes)) :
    (actions.foldl (step host expected) state).Faithful ↔
      state.Faithful ∧ Transition.Meets (step host expected) Unchanged state actions := by
  induction actions generalizing state with
  | nil => simp [Transition.Meets]
  | cons action rest ih =>
      rw [foldl_cons, ih, step_faithful, and_assoc]
      rfl

/-! ## Nobody else writes -/

/-- A step changes no file that is prepared and not yet written, apart from the one
that the patch writes. -/
def Quiet (host : Host Path Bytes) (state : State Path Bytes) : Action Path Bytes → Prop
  | .external path content =>
      ∀ item ∈ pending state.phase, host.resolve item.path = .ok path →
        content = state.files path
  | .proceed fault =>
      match state.phase, fault with
      | .replacing _ _ rest target _ _, none =>
          ∀ other ∈ rest, host.resolve other.path ≠ .ok target
      | _, _ => True

theorem proceed_kept (hkept : Kept host state.files (pending state.phase))
    (hquiet : state.Quiet host (.proceed fault)) :
    Kept host (state.proceed host expected fault).files
      (pending (state.proceed host expected fault).phase) := by
  unfold proceed
  split
  · rename_i hphase
    rw [hphase] at hkept
    exact kept_prepareNext hkept
  · exact fun item hitem => by cases hitem
  · rename_i hphase
    rw [hphase] at hkept
    rw [pending_nextWrite]
    exact hkept
  · rename_i hphase
    rw [hphase] at hkept
    exact kept_beginWrite hkept
  · rename_i completed item rest target before encoded hphase
    rw [hphase] at hkept
    cases fault with
    | some fault => exact fun other hother => by cases hother
    | none =>
        simp only [Quiet, hphase] at hquiet
        intro other hother path hpath
        have hne : path ≠ target := by
          rintro rfl
          exact hquiet other hother hpath
        exact (Function.update_of_ne hne _ _).trans
          (hkept other (mem_cons_of_mem _ hother) path hpath)
  · rename_i hphase
    rw [hphase] at hkept
    exact kept_confirm hkept
  · exact hkept

theorem external_kept (hkept : Kept host state.files (pending state.phase)) {path : Path}
    {content : Option Bytes} (hquiet : state.Quiet host (.external path content)) :
    Kept host (state.write path content none).files (pending state.phase) := by
  intro item hitem target htarget
  show Function.update state.files path content target = _
  by_cases heq : target = path
  · subst heq
    rw [Function.update_self, hquiet item hitem htarget]
    exact hkept item hitem target htarget
  · rw [Function.update_of_ne heq]
    exact hkept item hitem target htarget

theorem unchanged_of_kept (haccounted : state.Accounted host expected paths files)
    (hkept : Kept host state.files (pending state.phase)) (action : Action Path Bytes) :
    state.Unchanged action := by
  cases action with
  | external path content => trivial
  | proceed fault =>
      simp only [Unchanged]
      split
      · rename_i completed item rest target before encoded hphase
        have hplaced := haccounted.placed
        rw [hphase] at hplaced hkept
        exact hkept item mem_cons_self target hplaced.2.2.2.1
      · trivial

theorem meets_unchanged (haccounted : state.Accounted host expected paths files)
    (hkept : Kept host state.files (pending state.phase)) {actions : List (Action Path Bytes)}
    (hquiet : Transition.Meets (step host expected) (Quiet host) state actions) :
    Transition.Meets (step host expected) Unchanged state actions := by
  induction actions generalizing state with
  | nil => trivial
  | cons action rest ih =>
      refine ⟨unchanged_of_kept haccounted hkept action,
        ih (step_accounted haccounted action) ?_ hquiet.2⟩
      cases action with
      | external path content => exact external_kept hkept hquiet.1
      | proceed fault => exact proceed_kept hkept hquiet.1

/-! ## The contract of a patch -/

/-- What `apply_patch` reports of its writes. -/
def Reports (paths written : List Text) : Phase Path Bytes → Prop
  | .finished (.invalid _) => written = []
  | .finished (.stopped applied failed unattempted _) =>
      written = applied ∧ applied ++ failed :: unattempted = paths ∧ failed ∉ written
  | .finished (.applied results) => written = results.map Prod.fst ∧ written = paths
  | _ => True

/-- The writes of a run make up the files, those of the patch install what it makes of
the contents it was prepared from, and its report names them all and no others. -/
structure Reported (host : Host Path Bytes) (patch : Text) (expected : List (Text × Text))
    (files : Path → Option Bytes) (state : State Path Bytes) : Prop where
  replay : state.files =
    state.history.foldl (fun files write => Function.update files write.path write.content) files
  prepared : ∀ write ∈ state.history, ∀ item, write.item = some item →
    item.Matches host expected ∧ host.resolve item.path = .ok write.path ∧
      host.encode item.newContent = write.content
  once : (patchPaths patch).Nodup
  reports : Reports (patchPaths patch) state.written state.phase

theorem Accounted.reported {patch : Text}
    (haccounted : state.Accounted host expected (patchPaths patch) files) :
    state.Reported host patch expected files where
  replay := haccounted.replay
  prepared := haccounted.prepared
  once := patchPaths_nodup patch
  reports := by
    have hplaced := haccounted.placed
    unfold Reports
    split
    · rename_i hphase
      rw [hphase] at hplaced
      exact hplaced
    · rename_i hphase
      rw [hphase] at hplaced
      obtain ⟨hwritten, hpaths⟩ := hplaced
      refine ⟨hwritten, hpaths, fun hmem => ?_⟩
      have hnodup := patchPaths_nodup patch
      rw [← hpaths, nodup_append] at hnodup
      exact hnodup.2.2 _ (hwritten ▸ hmem) _ mem_cons_self rfl
    · rename_i hphase
      rw [hphase] at hplaced
      exact hplaced
    · trivial

/-- Every run reports its writes as they were.  In a run where nobody changes a file between
its preparation and its replacement, and no two files of the patch are one, every file that the
patch has written still had the contents its hunks were matched against. -/
theorem run_apply_patch (host : Host Path Bytes) (patch : Text) (expected : List (Text × Text))
    (files : Path → Option Bytes) (actions : List (Action Path Bytes)) :
    let start := start host patch expected files
    let final := actions.foldl (step host expected) start
    final.Reported host patch expected files ∧
      (Transition.Meets (step host expected) (Quiet host) start actions → final.Faithful) := by
  intro start final
  have hstart : Accounted host expected (patchPaths patch) files start := accounted_start patch
  have hfaithful : start.Faithful := fun write hwrite => by cases hwrite
  constructor
  · have hall : ∀ action ∈ actions, (fun _ : Action Path Bytes => True) action := fun _ _ => trivial
    exact (Transition.invariant_foldl (Accounted host expected (patchPaths patch) files)
      (fun _ action haccounted _ => step_accounted haccounted action) hstart
      (Transition.meets_of_forall_mem hall _)).reported
  · intro hquiet
    have hunchanged := meets_unchanged hstart (kept_start patch) hquiet
    exact (foldl_faithful actions).mpr ⟨hfaithful, hunchanged⟩

end

/-- A directory of text files, with the text itself in place of its digest. -/
def textFiles : Host Text Text where
  resolve path := .ok path
  pathText path := path
  decode text := text
  encode text := if utf8Encodable text then some text else none
  sha256 text := text
  size := utf8Size
  repr text := text

/-- Another writer replaces the file after it was prepared: the patch is applied to
what it does not know, and reported as applied. -/
theorem newerContents_overwritten :
    let files : Text → Option Text := Function.update (fun _ => none) (lit "a") (some (lit "old\n"))
    let patch := lit "*** Begin Patch\n*** Update File: a\n@@\n-old\n+new\n*** End Patch"
    let access : Action Text Text := .proceed none
    let final := [access, access, access, access, .external (lit "a") (some (lit "newer\n")),
      access, access, access].foldl (step textFiles []) (start textFiles patch [] files)
    ¬ final.Faithful ∧ final.files (lit "a") = some (lit "new\n") ∧
      ∃ results, final.phase = .finished (.applied results) ∧
        results.map Prod.fst = [lit "a"] := by
  intro files patch access final
  refine ⟨fun hfaithful => ?_, by decide, ?_⟩
  · have hchecked : final.history.all (fun write =>
        write.item.all fun item => write.found = item.base) = true := by
      simpa [all_eq_true, Option.all_eq_true, Faithful] using hfaithful
    exact absurd hchecked (by decide)
  · exact ⟨_, rfl, rfl⟩

end State

end ReuleauxCoder.Workspace
