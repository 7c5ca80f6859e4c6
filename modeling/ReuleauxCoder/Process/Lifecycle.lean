import ReuleauxCoder.Library.Bookkeeping
import ReuleauxCoder.Library.Transition
import ReuleauxCoder.Process.Manager

/-!
# Runs of the process manager

Three things are followed through any interleaving: the places that entries and
reserved starts take, the completion notification of each process, and the
snapshot that is recorded for it.  Each is an instance of a bookkeeping law, and
one lemma for each action says which of its steps the action takes.
-/

namespace ReuleauxCoder.Process

open PyText PyJson Bookkeeping Function

namespace Call

/-- A start that holds a reservation, and whether it registered its entry. -/
def reservation : Call → Option Bool
  | starting _ | launched _ _ _ | probed _ _ _ _ => some false
  | registered _ | aborted _ => some true
  | leaving joined => some joined
  | _ => none

/-- The entry whose completion the call has yet to announce. -/
def completes : Call → Option ℕ
  | publishing index true | completing index | updating index _ _ true
  | confirming index _ => some index
  | _ => none

/-- The answer of the backend that the call has yet to record. -/
def answer : Call → Option (ℕ × Bool)
  | writing index _ snapshot | watched index snapshot | stopped index snapshot
  | forced index snapshot _ => some (index, snapshot.isExited)
  | _ => none

/-- The entry that a call works on. -/
def target : Call → Option ℕ
  | registered index | aborted index | publishing index _ | completing index | arming index
  | polling index _ | reading index _ _ | writing index _ _ | watching index _
  | watched index _ | updating index _ _ _ | confirming index _ | stopped index _
  | forced index _ _ => some index
  | _ => none

theorem target_of_answer {call : Call} {index : ℕ} {final : Bool}
    (hanswer : call.answer = some (index, final)) : call.target = some index := by
  cases call <;> simp_all [answer, target]

end Call

namespace Manager

variable {config : ManagerConfig} {manager : Manager} {id index : ℕ}

def places (manager : Manager) : Places where
  taken := manager.entries.length
  waiting := manager.starts.countP fun id => (manager.call id).reservation = some false
  joined := manager.starts.countP fun id => (manager.call id).reservation = some true

def completions (manager : Manager) (index : ℕ) : ℕ :=
  manager.events.countP fun event => event.kind = .completed ∧ event.index = index

def token (manager : Manager) (index : ℕ) : Token where
  claimed := (manager.entry index).completionEmitted
  holders := {id | (manager.call id).completes = some index}
  spent := manager.completions index

def view (manager : Manager) (index : ℕ) : View where
  answered := manager.reported index
  recorded := (manager.entry index).lastSnapshot.isExited
  pending := {final | ∃ id, (manager.call id).answer = some (index, final)}

/-- Numbers are given out in order, and the reservations counted are those of the
starts under way. -/
structure WellFormed (manager : Manager) : Prop where
  fresh : ∀ id, manager.nextCall ≤ id → manager.call id = .done
  blank : ∀ index, manager.nextEntry ≤ index → manager.entry index = {}
  silent : ∀ index, manager.nextEntry ≤ index → manager.reported index = false
  known : ∀ id index, (manager.call id).target = some index → index < manager.nextEntry
  entries : ∀ index ∈ manager.entries.map Prod.snd, index < manager.nextEntry
  targets : ∀ index ∈ manager.stopTargets, index < manager.nextEntry
  captured : ∀ index ∈ manager.shutdownEntries, index < manager.nextEntry
  nodup : manager.starts.Nodup
  reserved : ∀ id, id ∈ manager.starts ↔ (manager.call id).reservation ≠ none
  counted : manager.starting = manager.starts.length

theorem wellFormed_new : WellFormed {} where
  fresh _ _ := rfl
  blank _ _ := rfl
  silent _ _ := rfl
  known _ _ h := by cases h
  entries _ h := by cases h
  targets _ h := by cases h
  captured _ h := by cases h
  nodup := List.nodup_nil
  reserved _ := by simp [Call.reservation]
  counted := rfl

namespace WellFormed

section

variable (hwell : manager.WellFormed)
include hwell

theorem lt_nextCall (hcall : manager.call id ≠ .done) :
    id < manager.nextCall := by
  by_contra hle
  exact hcall (hwell.fresh id (Nat.le_of_not_lt hle))

theorem lt_of_lookup {sessionId : Text}
    (hlookup : lookup sessionId manager.entries = some index) : index < manager.nextEntry :=
  hwell.entries index (List.mem_map.mpr ⟨_, mem_of_lookup_eq_some hlookup, rfl⟩)

theorem setCall {call : Call} (hold : manager.call id ≠ .done)
    (hknown : ∀ index, call.target = some index → index < manager.nextEntry)
    (hreservation : call.reservation = (manager.call id).reservation) :
    (manager.setCall id call).WellFormed where
  fresh other hother := by
    have hne : other ≠ id := fun heq => by
      have := hwell.lt_nextCall hold
      simp only [Manager.setCall] at hother
      omega
    exact (update_of_ne hne call manager.call).trans (hwell.fresh other hother)
  blank := hwell.blank
  silent := hwell.silent
  known other target htarget := by
    by_cases hne : other = id
    · subst hne
      simp only [Manager.setCall, update_self] at htarget
      exact hknown target htarget
    · simp only [Manager.setCall, update_of_ne hne] at htarget
      exact hwell.known other target htarget
  entries := hwell.entries
  targets := hwell.targets
  captured := hwell.captured
  nodup := hwell.nodup
  reserved other := by
    by_cases hne : other = id
    · subst hne
      simp only [Manager.setCall, update_self, hreservation]
      exact hwell.reserved other
    · simp only [Manager.setCall, update_of_ne hne]
      exact hwell.reserved other
  counted := hwell.counted

theorem spawn {call : Call}
    (hknown : ∀ index, call.target = some index → index < manager.nextEntry)
    (hreservation : call.reservation = none) : (manager.spawn call).WellFormed where
  fresh other hother := by
    simp only [Manager.spawn] at hother
    have hne : other ≠ manager.nextCall := by omega
    exact (update_of_ne hne call manager.call).trans (hwell.fresh other (by omega))
  blank := hwell.blank
  silent := hwell.silent
  known other target htarget := by
    by_cases hne : other = manager.nextCall
    · subst hne
      simp only [Manager.spawn, Manager.setCall, update_self] at htarget
      exact hknown target htarget
    · simp only [Manager.spawn, Manager.setCall, update_of_ne hne] at htarget
      exact hwell.known other target htarget
  entries := hwell.entries
  targets := hwell.targets
  captured := hwell.captured
  nodup := hwell.nodup
  reserved other := by
    by_cases hne : other = manager.nextCall
    · subst hne
      simp only [Manager.spawn, Manager.setCall, update_self, hreservation]
      rw [hwell.reserved, hwell.fresh manager.nextCall le_rfl]
      simp [Call.reservation]
    · simp only [Manager.spawn, Manager.setCall, update_of_ne hne]
      exact hwell.reserved other
  counted := hwell.counted

theorem setEntry (entry : ManagedEntry)
    (hindex : index < manager.nextEntry) : (manager.setEntry index entry).WellFormed :=
  { hwell with
    blank := fun other hother => by
      have hne : other ≠ index := by
        simp only [Manager.setEntry] at hother
        omega
      exact (update_of_ne hne entry manager.entry).trans (hwell.blank other hother) }

theorem hear (snapshot : ProcessSnapshot)
    (hindex : index < manager.nextEntry) : (manager.hear index snapshot).WellFormed :=
  { hwell with
    silent := fun other hother => by
      have hne : other ≠ index := by
        simp only [Manager.hear] at hother
        omega
      exact (update_of_ne hne _ manager.reported).trans (hwell.silent other hother) }

theorem pop (sessionId : Text) :
    (manager.pop sessionId).WellFormed :=
  { hwell with
    entries := fun index hmem =>
      hwell.entries index (((drop_sublist sessionId manager.entries).map Prod.snd).subset hmem) }

end

end WellFormed

/-! ## Steps that move nothing -/

/-- A step that takes no place, claims and spends no notification and records no
answer. -/
structure Quiet (before after : Manager) : Prop where
  wellFormed : after.WellFormed
  taken : after.places.taken ≤ before.places.taken
  waiting : after.places.waiting = before.places.waiting
  joined : after.places.joined = before.places.joined
  token : ∀ index, after.token index = before.token index
  answered : ∀ index, (after.view index).answered = (before.view index).answered
  recorded : ∀ index, (after.view index).recorded = (before.view index).recorded
  pending : ∀ index, (after.view index).pending ⊆ (before.view index).pending

theorem Quiet.refl (hwell : manager.WellFormed) : Quiet manager manager :=
  ⟨hwell, le_rfl, rfl, rfl, fun _ => rfl, fun _ => rfl, fun _ => rfl, fun _ => subset_rfl⟩

theorem Quiet.trans {first second third : Manager} (hleft : Quiet first second)
    (hright : Quiet second third) : Quiet first third where
  wellFormed := hright.wellFormed
  taken := hright.taken.trans hleft.taken
  waiting := hright.waiting.trans hleft.waiting
  joined := hright.joined.trans hleft.joined
  token index := (hright.token index).trans (hleft.token index)
  answered index := (hright.answered index).trans (hleft.answered index)
  recorded index := (hright.recorded index).trans (hleft.recorded index)
  pending index := (hright.pending index).trans (hleft.pending index)

section Tables

variable {call : Call}

theorem apply_setCall {α : Type*} (project : Call → α)
    (hproject : project call = project (manager.call id)) (other : ℕ) :
    project ((manager.setCall id call).call other) = project (manager.call other) := by
  by_cases hne : other = id
  · subst hne
    simpa [setCall] using hproject
  · simp [setCall, update_of_ne hne]

theorem places_setCall (hreservation : call.reservation = (manager.call id).reservation) :
    (manager.setCall id call).places = manager.places := by
  simp only [places, apply_setCall Call.reservation hreservation]
  rfl

theorem token_setCall (hcompletes : call.completes = (manager.call id).completes) (index : ℕ) :
    (manager.setCall id call).token index = manager.token index := by
  simp only [token, apply_setCall Call.completes hcompletes]
  rfl

theorem pending_setCall (hanswer : call.answer = none) (index : ℕ) :
    ((manager.setCall id call).view index).pending ⊆ (manager.view index).pending := by
  rintro final ⟨other, hother⟩
  by_cases hne : other = id
  · subst hne
    simp [setCall, hanswer] at hother
  · exact ⟨other, by simpa [setCall, update_of_ne hne] using hother⟩

section

variable (hwell : manager.WellFormed)
include hwell

theorem quiet_setCall (hold : manager.call id ≠ .done)
    (hknown : ∀ index, call.target = some index → index < manager.nextEntry)
    (hreservation : call.reservation = (manager.call id).reservation)
    (hcompletes : call.completes = (manager.call id).completes) (hanswer : call.answer = none) :
    Quiet manager (manager.setCall id call) where
  wellFormed := hwell.setCall hold hknown hreservation
  taken := le_rfl
  waiting := by rw [places_setCall hreservation]
  joined := by rw [places_setCall hreservation]
  token := token_setCall hcompletes
  answered _ := rfl
  recorded _ := rfl
  pending := pending_setCall hanswer

theorem quiet_spawn
    (hknown : ∀ index, call.target = some index → index < manager.nextEntry)
    (hreservation : call.reservation = none) (hcompletes : call.completes = none)
    (hanswer : call.answer = none) : Quiet manager (manager.spawn call) := by
  have hfresh := hwell.fresh manager.nextCall le_rfl
  have hplaces : (manager.setCall manager.nextCall call).places = manager.places :=
    places_setCall (by rw [hreservation, hfresh]; rfl)
  have htoken : ∀ index,
      (manager.setCall manager.nextCall call).token index = manager.token index :=
    token_setCall (by rw [hcompletes, hfresh]; rfl)
  exact {
    wellFormed := hwell.spawn hknown hreservation
    taken := le_rfl
    waiting := congrArg Places.waiting hplaces
    joined := congrArg Places.joined hplaces
    token := htoken
    answered := fun _ => rfl
    recorded := fun _ => rfl
    pending := pending_setCall hanswer }

/-- An entry changes, but not what was recorded or announced for it. -/
theorem quiet_setEntry (entry : ManagedEntry)
    (hindex : index < manager.nextEntry)
    (hemitted : entry.completionEmitted = (manager.entry index).completionEmitted)
    (hsnapshot : entry.lastSnapshot = (manager.entry index).lastSnapshot) :
    Quiet manager (manager.setEntry index entry) where
  wellFormed := hwell.setEntry entry hindex
  taken := le_rfl
  waiting := rfl
  joined := rfl
  token other := by
    by_cases hne : other = index
    · subst hne
      simp [token, setEntry, hemitted, completions]
    · simp [token, setEntry, update_of_ne hne, completions]
  answered _ := rfl
  recorded other := by
    by_cases hne : other = index
    · subst hne
      simp [view, setEntry, hsnapshot]
    · simp [view, setEntry, update_of_ne hne]
  pending _ := subset_rfl

theorem quiet_pop (sessionId : Text) :
    Quiet manager (manager.pop sessionId) where
  wellFormed := hwell.pop sessionId
  taken := (drop_sublist sessionId manager.entries).length_le
  waiting := rfl
  joined := rfl
  token _ := rfl
  answered _ := rfl
  recorded _ := rfl
  pending _ := subset_rfl

theorem quiet_emit {kind : ProcessEventKind}
    (hkind : kind ≠ .completed) (index : ℕ) (snapshot : ProcessSnapshot) :
    Quiet manager (manager.emit kind index snapshot) where
  wellFormed := { hwell with }
  taken := le_rfl
  waiting := rfl
  joined := rfl
  token other := by simp [token, emit, completions, hkind]
  answered _ := rfl
  recorded _ := rfl
  pending _ := subset_rfl

theorem quiet_ensureWatcherStarted (index : ℕ) :
    Quiet manager (manager.ensureWatcherStarted index) := by
  unfold ensureWatcherStarted
  simp only
  split
  · exact .refl hwell
  · rename_i hwatcher
    have hindex : index < manager.nextEntry := by
      by_contra hle
      simp [hwell.blank index (Nat.le_of_not_lt hle)] at hwatcher
    have hentry := quiet_setEntry hwell { manager.entry index with watcherStarted := true }
      hindex rfl rfl
    apply hentry.trans (quiet_spawn hentry.wellFormed _ rfl rfl rfl)
    intro target htarget
    cases htarget
    exact hindex

end

/-- Quiet steps over a list of entries. -/
theorem quiet_foldl {act : Manager → ℕ → Manager}
    (hact : ∀ manager : Manager, manager.WellFormed → ∀ index, Quiet manager (act manager index))
    (indices : List ℕ) (hwell : manager.WellFormed) :
    Quiet manager (indices.foldl act manager) := by
  induction indices generalizing manager with
  | nil => exact .refl hwell
  | cons index rest ih =>
      have hfirst := hact manager hwell index
      exact hfirst.trans (ih hfirst.wellFormed)

theorem quiet_cleanupExpired (config : ManagerConfig) (hwell : manager.WellFormed) (now : ℚ) :
    Quiet manager (manager.cleanupExpired config now) :=
  quiet_foldl (fun manager hwell index => quiet_pop hwell (manager.entry index).sessionId) _ hwell

end Tables

/-! ## Actions that move nothing -/

/-- A call moves on without taking up anything new. -/
theorem quiet_move (hwell : manager.WellFormed) {old call : Call} (hcall : manager.call id = old)
    (hold : old ≠ .done) (htarget : call.target = none ∨ call.target = old.target)
    (hreservation : call.reservation = old.reservation)
    (hcompletes : call.completes = old.completes) (hanswer : call.answer = none) :
    Quiet manager (manager.setCall id call) := by
  subst hcall
  apply quiet_setCall hwell hold _ hreservation hcompletes hanswer
  intro index hindex
  cases htarget with
  | inl hnone => rw [hnone] at hindex; cases hindex
  | inr hsame => exact hwell.known id index (hsame ▸ hindex)

section QuietActions

section

variable (hwell : manager.WellFormed)
include hwell

theorem quiet_portStart
    (result : Option (Text × ProcessStreamMode)) : Quiet manager (manager.portStart id result) := by
  unfold portStart
  split
  · rename_i request hcall
    cases result with
    | none => exact quiet_move hwell hcall nofun (.inl rfl) rfl rfl rfl
    | some result => exact quiet_move hwell hcall nofun (.inl rfl) rfl rfl rfl
  · exact .refl hwell

theorem quiet_portProbe (result : Option ProcessSnapshot) :
    Quiet manager (manager.portProbe id result) := by
  unfold portProbe
  split
  · rename_i request sessionId mode hcall
    cases result with
    | none => exact quiet_move hwell hcall nofun (.inl rfl) rfl rfl rfl
    | some initial => exact quiet_move hwell hcall nofun (.inl rfl) rfl rfl rfl
  · exact .refl hwell

theorem quiet_attachWatcher (fails : Bool) :
    Quiet manager (manager.attachWatcher id fails) := by
  unfold attachWatcher
  split
  · rename_i index hcall
    split
    · exact quiet_move hwell hcall nofun (.inr rfl) rfl rfl rfl
    · have hindex := hwell.known id index (by rw [hcall]; rfl)
      have hentry := quiet_setEntry hwell { manager.entry index with watcher := true } hindex
        rfl rfl
      exact hentry.trans (quiet_move hentry.wellFormed hcall nofun (.inl rfl) rfl rfl rfl)
  · exact .refl hwell

theorem quiet_unregister : Quiet manager (manager.unregister id) := by
  unfold unregister
  split
  · rename_i index hcall
    have hpop := quiet_pop hwell (manager.entry index).sessionId
    exact hpop.trans (quiet_move hpop.wellFormed hcall nofun (.inl rfl) rfl rfl rfl)
  · exact .refl hwell

theorem quiet_emitPublished :
    Quiet manager (manager.emitPublished id) := by
  unfold emitPublished
  split
  · rename_i index completion hcall
    have hkind : ProcessEventKind.published ≠ .completed := by decide
    have hemit := quiet_emit hwell hkind index (manager.entry index).lastSnapshot
    apply hemit.trans
    cases completion with
    | true => exact quiet_move hemit.wellFormed hcall nofun (.inr rfl) rfl rfl rfl
    | false => exact quiet_move hemit.wellFormed hcall nofun (.inr rfl) rfl rfl rfl
  · exact .refl hwell

theorem quiet_armWatcher : Quiet manager (manager.armWatcher id) := by
  unfold armWatcher
  split
  · rename_i index hcall
    have hmove : Quiet manager (manager.setCall id .done) :=
      quiet_move hwell hcall nofun (.inl rfl) rfl rfl rfl
    exact hmove.trans (quiet_ensureWatcherStarted hmove.wellFormed index)
  · exact .refl hwell

theorem quiet_abandon (sessionId : Text) :
    Quiet manager (manager.abandon sessionId) := by
  unfold abandon
  split
  · exact .refl hwell
  · rename_i index hlookup
    simp only
    split
    · exact .refl hwell
    · have hentry := quiet_setEntry hwell { manager.entry index with abandoned := true }
        (hwell.lt_of_lookup hlookup) rfl rfl
      split
      · exact hentry.trans (quiet_pop hentry.wellFormed sessionId)
      · exact hentry.trans (quiet_ensureWatcherStarted hentry.wellFormed index)

theorem quiet_openPoll (sessionId agentId : Text)
    (ownerSessionId : Option Text) (sessionGeneration : ℤ) (request : PollRequest) :
    Quiet manager
      (manager.openPoll sessionId agentId ownerSessionId sessionGeneration request) := by
  unfold openPoll
  split
  · exact .refl hwell
  · split
    · exact .refl hwell
    · rename_i index hlookup
      split
      · apply quiet_spawn hwell _ rfl rfl rfl
        intro target htarget
        cases htarget
        exact hwell.lt_of_lookup hlookup
      · exact .refl hwell

theorem quiet_lockPoll : Quiet manager (manager.lockPoll id) := by
  unfold lockPoll
  split
  · rename_i index request hcall
    split
    · exact .refl hwell
    · split
      · have hmove : Quiet manager (manager.setCall id (.reading index request
            ((lookup request.consumer (manager.entry index).cursors).getD {}))) :=
          quiet_move hwell hcall nofun (.inr rfl) rfl rfl rfl
        exact { hmove with wellFormed := { hmove.wellFormed with } }
      · exact quiet_move hwell hcall nofun (.inl rfl) rfl rfl rfl
  · exact .refl hwell

theorem quiet_stopAll (agentId : Text)
    (ownerSessionId : Option Text) (sessionGeneration : ℤ) :
    Quiet manager (manager.stopAll agentId ownerSessionId sessionGeneration) :=
  { Quiet.refl hwell with
    wellFormed := { hwell with
      targets := fun index hmem => by
        simp only [stopAll, List.mem_append] at hmem
        cases hmem with
        | inl hold => exact hwell.targets index hold
        | inr hnew => exact hwell.entries index (List.mem_of_mem_filter hnew) } }

theorem quiet_rebindGeneration (ownerSessionId : Option Text)
    (previous next : ℤ) : Quiet manager (manager.rebindGeneration ownerSessionId previous next) where
  wellFormed := { hwell with
    blank := fun index hindex => by
      have hnot : index ∉ manager.entries.map Prod.snd := fun hmem =>
        absurd (hwell.entries index hmem) (Nat.not_lt.mpr hindex)
      simp only [rebindGeneration]
      rw [if_neg fun h => hnot h.1]
      exact hwell.blank index hindex }
  taken := le_rfl
  waiting := rfl
  joined := rfl
  token index := by
    simp only [token, rebindGeneration, completions]
    split <;> rfl
  answered _ := rfl
  recorded index := by
    simp only [view, rebindGeneration]
    split <;> rfl
  pending _ := subset_rfl

theorem quiet_hideInput (sessionId agentId : Text)
    (ownerSessionId : Option Text) (sessionGeneration : ℤ) (value : Text) :
    Quiet manager
      (manager.hideInput sessionId agentId ownerSessionId sessionGeneration value) := by
  unfold hideInput
  split
  · exact .refl hwell
  · rename_i index hlookup
    simp only
    split
    · exact quiet_setEntry hwell _ (hwell.lt_of_lookup hlookup) rfl rfl
    · exact .refl hwell

theorem quiet_captureEntries :
    Quiet manager manager.captureEntries := by
  unfold captureEntries
  split
  · have hcaptured : Quiet manager
        { manager with shutdownEntries := manager.entries.map Prod.snd } :=
      { Quiet.refl hwell with wellFormed := { hwell with captured := hwell.entries } }
    exact hcaptured.trans (quiet_foldl (fun manager hwell index =>
      quiet_ensureWatcherStarted hwell index) _ hcaptured.wellFormed)
  · exact .refl hwell

theorem quiet_clear : Quiet manager manager.clear := by
  unfold clear
  split
  · exact {
      wellFormed := { hwell with entries := fun _ hmem => nomatch hmem }
      taken := Nat.zero_le _
      waiting := rfl
      joined := rfl
      token := fun _ => rfl
      answered := fun _ => rfl
      recorded := fun _ => rfl
      pending := fun _ => subset_rfl }
  · exact .refl hwell

end

end QuietActions

end Manager

end ReuleauxCoder.Process
