import ReuleauxCoder.Library.Listing
import ReuleauxCoder.Peer.Manager

/-!
# The tables of the process manager

The invariant ties the two tables, the reservations and the processes together: a
registered process is under its id and its key, a reservation belongs to one call that is
still under way, and a process that runs is registered or held by the call that spawned it.
-/

namespace ReuleauxCoder.Peer

open PyText PyJson Function
open List hiding lookup

namespace Phase

/-- The call holds a reservation. -/
def holds : Phase → Bool
  | .reserved | .started _ | .attached _ | .stopping _ _ | .ending _ => true
  | .absent | .entered | .waiting _ | .returned _ => false

/-- The call may still register a process. -/
def pending : Phase → Bool
  | .reserved | .started _ | .attached _ => true
  | _ => false

/-- The process that only the call knows. -/
def process? : Phase → Option ℕ
  | .started process | .attached process | .stopping process _ => some process
  | _ => none

/-- The result that the call will return. -/
def result? : Phase → Option StartResult
  | .stopping _ result | .ending result | .returned result => some result
  | _ => none

end Phase

namespace Manager

variable {manager : Manager}

/-- The process is in the table. -/
def Registered (manager : Manager) (process : ℕ) : Prop :=
  lookup (manager.process process).id manager.states = some process

/-- The number of calls that may still register a process. -/
def pendingStarts (manager : Manager) : ℕ :=
  manager.starting.countP fun entry => (manager.phase entry.2).pending

structure Sound (manager : Manager) : Prop where
  known : ∀ call, manager.phase call ≠ .absent → call < manager.arrived
  states_nodup : (manager.states.map Prod.fst).Nodup
  registered : ∀ processId process, lookup processId manager.states = some process →
    (manager.process process).id = processId ∧ process < manager.spawned ∧
      (manager.process process).waited = true ∧
      lookup (manager.process process).idempotencyKey manager.idempotent = some processId
  keyed : ∀ key processId, lookup key manager.idempotent = some processId →
    ∃ process, lookup processId manager.states = some process ∧
      (manager.process process).idempotencyKey = key
  holding : ∀ call, (manager.phase call).holds = true →
    lookup (manager.args call).idempotencyKey manager.starting = some call ∧
      (manager.args call).processId ∈ manager.startingIds
  reservation : ∀ key call, lookup key manager.starting = some call →
    (manager.args call).idempotencyKey = key ∧ (manager.phase call).holds = true
  distinct : ∀ first second, (manager.phase first).holds = true →
    (manager.phase second).holds = true →
    (manager.args first).processId = (manager.args second).processId → first = second
  waiting : ∀ call owner, manager.phase call = .waiting owner →
    (manager.args call).idempotencyKey = (manager.args owner).idempotencyKey ∧
      ((manager.phase owner).holds = true ∨ ∃ result, manager.phase owner = .returned result)
  owned : ∀ call process, (manager.phase call).process? = some process →
    process < manager.spawned ∧ (manager.process process).call = call ∧
      (manager.process process).id = (manager.args call).processId ∧
      (manager.process process).idempotencyKey = (manager.args call).idempotencyKey ∧
      (manager.process process).waited = false
  alive : ∀ process, process < manager.spawned → (manager.process process).exited = false →
    manager.Registered process ∨
      (manager.phase (manager.process process).call).process? = some process
  finished : ∀ process, (manager.process process).finishedAt ≠ none →
    (manager.process process).exited = true
  ended : ∀ process, (manager.process process).done = true →
    (manager.process process).finishedAt ≠ none
  answered : ∀ call processId reused startedUnixMs, (manager.phase call).holds = true →
    (manager.phase call).result? = some (.success processId reused startedUnixMs) →
    ∀ process, manager.Registered process →
      (manager.process process).idempotencyKey = (manager.args call).idempotencyKey →
      (manager.process process).id = processId
  capacity : manager.states.length + manager.pendingStarts ≤ maxProcessSessions

/-! ## Steps of one call -/

theorem setPhase_phase (call : ℕ) (phase : Phase) (other : ℕ) :
    (manager.setPhase call phase).phase other =
      if other = call then phase else manager.phase other := by
  simp only [setPhase, update_apply]

variable {other : ℕ}

section Turns

variable {call : ℕ} {phase : Phase}

theorem holds_setPhase (hsame : phase.holds = (manager.phase call).holds) (other : ℕ) :
    ((manager.setPhase call phase).phase other).holds = (manager.phase other).holds := by
  rw [setPhase_phase]
  split
  · rename_i hother
    rw [hother, hsame]
  · rfl

theorem Sound.known_setPhase (hsound : manager.Sound) (hpresent : manager.phase call ≠ .absent)
    (other : ℕ) (hother : (manager.setPhase call phase).phase other ≠ .absent) :
    other < manager.arrived := by
  rw [setPhase_phase] at hother
  split at hother
  · rename_i hcall
    exact hcall ▸ hsound.known call hpresent
  · exact hsound.known other hother

/-- A call waits for one that still holds its reservation or has returned, and goes on doing so
whichever call moves. -/
theorem Sound.waiting_setPhase (hsound : manager.Sound)
    (hwaiting : ∀ owner, phase = .waiting owner →
      (manager.args call).idempotencyKey = (manager.args owner).idempotencyKey ∧
        (manager.phase owner).holds = true)
    (hstays : ((manager.phase call).holds = true ∨
        ∃ result, manager.phase call = .returned result) →
      phase.holds = true ∨ ∃ result, phase = .returned result)
    (other owner : ℕ) (hother : (manager.setPhase call phase).phase other = .waiting owner) :
    (manager.args other).idempotencyKey = (manager.args owner).idempotencyKey ∧
      (((manager.setPhase call phase).phase owner).holds = true ∨
        ∃ result, (manager.setPhase call phase).phase owner = .returned result) := by
  have hbefore : (manager.args other).idempotencyKey = (manager.args owner).idempotencyKey ∧
      ((manager.phase owner).holds = true ∨
        ∃ result, manager.phase owner = .returned result) := by
    rw [setPhase_phase] at hother
    split at hother
    · rename_i hcall
      exact hcall ▸ (hwaiting owner hother).imp_right .inl
    · exact hsound.waiting other owner hother
  refine ⟨hbefore.1, ?_⟩
  rw [setPhase_phase]
  split
  · rename_i hcall
    exact hstays (hcall ▸ hbefore.2)
  · exact hbefore.2

/-- A process that was held stays so unless its call lets go of it. -/
theorem process_setPhase {process : ℕ} (hheld : (manager.phase other).process? = some process)
    (hkeeps : (manager.phase call).process? = some process → phase.process? = some process) :
    ((manager.setPhase call phase).phase other).process? = some process := by
  rw [setPhase_phase]
  split
  · rename_i hother
    exact hkeeps (hother ▸ hheld)
  · exact hheld

theorem pendingStarts_setPhase (hpending : phase.pending = true →
      (manager.phase call).pending = true) :
    (manager.setPhase call phase).pendingStarts ≤ manager.pendingStarts := by
  refine countP_mono_left fun entry _ hentry => ?_
  rw [setPhase_phase] at hentry
  split at hentry
  · rename_i hcall
    exact hcall ▸ hpending hentry
  · exact hentry

/-- A step of a call that leaves the processes and their tables alone. -/
structure Turns (manager : Manager) (call : ℕ) (phase : Phase) : Prop where
  present : manager.phase call ≠ .absent
  stays : ((manager.phase call).holds = true ∨ ∃ result, manager.phase call = .returned result) →
    phase.holds = true ∨ ∃ result, phase = .returned result
  process : ∀ process, phase.process? = some process →
    (manager.phase call).process? = some process
  exited : ∀ process, (manager.phase call).process? = some process →
    phase.process? = some process ∨ (manager.process process).exited = true
  waiting : ∀ owner, phase = .waiting owner →
    (manager.args call).idempotencyKey = (manager.args owner).idempotencyKey ∧
      (manager.phase owner).holds = true
  answered : ∀ processId reused startedUnixMs, phase.holds = true →
    phase.result? = some (.success processId reused startedUnixMs) →
    ∀ process, manager.Registered process →
      (manager.process process).idempotencyKey = (manager.args call).idempotencyKey →
      (manager.process process).id = processId

/-- What such a step does to the reservations is left to be shown. -/
theorem Sound.turns (hsound : manager.Sound) (hturns : manager.Turns call phase)
    (later : Manager) {starting : List (Text × ℕ)} {startingIds : List Text}
    (hlater : later = { manager.setPhase call phase with starting, startingIds })
    (hholding : ∀ other, (later.phase other).holds = true →
      lookup (later.args other).idempotencyKey later.starting = some other ∧
        (later.args other).processId ∈ later.startingIds)
    (hreservation : ∀ key other, lookup key later.starting = some other →
      (later.args other).idempotencyKey = key ∧ (later.phase other).holds = true)
    (hdistinct : ∀ first second, (later.phase first).holds = true →
      (later.phase second).holds = true →
      (later.args first).processId = (later.args second).processId → first = second)
    (hcapacity : later.states.length + later.pendingStarts ≤ maxProcessSessions) :
    later.Sound := by
  subst hlater
  constructor
  case known => exact hsound.known_setPhase hturns.present
  case states_nodup => exact hsound.states_nodup
  case registered => exact hsound.registered
  case keyed => exact hsound.keyed
  case holding => exact hholding
  case reservation => exact hreservation
  case distinct => exact hdistinct
  case waiting => exact hsound.waiting_setPhase hturns.waiting hturns.stays
  case owned =>
    intro other process hprocess
    change ((manager.setPhase call phase).phase other).process? = some process at hprocess
    rw [setPhase_phase] at hprocess
    split at hprocess
    · rename_i hother
      rw [hother]
      exact hsound.owned call process (hturns.process process hprocess)
    · exact hsound.owned other process hprocess
  case alive =>
    intro process hspawned hrunning
    refine (hsound.alive process hspawned hrunning).imp_right fun hprocess => ?_
    refine process_setPhase hprocess fun hheld => (hturns.exited process hheld).resolve_right ?_
    exact fun hexited => absurd (hrunning.symm.trans hexited) Bool.false_ne_true
  case finished => exact hsound.finished
  case ended => exact hsound.ended
  case answered =>
    intro other processId reused startedUnixMs hother hresult
    change ((manager.setPhase call phase).phase other).holds = true at hother
    change ((manager.setPhase call phase).phase other).result? = _ at hresult
    rw [setPhase_phase] at hother hresult
    split at hother
    · rename_i hcall
      rw [if_pos hcall] at hresult
      rw [hcall]
      exact hturns.answered processId reused startedUnixMs hother hresult
    · rename_i hcall
      rw [if_neg hcall] at hresult
      exact hsound.answered other processId reused startedUnixMs hother hresult
  case capacity => exact hcapacity

/-- The reservations stay as they are, too. -/
structure Advances (manager : Manager) (call : ℕ) (phase : Phase) : Prop extends
    Turns manager call phase where
  holds : phase.holds = (manager.phase call).holds
  pending : phase.pending = true → (manager.phase call).pending = true

theorem Sound.setPhase (hsound : manager.Sound) (hadvances : manager.Advances call phase) :
    (manager.setPhase call phase).Sound := by
  have hholds := holds_setPhase hadvances.holds
  apply hsound.turns hadvances.toTurns (manager.setPhase call phase) rfl
  · exact fun other hother => hsound.holding other (hholds other ▸ hother)
  · intro key other hlookup
    exact (hsound.reservation key other hlookup).imp_right (hholds other).trans
  · intro first second hfirst hsecond
    exact hsound.distinct first second (hholds first ▸ hfirst) (hholds second ▸ hsecond)
  · exact (Nat.add_le_add_left (pendingStarts_setPhase hadvances.pending) _).trans hsound.capacity

/-- A call that holds nothing yet turns to a phase without a process and without an answer. -/
theorem turns_of_idle
    (hcall : manager.phase call = .entered ∨ ∃ owner, manager.phase call = .waiting owner)
    (hprocess : phase.process? = none) (hresult : phase.holds = true → phase.result? = none)
    (hwaiting : ∀ owner, phase = .waiting owner →
      (manager.args call).idempotencyKey = (manager.args owner).idempotencyKey ∧
        (manager.phase owner).holds = true) :
    manager.Turns call phase := by
  constructor
  case waiting => exact hwaiting
  case process =>
    intro process hheld
    rw [hprocess] at hheld
    cases hheld
  case answered =>
    intro processId reused startedUnixMs hholds hsome
    rw [hresult hholds] at hsome
    cases hsome
  case present => rcases hcall with hcall | ⟨owner, hcall⟩ <;> rw [hcall] <;> exact Phase.noConfusion
  case stays =>
    rcases hcall with hcall | ⟨owner, hcall⟩ <;> rw [hcall] <;>
      rintro (hholds | ⟨result, hreturned⟩) <;> contradiction
  case exited =>
    intro process hheld
    rcases hcall with hcall | ⟨owner, hcall⟩ <;> rw [hcall] at hheld <;> cases hheld

end Turns

/-- What the operating system and `wait` change of a process. -/
structure Evolves (old new : Session) : Prop where
  id : new.id = old.id
  idempotencyKey : new.idempotencyKey = old.idempotencyKey
  call : new.call = old.call
  waited : new.waited = old.waited
  exited : old.exited = true → new.exited = true
  finished : new.finishedAt ≠ none → new.exited = true
  ended : new.done = true → new.finishedAt ≠ none

theorem Sound.setProcess (hsound : manager.Sound) {process : ℕ} {session : Session}
    (hevolves : Evolves (manager.process process) session) :
    (manager.setProcess process session).Sound := by
  have hsame : ∀ other, ((manager.setProcess process session).process other).id =
        (manager.process other).id ∧
      ((manager.setProcess process session).process other).idempotencyKey =
        (manager.process other).idempotencyKey ∧
      ((manager.setProcess process session).process other).call = (manager.process other).call ∧
      ((manager.setProcess process session).process other).waited =
        (manager.process other).waited := by
    intro other
    simp only [Manager.setProcess, update_apply]
    split
    · rename_i hother
      rw [hother]
      exact ⟨hevolves.id, hevolves.idempotencyKey, hevolves.call, hevolves.waited⟩
    · exact ⟨rfl, rfl, rfl, rfl⟩
  have hregistered : ∀ other, (manager.setProcess process session).Registered other ↔
      manager.Registered other := by
    intro other
    rw [Registered, (hsame other).1]
    rfl
  constructor
  case known => exact hsound.known
  case states_nodup => exact hsound.states_nodup
  case registered =>
    intro processId other hlookup
    obtain ⟨hid, hspawned, hwaited, hkey⟩ := hsound.registered processId other hlookup
    obtain ⟨sameId, sameKey, _, sameWaited⟩ := hsame other
    exact ⟨sameId.trans hid, hspawned, sameWaited.trans hwaited, sameKey ▸ hkey⟩
  case keyed =>
    intro key processId hlookup
    obtain ⟨other, hstate, hkey⟩ := hsound.keyed key processId hlookup
    exact ⟨other, hstate, (hsame other).2.1.trans hkey⟩
  case holding => exact hsound.holding
  case reservation => exact hsound.reservation
  case distinct => exact hsound.distinct
  case waiting => exact hsound.waiting
  case owned =>
    intro call other hprocess
    obtain ⟨hspawned, hcall, hid, hkey, hwaited⟩ := hsound.owned call other hprocess
    obtain ⟨sameId, sameKey, sameCall, sameWaited⟩ := hsame other
    exact ⟨hspawned, sameCall.trans hcall, sameId.trans hid, sameKey.trans hkey,
      sameWaited.trans hwaited⟩
  case alive =>
    intro other hspawned hrunning
    have hbefore : (manager.process other).exited = false := by
      simp only [Manager.setProcess, update_apply] at hrunning
      split at hrunning
      · rename_i hother
        rw [hother, Bool.eq_false_iff]
        exact fun hexited => Bool.eq_false_iff.mp hrunning (hevolves.exited hexited)
      · exact hrunning
    rw [hregistered other, (hsame other).2.2.1]
    exact hsound.alive other hspawned hbefore
  case finished =>
    exact (forall_update_iff manager.process fun _ session =>
      session.finishedAt ≠ none → session.exited = true).mpr
        ⟨hevolves.finished, fun other _ => hsound.finished other⟩
  case ended =>
    exact (forall_update_iff manager.process fun _ session =>
      session.done = true → session.finishedAt ≠ none).mpr
        ⟨hevolves.ended, fun other _ => hsound.ended other⟩
  case answered =>
    intro call processId reused startedUnixMs hholds hresult other hother hkey
    rw [(hsame other).1]
    rw [(hsame other).2.1] at hkey
    exact hsound.answered call processId reused startedUnixMs hholds hresult other
      ((hregistered other).mp hother) hkey
  case capacity => exact hsound.capacity

/-! ## Removal -/

theorem Sound.forget (hsound : manager.Sound) {process : ℕ}
    (hregistered : manager.Registered process)
    (hexited : (manager.process process).exited = true) : (manager.forget process).Sound := by
  have hlookup : ∀ processId other, lookup processId (manager.forget process).states = some other →
      lookup processId manager.states = some other ∧
        processId ≠ (manager.process process).id := by
    intro processId other hother
    by_cases hid : processId = (manager.process process).id
    · rw [hid, Manager.forget, lookup_drop_self] at hother
      cases hother
    · rw [Manager.forget, lookup_drop_of_ne hid] at hother
      exact ⟨hother, hid⟩
  constructor
  case known => exact hsound.known
  case states_nodup =>
    exact hsound.states_nodup.sublist ((PyJson.drop_sublist _ _).map Prod.fst)
  case registered =>
    intro processId other hother
    obtain ⟨hstate, hne⟩ := hlookup processId other hother
    obtain ⟨hid, hspawned, hwaited, hkey⟩ := hsound.registered processId other hstate
    refine ⟨hid, hspawned, hwaited, ?_⟩
    have hkeys : (manager.process other).idempotencyKey ≠
        (manager.process process).idempotencyKey := by
      intro hsame
      rw [hsame, (hsound.registered _ process hregistered).2.2.2] at hkey
      exact hne (Option.some.inj hkey).symm
    exact (lookup_drop_of_ne hkeys _).trans hkey
  case keyed =>
    intro key processId hkey
    by_cases hforgotten : key = (manager.process process).idempotencyKey
    · rw [hforgotten, Manager.forget, lookup_drop_self] at hkey
      cases hkey
    · rw [Manager.forget, lookup_drop_of_ne hforgotten] at hkey
      obtain ⟨other, hstate, hother⟩ := hsound.keyed key processId hkey
      refine ⟨other, ?_, hother⟩
      have hids : processId ≠ (manager.process process).id := by
        rintro rfl
        rw [Option.some.inj (hstate.symm.trans hregistered)] at hother
        exact hforgotten hother.symm
      exact (lookup_drop_of_ne hids _).trans hstate
  case holding => exact hsound.holding
  case reservation => exact hsound.reservation
  case distinct => exact hsound.distinct
  case waiting => exact hsound.waiting
  case owned => exact hsound.owned
  case alive =>
    intro other hspawned hrunning
    refine (hsound.alive other hspawned hrunning).imp_left fun hother => ?_
    have hids : (manager.process other).id ≠ (manager.process process).id := by
      intro hsame
      rw [Registered, hsame] at hother
      rw [Option.some.inj (hother.symm.trans hregistered)] at hrunning
      exact absurd (hrunning.symm.trans hexited) Bool.false_ne_true
    exact (lookup_drop_of_ne hids _).trans hother
  case finished => exact hsound.finished
  case ended => exact hsound.ended
  case answered =>
    intro call processId reused startedUnixMs hholds hresult other hother
    exact hsound.answered call processId reused startedUnixMs hholds hresult other
      (hlookup _ other hother).1
  case capacity =>
    have hlength : (manager.forget process).states.length ≤ manager.states.length :=
      (PyJson.drop_sublist _ _).length_le
    exact (Nat.add_le_add_right hlength _).trans hsound.capacity

theorem Sound.remove (hsound : manager.Sound) {process : ℕ}
    (hdone : (manager.process process).done = true) : (manager.remove process).Sound := by
  rw [Manager.remove]
  split
  · rename_i hregistered
    exact hsound.forget hregistered (hsound.finished _ (hsound.ended _ hdone))
  · exact hsound

theorem forget_registered {process : ℕ} (hregistered : manager.Registered other)
    (hne : (manager.process other).id ≠ (manager.process process).id) :
    (manager.forget process).Registered other :=
  (lookup_drop_of_ne hne _).trans hregistered

/-- The loop of the cleanup deletes entries of distinct ids. -/
theorem Sound.foldl_forget {processes : List ℕ} (hsound : manager.Sound)
    (hregistered : ∀ process ∈ processes, manager.Registered process)
    (hexited : ∀ process ∈ processes, (manager.process process).exited = true)
    (hnodup : (processes.map fun process => (manager.process process).id).Nodup) :
    (processes.foldl Manager.forget manager).Sound := by
  induction processes generalizing manager with
  | nil => exact hsound
  | cons process rest ih =>
      rw [map_cons, nodup_cons] at hnodup
      have hfirst := hsound.forget (hregistered process mem_cons_self)
        (hexited process mem_cons_self)
      refine ih hfirst (fun other hother => ?_)
        (fun other hother => hexited other (mem_cons_of_mem _ hother)) hnodup.2
      refine forget_registered (hregistered other (mem_cons_of_mem _ hother)) ?_
      rintro hsame
      exact hnodup.1 (hsame ▸ mem_map_of_mem hother)

theorem Sound.cleanupTerminal (hsound : manager.Sound) : manager.cleanupTerminal.Sound := by
  have hentry : ∀ entry ∈ manager.states,
      lookup entry.1 manager.states = some entry.2 ∧ (manager.process entry.2).id = entry.1 := by
    intro entry hmem
    have hlookup := lookup_eq_some_of_mem hsound.states_nodup hmem
    exact ⟨hlookup, (hsound.registered _ _ hlookup).1⟩
  have hids : (manager.states.map Prod.snd).map (fun process => (manager.process process).id) =
      manager.states.map Prod.fst := by
    rw [map_map]
    exact map_congr_left fun entry hmem => (hentry entry hmem).2
  refine hsound.foldl_forget (fun process hmem => ?_) (fun process hmem => ?_) ?_
  · obtain ⟨entry, hstate, rfl⟩ := mem_map.mp (mem_of_mem_filter hmem)
    rw [Registered, (hentry entry hstate).2]
    exact (hentry entry hstate).1
  · have hexpired := (mem_filter.mp hmem).2
    refine hsound.finished process fun hnone => ?_
    rw [expired, hnone] at hexpired
    cases hexpired
  · refine List.Nodup.sublist (filter_sublist.map _) ?_
    rw [hids]
    exact hsound.states_nodup

/-- The cleanup changes the two tables only. -/
theorem foldl_forget_eq (processes : List ℕ) : ∃ states idempotent,
    processes.foldl Manager.forget manager = { manager with states, idempotent } := by
  induction processes generalizing manager with
  | nil => exact ⟨manager.states, manager.idempotent, rfl⟩
  | cons process rest ih =>
      obtain ⟨states, idempotent, hrest⟩ := @ih (manager.forget process)
      exact ⟨states, idempotent, hrest⟩

theorem cleanupTerminal_eq (manager : Manager) : ∃ states idempotent,
    manager.cleanupTerminal = { manager with states, idempotent } :=
  foldl_forget_eq _

/-! ## New calls, reservations and processes -/

theorem phase_absent (hsound : manager.Sound) : manager.phase manager.arrived = .absent :=
  Decidable.not_not.mp fun hpresent => Nat.lt_irrefl _ (hsound.known _ hpresent)

theorem lt_of_phase (hsound : manager.Sound) {phase : Phase}
    (hphase : manager.phase call = phase) (hpresent : phase ≠ .absent) : call < manager.arrived :=
  hsound.known call (hphase ▸ hpresent)

theorem Sound.call (hsound : manager.Sound) (args : StartArgs) :
    (manager.step (.call args)).Sound := by
  have habsent := phase_absent hsound
  have hphase : ∀ other, (manager.step (.call args)).phase other =
      if other = manager.arrived then .entered else manager.phase other :=
    fun other => setPhase_phase manager.arrived .entered other
  have hargs : ∀ other, other ≠ manager.arrived →
      (manager.step (.call args)).args other = manager.args other :=
    fun other hother => update_of_ne hother _ _
  have hold : ∀ other, ((manager.step (.call args)).phase other).holds = true →
      other ≠ manager.arrived ∧ (manager.phase other).holds = true := by
    intro other hholds
    rw [hphase] at hholds
    split at hholds
    · cases hholds
    · rename_i hother
      exact ⟨hother, hholds⟩
  have hnew : ∀ other, (manager.phase other).holds = true → other ≠ manager.arrived := by
    rintro other hholds rfl
    rw [habsent] at hholds
    cases hholds
  constructor
  case known =>
    intro other hpresent
    rw [hphase] at hpresent
    split at hpresent
    · rename_i hother
      exact hother ▸ Nat.lt_succ_self _
    · exact Nat.lt_succ_of_lt (hsound.known other hpresent)
  case states_nodup => exact hsound.states_nodup
  case registered => exact hsound.registered
  case keyed => exact hsound.keyed
  case holding =>
    intro other hholds
    obtain ⟨hother, hbefore⟩ := hold other hholds
    rw [hargs other hother]
    exact hsound.holding other hbefore
  case reservation =>
    intro key other hlookup
    obtain ⟨hkey, hholds⟩ := hsound.reservation key other hlookup
    have hother := hnew other hholds
    rw [hargs other hother, hphase, if_neg hother]
    exact ⟨hkey, hholds⟩
  case distinct =>
    intro first second hfirst hsecond hid
    obtain ⟨hfirstNew, hfirstHolds⟩ := hold first hfirst
    obtain ⟨hsecondNew, hsecondHolds⟩ := hold second hsecond
    rw [hargs first hfirstNew, hargs second hsecondNew] at hid
    exact hsound.distinct first second hfirstHolds hsecondHolds hid
  case waiting =>
    intro other owner hwaiting
    rw [hphase] at hwaiting
    split at hwaiting
    · cases hwaiting
    · rename_i hother
      obtain ⟨hkey, howner⟩ := hsound.waiting other owner hwaiting
      have hownerOld : owner ≠ manager.arrived := by
        rintro rfl
        rw [habsent] at howner
        rcases howner with hholds | ⟨result, hreturned⟩
        · cases hholds
        · cases hreturned
      rw [hargs other hother, hargs owner hownerOld, hphase, if_neg hownerOld]
      exact ⟨hkey, howner⟩
  case owned =>
    intro other process hprocess
    rw [hphase] at hprocess
    split at hprocess
    · cases hprocess
    · rename_i hother
      rw [hargs other hother]
      exact hsound.owned other process hprocess
  case alive =>
    intro process hspawned hrunning
    refine (hsound.alive process hspawned hrunning).imp_right fun hprocess => ?_
    rw [hphase]
    change (if (manager.process process).call = manager.arrived then Phase.entered
      else manager.phase (manager.process process).call).process? = some process
    rw [if_neg]
    · exact hprocess
    · intro hcall
      rw [hcall, habsent] at hprocess
      cases hprocess
  case finished => exact hsound.finished
  case ended => exact hsound.ended
  case answered =>
    intro other processId reused startedUnixMs hholds hresult process hprocess hkey
    obtain ⟨hother, hbefore⟩ := hold other hholds
    rw [hphase, if_neg hother] at hresult
    rw [hargs other hother] at hkey
    exact hsound.answered other processId reused startedUnixMs hbefore hresult process hprocess hkey
  case capacity =>
    have hpending : (manager.step (.call args)).pendingStarts ≤ manager.pendingStarts := by
      refine countP_mono_left fun entry _ hentry => ?_
      rw [hphase] at hentry
      split at hentry
      · cases hentry
      · exact hentry
    exact (Nat.add_le_add_left hpending _).trans hsound.capacity

/-- A reservation for a key and an id that nobody holds. -/
def reserve (manager : Manager) (call : ℕ) : Manager :=
  { manager.setPhase call .reserved with
    starting := store (manager.args call).idempotencyKey call manager.starting
    startingIds := manager.startingIds ++ [(manager.args call).processId] }

theorem Sound.reserve (hsound : manager.Sound) {call : ℕ} (hcall : manager.phase call = .entered)
    (hkey : lookup (manager.args call).idempotencyKey manager.starting = none)
    (hid : (manager.args call).processId ∉ manager.startingIds)
    (hroom : manager.states.length + manager.starting.length < maxProcessSessions) :
    (manager.reserve call).Sound := by
  have hphase : ∀ other, (manager.reserve call).phase other =
      if other = call then .reserved else manager.phase other :=
    fun other => setPhase_phase call .reserved other
  have hkeys : ∀ other, (manager.phase other).holds = true →
      (manager.args other).idempotencyKey ≠ (manager.args call).idempotencyKey := by
    intro other hholds hsame
    have hlookup := (hsound.holding other hholds).1
    rw [hsame, hkey] at hlookup
    cases hlookup
  have hids : ∀ other, (manager.phase other).holds = true →
      (manager.args other).processId ≠ (manager.args call).processId :=
    fun other hholds hsame => hid (hsame ▸ (hsound.holding other hholds).2)
  have hturns : manager.Turns call .reserved :=
    turns_of_idle (.inl hcall) rfl (fun _ => rfl) fun _ heq => by cases heq
  apply hsound.turns hturns (manager.reserve call) rfl
  · intro other hholds
    rw [hphase] at hholds
    split at hholds
    · rename_i hother
      rw [hother]
      exact ⟨lookup_store_self _ _ _, mem_append_right _ (mem_singleton_self _)⟩
    · obtain ⟨hlookup, hmem⟩ := hsound.holding other hholds
      exact ⟨(lookup_store_of_ne (hkeys other hholds) _ _).trans hlookup,
        mem_append_left _ hmem⟩
  · intro key other hlookup
    by_cases hsame : key = (manager.args call).idempotencyKey
    · rw [hsame, Manager.reserve, lookup_store_self] at hlookup
      cases hlookup
      rw [hphase, if_pos rfl]
      exact ⟨hsame.symm, rfl⟩
    · rw [Manager.reserve, lookup_store_of_ne hsame] at hlookup
      obtain ⟨hother, hholds⟩ := hsound.reservation key other hlookup
      rw [hphase, if_neg]
      · exact ⟨hother, hholds⟩
      · rintro rfl
        exact hsame hother.symm
  · intro first second hfirst hsecond hsame
    rw [hphase] at hfirst hsecond
    split at hfirst
    · rename_i hfirstCall
      split at hsecond
      · rename_i hsecondCall
        exact hfirstCall.trans hsecondCall.symm
      · exact absurd (hfirstCall ▸ hsame.symm) (hids second hsecond)
    · split at hsecond
      · rename_i hsecondCall
        exact absurd (hsecondCall ▸ hsame) (hids first hfirst)
      · exact hsound.distinct first second hfirst hsecond hsame
  · have hpending : (manager.reserve call).pendingStarts ≤ manager.starting.length + 1 := by
      refine countP_le_length.trans_eq ?_
      change (store _ call manager.starting).length = _
      rw [store_of_lookup_eq_none call hkey, length_append, length_singleton]
    change manager.states.length + (manager.reserve call).pendingStarts ≤ _
    omega

theorem Sound.spawn (hsound : manager.Sound) {call : ℕ} (hcall : manager.phase call = .reserved) :
    (manager.spawn call none).Sound := by
  have hphase : ∀ other, (manager.spawn call none).phase other =
      if other = call then .started manager.spawned else manager.phase other :=
    fun other => setPhase_phase call (.started manager.spawned) other
  have hholds : ∀ other, ((manager.spawn call none).phase other).holds =
      (manager.phase other).holds := holds_setPhase (by rw [hcall]; rfl)
  have hold : ∀ process, process < manager.spawned →
      (manager.spawn call none).process process = manager.process process :=
    fun process hspawned => update_of_ne (Nat.ne_of_lt hspawned) _ _
  have hnew : (manager.spawn call none).process manager.spawned =
      { id := (manager.args call).processId
        idempotencyKey := (manager.args call).idempotencyKey
        call
        startedAt := manager.now } := update_self _ _ _
  constructor
  case known => exact hsound.known_setPhase (by rw [hcall]; exact Phase.noConfusion)
  case states_nodup => exact hsound.states_nodup
  case registered =>
    intro processId process hlookup
    obtain ⟨hid, hspawned, hwaited, hkey⟩ := hsound.registered processId process hlookup
    rw [hold process hspawned]
    exact ⟨hid, Nat.lt_succ_of_lt hspawned, hwaited, hkey⟩
  case keyed =>
    intro key processId hlookup
    obtain ⟨process, hstate, hkey⟩ := hsound.keyed key processId hlookup
    refine ⟨process, hstate, ?_⟩
    rw [hold process (hsound.registered processId process hstate).2.1]
    exact hkey
  case holding => exact fun other hother => hsound.holding other (hholds other ▸ hother)
  case reservation =>
    intro key other hlookup
    exact (hsound.reservation key other hlookup).imp_right (hholds other).trans
  case distinct =>
    intro first second hfirst hsecond
    exact hsound.distinct first second (hholds first ▸ hfirst) (hholds second ▸ hsecond)
  case waiting => exact hsound.waiting_setPhase (fun _ heq => by cases heq) fun _ => .inl rfl
  case owned =>
    intro other process hprocess
    rw [hphase] at hprocess
    split at hprocess
    · rename_i hother
      cases hprocess
      rw [hnew]
      exact ⟨Nat.lt_succ_self _, hother.symm, hother ▸ rfl, hother ▸ rfl, rfl⟩
    · obtain ⟨hspawned, hfields⟩ := hsound.owned other process hprocess
      rw [hold process hspawned]
      exact ⟨Nat.lt_succ_of_lt hspawned, hfields⟩
  case alive =>
    intro process hspawned hrunning
    rcases Nat.lt_succ_iff_lt_or_eq.mp hspawned with hbefore | rfl
    · rw [Registered, hold process hbefore]
      rw [hold process hbefore] at hrunning
      refine (hsound.alive process hbefore hrunning).imp_right fun hprocess => ?_
      exact process_setPhase hprocess fun hheld => by rw [hcall] at hheld; cases hheld
    · rw [hnew, hphase, if_pos rfl]
      exact .inr rfl
  case finished =>
    exact (forall_update_iff manager.process fun _ session =>
      session.finishedAt ≠ none → session.exited = true).mpr
        ⟨fun hfinished => absurd rfl hfinished, fun other _ => hsound.finished other⟩
  case ended =>
    exact (forall_update_iff manager.process fun _ session =>
      session.done = true → session.finishedAt ≠ none).mpr
        ⟨fun hdone => absurd hdone Bool.false_ne_true, fun other _ => hsound.ended other⟩
  case answered =>
    intro other processId reused startedUnixMs hother hresult process hprocess hkey
    rw [hphase] at hother hresult
    split at hother
    · rename_i hsame
      rw [if_pos hsame] at hresult
      cases hresult
    · rename_i hsame
      rw [if_neg hsame] at hresult
      have hspawned := (hsound.registered _ process hprocess).2.1
      rw [Registered, hold process hspawned] at hprocess
      rw [hold process hspawned] at hkey ⊢
      exact hsound.answered other processId reused startedUnixMs hother hresult process hprocess
        hkey
  case capacity =>
    have hpending : (manager.spawn call none).pendingStarts ≤ manager.pendingStarts :=
      pendingStarts_setPhase fun _ => by rw [hcall]; rfl
    exact (Nat.add_le_add_left hpending _).trans hsound.capacity

/-- The process goes into the tables. -/
def register (manager : Manager) (call process : ℕ) : Manager :=
  let args := manager.args call
  let session := manager.process process
  { (manager.setPhase call
      (.ending (.success args.processId false (some session.startedAt)))).setProcess
        process { session with waited := true } with
    states := store args.processId process manager.states
    idempotent := store args.idempotencyKey args.processId manager.idempotent }

/-- A call that has attached its process finds the id and the key free. -/
structure Registers (manager : Manager) (call process : ℕ) : Prop where
  sound : manager.Sound
  attached : manager.phase call = .attached process
  id_free : lookup (manager.args call).processId manager.states = none
  key_free : lookup (manager.args call).idempotencyKey manager.idempotent = none

section Registration

variable {call process : ℕ}

theorem register_phase (other : ℕ) : (manager.register call process).phase other =
    if other = call then
      .ending (.success (manager.args call).processId false
        (some (manager.process process).startedAt))
    else manager.phase other :=
  setPhase_phase call _ other

theorem register_process_self : (manager.register call process).process process =
    { manager.process process with waited := true } :=
  update_self _ _ _

theorem register_process_of_ne (hother : other ≠ process) :
    (manager.register call process).process other = manager.process other :=
  update_of_ne hother _ _

section

variable (hregisters : manager.Registers call process)
include hregisters

theorem Registers.owned :
    process < manager.spawned ∧ (manager.process process).call = call ∧
      (manager.process process).id = (manager.args call).processId ∧
      (manager.process process).idempotencyKey = (manager.args call).idempotencyKey ∧
      (manager.process process).waited = false :=
  hregisters.sound.owned call process (by rw [hregisters.attached]; rfl)

/-- The table holds the new process under its id, and the old ones under theirs. -/
theorem Registers.lookup_register {processId : Text}
    (hlookup : lookup processId (manager.register call process).states = some other) :
    (processId = (manager.args call).processId ∧ other = process) ∨
      (lookup processId manager.states = some other ∧ other ≠ process) := by
  by_cases hsame : processId = (manager.args call).processId
  · rw [hsame, Manager.register, lookup_store_self] at hlookup
    cases hlookup
    exact .inl ⟨hsame, rfl⟩
  · rw [Manager.register, lookup_store_of_ne hsame] at hlookup
    refine .inr ⟨hlookup, ?_⟩
    rintro rfl
    have hwaited := (hregisters.sound.registered processId other hlookup).2.2.1
    have hunwaited := (hregisters.owned).2.2.2.2
    exact absurd (hunwaited.symm.trans hwaited) Bool.false_ne_true

/-- No process in the table has a key that is not in the other table. -/
theorem Registers.key_ne {processId : Text}
    (hlookup : lookup processId manager.states = some other) :
    (manager.process other).idempotencyKey ≠ (manager.args call).idempotencyKey := by
  intro hsame
  have hother := (hregisters.sound.registered processId other hlookup).2.2.2
  rw [hsame, hregisters.key_free] at hother
  cases hother

theorem Registers.registered_register (processId : Text)
    (other : ℕ)
    (hlookup : lookup processId (manager.register call process).states = some other) :
    ((manager.register call process).process other).id = processId ∧ other < manager.spawned ∧
      ((manager.register call process).process other).waited = true ∧
      lookup ((manager.register call process).process other).idempotencyKey
        (manager.register call process).idempotent = some processId := by
  obtain ⟨hspawned, -, hprocessId, hprocessKey, -⟩ := hregisters.owned
  rcases hregisters.lookup_register hlookup with ⟨hsame, hother⟩ | ⟨hbefore, hother⟩
  · rw [hother, register_process_self]
    refine ⟨hprocessId.trans hsame.symm, hspawned, rfl, ?_⟩
    change lookup (manager.process process).idempotencyKey (store _ _ manager.idempotent) = _
    rw [hprocessKey, lookup_store_self, hsame]
  · obtain ⟨hotherId, hotherSpawned, hwaited, hotherKey⟩ :=
      hregisters.sound.registered processId other hbefore
    rw [register_process_of_ne hother]
    refine ⟨hotherId, hotherSpawned, hwaited, ?_⟩
    exact (lookup_store_of_ne (hregisters.key_ne hbefore) _ _).trans hotherKey

theorem Registers.keyed_register (key processId : Text)
    (hlookup : lookup key (manager.register call process).idempotent = some processId) :
    ∃ other, lookup processId (manager.register call process).states = some other ∧
      ((manager.register call process).process other).idempotencyKey = key := by
  have hprocessKey := (hregisters.owned).2.2.2.1
  by_cases hsame : key = (manager.args call).idempotencyKey
  · rw [hsame, Manager.register, lookup_store_self] at hlookup
    cases hlookup
    refine ⟨process, lookup_store_self _ _ _, ?_⟩
    rw [register_process_self, hsame]
    exact hprocessKey
  · rw [Manager.register, lookup_store_of_ne hsame] at hlookup
    obtain ⟨other, hstate, hother⟩ := hregisters.sound.keyed key processId hlookup
    have hne : processId ≠ (manager.args call).processId := by
      rintro rfl
      rw [hregisters.id_free] at hstate
      cases hstate
    have hnotNew : other ≠ process := by
      rintro rfl
      exact hsame (hother.symm.trans hprocessKey)
    refine ⟨other, (lookup_store_of_ne hne _ _).trans hstate, ?_⟩
    rw [register_process_of_ne hnotNew]
    exact hother

theorem Registers.owned_register (other held : ℕ)
    (hheld : ((manager.register call process).phase other).process? = some held) :
    held < manager.spawned ∧ ((manager.register call process).process held).call = other ∧
      ((manager.register call process).process held).id = (manager.args other).processId ∧
      ((manager.register call process).process held).idempotencyKey =
        (manager.args other).idempotencyKey ∧
      ((manager.register call process).process held).waited = false := by
  rw [register_phase] at hheld
  split at hheld
  · cases hheld
  · rename_i hother
    have howned := hregisters.sound.owned other held hheld
    have hnotNew : held ≠ process := by
      rintro rfl
      exact hother (howned.2.1.symm.trans (hregisters.owned).2.1)
    rw [register_process_of_ne hnotNew]
    exact howned

/-- The new process is in the table; any other is where it was. -/
theorem Registers.alive_register (other : ℕ)
    (hspawned : other < manager.spawned)
    (hrunning : ((manager.register call process).process other).exited = false) :
    (manager.register call process).Registered other ∨
      ((manager.register call process).phase
        ((manager.register call process).process other).call).process? = some other := by
  by_cases hother : other = process
  · rw [hother, Registered, register_process_self]
    refine .inl ?_
    change lookup (manager.process process).id (store _ process manager.states) = _
    rw [(hregisters.owned).2.2.1, lookup_store_self]
  · rw [Registered, register_process_of_ne hother]
    rw [register_process_of_ne hother] at hrunning
    rcases hregisters.sound.alive other hspawned hrunning with hregistered | hheldBy
    · refine .inl ((lookup_store_of_ne ?_ _ _).trans hregistered)
      intro hsame
      rw [Registered, hsame, hregisters.id_free] at hregistered
      cases hregistered
    · refine .inr (process_setPhase hheldBy fun hheld => ?_)
      rw [hregisters.attached] at hheld
      exact absurd (Option.some.inj hheld).symm hother

theorem Registers.answered_register (other : ℕ) (processId : Text) (reused : Bool)
    (startedUnixMs : Option ℕ)
    (hother : (manager.phase other).holds = true)
    (hresult : ((manager.register call process).phase other).result? =
      some (.success processId reused startedUnixMs))
    (held : ℕ) (hregistered : (manager.register call process).Registered held)
    (hsame : ((manager.register call process).process held).idempotencyKey =
      (manager.args other).idempotencyKey) :
    ((manager.register call process).process held).id = processId := by
  have hprocessKey := (hregisters.owned).2.2.2.1
  have hheld : (manager.phase call).holds = true := by rw [hregisters.attached]; rfl
  rw [register_phase] at hresult
  rcases hregisters.lookup_register hregistered with ⟨hheldId, hnew⟩ | ⟨hbefore, hnotNew⟩
  · rw [hheldId]
    rw [hnew, register_process_self] at hsame
    change (manager.process process).idempotencyKey = (manager.args other).idempotencyKey at hsame
    have hcalls : other = call := by
      have hlookup := (hregisters.sound.holding other hother).1
      rw [← hsame, hprocessKey, (hregisters.sound.holding call hheld).1] at hlookup
      exact (Option.some.inj hlookup).symm
    rw [if_pos hcalls] at hresult
    cases hresult
    rfl
  · rw [register_process_of_ne hnotNew] at hbefore hsame ⊢
    have hcalls : other ≠ call := by
      rintro rfl
      exact hregisters.key_ne hbefore hsame
    rw [if_neg hcalls] at hresult
    exact hregisters.sound.answered other processId reused startedUnixMs hother hresult held
      hbefore hsame

/-- The call gives its place among the starts to the process in the table. -/
theorem Registers.capacity_register :
    (manager.register call process).states.length +
      (manager.register call process).pendingStarts ≤ maxProcessSessions := by
  have hpending : (manager.register call process).pendingStarts < manager.pendingStarts := by
    refine Listing.countP_lt_of_mem (fun entry _ hentry => ?_)
      (mem_of_lookup_eq_some
        (hregisters.sound.holding call (by rw [hregisters.attached]; rfl)).1) ?_ ?_
    · rw [register_phase] at hentry
      split at hentry
      · cases hentry
      · exact hentry
    · rw [hregisters.attached]
      rfl
    · rw [register_phase, if_pos rfl]
      rfl
  have hlength : (manager.register call process).states.length = manager.states.length + 1 := by
    change (store _ process manager.states).length = _
    rw [store_of_lookup_eq_none process hregisters.id_free, length_append, length_singleton]
  have hcapacity := hregisters.sound.capacity
  omega

theorem Registers.sound_register :
    (manager.register call process).Sound := by
  obtain ⟨hsound, hcall, hid, hkey⟩ := id hregisters
  have hholds : ∀ other, ((manager.register call process).phase other).holds =
      (manager.phase other).holds := holds_setPhase (by rw [hcall]; rfl)
  constructor
  case known => exact hsound.known_setPhase (by rw [hcall]; exact Phase.noConfusion)
  case states_nodup => exact nodup_keys_store _ _ hsound.states_nodup
  case registered => exact hregisters.registered_register
  case keyed => exact hregisters.keyed_register
  case holding => exact fun other hother => hsound.holding other (hholds other ▸ hother)
  case reservation =>
    intro key other hlookup
    exact (hsound.reservation key other hlookup).imp_right (hholds other).trans
  case distinct =>
    intro first second hfirst hsecond
    exact hsound.distinct first second (hholds first ▸ hfirst) (hholds second ▸ hsecond)
  case waiting => exact hsound.waiting_setPhase (fun _ heq => by cases heq) fun _ => .inl rfl
  case owned => exact hregisters.owned_register
  case alive => exact hregisters.alive_register
  case finished =>
    exact (forall_update_iff manager.process fun _ session =>
      session.finishedAt ≠ none → session.exited = true).mpr
        ⟨hsound.finished process, fun other _ => hsound.finished other⟩
  case ended =>
    exact (forall_update_iff manager.process fun _ session =>
      session.done = true → session.finishedAt ≠ none).mpr
        ⟨hsound.ended process, fun other _ => hsound.ended other⟩
  case answered =>
    intro other processId reused startedUnixMs hother
    exact hregisters.answered_register other processId reused startedUnixMs
      (hholds other ▸ hother)
  case capacity => exact hregisters.capacity_register

end

end Registration

variable {result : StartResult}

theorem Sound.complete (hsound : manager.Sound) {call : ℕ}
    (hcall : manager.phase call = .ending result) : (manager.complete call result).Sound := by
  have hphase : ∀ other, (manager.complete call result).phase other =
      if other = call then .returned result else manager.phase other :=
    fun other => setPhase_phase call _ other
  have hheld : (manager.phase call).holds = true := by rw [hcall]; rfl
  have hothers : ∀ other, ((manager.complete call result).phase other).holds = true →
      other ≠ call ∧ (manager.phase other).holds = true := by
    intro other hother
    rw [hphase] at hother
    split at hother
    · cases hother
    · rename_i hne
      exact ⟨hne, hother⟩
  have hturns : manager.Turns call (.returned result) := by
    constructor
    case present => exact hcall ▸ Phase.noConfusion
    case stays => exact fun _ => .inr ⟨result, rfl⟩
    case process => exact fun _ heq => by cases heq
    case exited =>
      intro process hprocess
      rw [hcall] at hprocess
      cases hprocess
    case waiting => exact fun _ heq => by cases heq
    case answered => exact fun _ _ _ hholds => by cases hholds
  apply hsound.turns hturns (manager.complete call result) rfl
  · intro other hother
    obtain ⟨hne, hbefore⟩ := hothers other hother
    obtain ⟨hlookup, hmem⟩ := hsound.holding other hbefore
    constructor
    · have hkeys : (manager.args other).idempotencyKey ≠ (manager.args call).idempotencyKey := by
        intro hsame
        rw [hsame, (hsound.holding call hheld).1] at hlookup
        exact hne (Option.some.inj hlookup).symm
      exact (lookup_drop_of_ne hkeys _).trans hlookup
    · refine mem_filter.mpr ⟨hmem, decide_eq_true fun hsame => hne ?_⟩
      exact hsound.distinct other call hbefore hheld hsame
  · intro key other hlookup
    by_cases hsame : key = (manager.args call).idempotencyKey
    · rw [hsame, Manager.complete, lookup_drop_self] at hlookup
      cases hlookup
    · rw [Manager.complete, lookup_drop_of_ne hsame] at hlookup
      obtain ⟨hkey, hholds⟩ := hsound.reservation key other hlookup
      rw [hphase, if_neg]
      · exact ⟨hkey, hholds⟩
      · rintro rfl
        exact hsame hkey.symm
  · intro first second hfirst hsecond
    exact hsound.distinct first second (hothers first hfirst).2 (hothers second hsecond).2
  · have hpending : (manager.complete call result).pendingStarts ≤ manager.pendingStarts :=
      (PyJson.drop_sublist _ _).countP_le.trans (pendingStarts_setPhase fun heq => by cases heq)
    exact (Nat.add_le_add_left hpending _).trans hsound.capacity

/-! ## Every step -/

theorem advances_returned {call : ℕ}
    (hcall : manager.phase call = .entered ∨ ∃ owner, manager.phase call = .waiting owner)
    (result : StartResult) : manager.Advances call (.returned result) where
  toTurns := turns_of_idle hcall rfl (fun hholds => by cases hholds) fun _ heq => by cases heq
  holds := by rcases hcall with hcall | ⟨owner, hcall⟩ <;> rw [hcall] <;> rfl
  pending hpending := by cases hpending

section

variable (hsound : manager.Sound)
include hsound

theorem advances_waiting {call owner : ℕ}
    (hcall : manager.phase call = .entered)
    (howner : lookup (manager.args call).idempotencyKey manager.starting = some owner) :
    manager.Advances call (.waiting owner) where
  toTurns := by
    apply turns_of_idle (.inl hcall) rfl fun _ => rfl
    intro other hwaiting
    cases hwaiting
    exact (hsound.reservation _ _ howner).imp_left Eq.symm
  holds := by rw [hcall]; rfl
  pending hpending := by cases hpending

theorem Sound.enter {call : ℕ} (hcall : manager.phase call = .entered) :
    (manager.enter call).Sound := by
  have hreturned : ∀ result, (manager.setPhase call (.returned result)).Sound :=
    fun result => hsound.setPhase (advances_returned (.inl hcall) result)
  have hcleaned := hsound.cleanupTerminal
  obtain ⟨states, idempotent, hcleanup⟩ := cleanupTerminal_eq manager
  have hphase : manager.cleanupTerminal.phase call = .entered := by rw [hcleanup]; exact hcall
  have hargs : manager.cleanupTerminal.args call = manager.args call := by rw [hcleanup]
  rw [Manager.enter]
  simp only
  split
  · exact hreturned _
  · split
    · exact hreturned _
    · split
      · exact hreturned _
      · split
        · exact hcleaned.setPhase (advances_returned (.inl hphase) _)
        · split
          · rename_i owner howner
            exact hcleaned.setPhase (advances_waiting hcleaned hphase (by rw [hargs]; exact howner))
          · rename_i hnone
            split
            · exact hcleaned.setPhase (advances_returned (.inl hphase) _)
            · split
              · exact hcleaned.setPhase (advances_returned (.inl hphase) _)
              · rename_i hid
                split
                · exact hcleaned.setPhase (advances_returned (.inl hphase) _)
                · rename_i hroom
                  have hreserve := hcleaned.reserve hphase (by rw [hargs]; exact hnone)
                    (by rw [hargs]; exact hid) (Nat.lt_of_not_le hroom)
                  rw [Manager.reserve, hargs] at hreserve
                  exact hreserve

/-- A call that holds no answer yet stops with one. -/
theorem advances_stopping {call process : ℕ}
    (hcall : manager.phase call = .started process ∨ manager.phase call = .attached process)
    (hanswer : ∀ processId reused startedUnixMs,
      result = .success processId reused startedUnixMs →
      lookup (manager.args call).idempotencyKey manager.idempotent = some processId) :
    manager.Advances call (.stopping process result) where
  present := by rcases hcall with hcall | hcall <;> rw [hcall] <;> exact Phase.noConfusion
  stays _ := .inl rfl
  process _ hprocess := by
    cases hprocess
    rcases hcall with hcall | hcall <;> rw [hcall] <;> rfl
  exited _ hprocess := by
    rcases hcall with hcall | hcall <;> rw [hcall] at hprocess <;> exact .inl hprocess
  waiting _ hwaiting := by cases hwaiting
  answered processId reused startedUnixMs _ hresult other hregistered hkey := by
    have hlookup := hanswer processId reused startedUnixMs (Option.some.inj hresult)
    rw [← hkey, (hsound.registered _ other hregistered).2.2.2] at hlookup
    exact Option.some.inj hlookup
  holds := by rcases hcall with hcall | hcall <;> rw [hcall] <;> rfl
  pending hpending := by cases hpending

theorem Sound.attach {call process : ℕ}
    (hcall : manager.phase call = .started process) (error : Option Text) :
    (manager.attach call process error).Sound := by
  cases error with
  | some error => exact hsound.setPhase (advances_stopping hsound (.inl hcall) nofun)
  | none =>
      exact hsound.setPhase
        { present := by rw [hcall]; exact Phase.noConfusion
          stays := fun _ => .inl rfl
          holds := by rw [hcall]; rfl
          process := fun _ hprocess => by rw [hcall]; exact hprocess
          exited := fun _ hprocess => by rw [hcall] at hprocess; exact .inl hprocess
          pending := fun _ => by rw [hcall]; rfl
          waiting := nofun
          answered := fun _ _ _ _ hresult => by cases hresult }

theorem Sound.recheck {call process : ℕ}
    (hcall : manager.phase call = .attached process) : (manager.recheck call process).Sound := by
  rw [Manager.recheck]
  simp only
  split
  · exact hsound.setPhase (advances_stopping hsound (.inr hcall) nofun)
  · split
    · exact hsound.setPhase (advances_stopping hsound (.inr hcall) nofun)
    · rename_i hid
      split
      · rename_i existingId hexisting
        refine hsound.setPhase (advances_stopping hsound (.inr hcall) ?_)
        intro processId reused startedUnixMs hresult
        cases hresult
        exact hexisting
      · rename_i hkey
        exact Registers.sound_register ⟨hsound, hcall, Option.not_isSome_iff_eq_none.mp hid, hkey⟩

theorem advances_ending {call : ℕ}
    (hcall : manager.phase call = .reserved ∧ (∃ code message, result = .failure code message) ∨
      ∃ process, manager.phase call = .stopping process result ∧
        (manager.process process).exited = true) :
    manager.Advances call (.ending result) where
  present := by
    rcases hcall with ⟨hcall, _⟩ | ⟨process, hcall, _⟩ <;> rw [hcall] <;> exact Phase.noConfusion
  stays _ := .inl rfl
  process _ hprocess := by cases hprocess
  exited other hprocess := by
    rcases hcall with ⟨hcall, _⟩ | ⟨process, hcall, hexited⟩
    · rw [hcall] at hprocess
      cases hprocess
    · rw [hcall] at hprocess
      cases hprocess
      exact .inr hexited
  waiting _ hwaiting := by cases hwaiting
  answered processId reused startedUnixMs hholds hresult := by
    rcases hcall with ⟨_, code, message, rfl⟩ | ⟨process, hcall, _⟩
    · cases hresult
    · exact hsound.answered call processId reused startedUnixMs (by rw [hcall]; rfl)
        (by rw [hcall]; exact hresult)
  holds := by rcases hcall with ⟨hcall, _⟩ | ⟨process, hcall, _⟩ <;> rw [hcall] <;> rfl
  pending hpending := by cases hpending

/-- No table that the invariant speaks of changes. -/
theorem Sound.frame (closing : Bool) (now : ℕ) (removals : List ℕ) :
    Sound { manager with closing, now, removals } where
  known := hsound.known
  states_nodup := hsound.states_nodup
  registered := hsound.registered
  keyed := hsound.keyed
  holding := hsound.holding
  reservation := hsound.reservation
  distinct := hsound.distinct
  waiting := hsound.waiting
  owned := hsound.owned
  alive := hsound.alive
  finished := hsound.finished
  ended := hsound.ended
  answered := hsound.answered
  capacity := hsound.capacity

/-- Every action of a caller, of a process or of the clock leaves the manager sound. -/
theorem Sound.step (action : Action) : (manager.step action).Sound := by
  cases action with
  | call args => exact hsound.call args
  | enter call =>
      rw [Manager.step]
      split
      · rename_i hcall
        exact hsound.enter hcall
      · exact hsound
  | spawn call error =>
      rw [Manager.step]
      split
      · rename_i hcall
        cases error with
        | none => exact hsound.spawn hcall
        | some failure =>
            exact hsound.setPhase (advances_ending hsound (.inl ⟨hcall, _, _, rfl⟩))
      · exact hsound
  | attach call error =>
      rw [Manager.step]
      split
      · rename_i process hcall
        exact hsound.attach hcall error
      · exact hsound
  | recheck call =>
      rw [Manager.step]
      split
      · rename_i process hcall
        exact hsound.recheck hcall
      · exact hsound
  | reap call =>
      rw [Manager.step]
      split
      · rename_i process result hcall
        split
        · rename_i hexited
          exact hsound.setPhase (advances_ending hsound (.inr ⟨process, hcall, hexited⟩))
        · exact hsound
      · exact hsound
  | complete call =>
      rw [Manager.step]
      split
      · rename_i result hcall
        exact hsound.complete hcall
      · exact hsound
  | wake call =>
      rw [Manager.step]
      split
      · rename_i owner hcall
        split
        · exact hsound.setPhase (advances_returned (.inr ⟨owner, hcall⟩) _)
        · exact hsound
      · exact hsound
  | exit process =>
      rw [Manager.step]
      split
      · exact hsound.setProcess ⟨rfl, rfl, rfl, rfl, fun _ => rfl, fun _ => rfl,
          hsound.ended process⟩
      · exact hsound
  | finish process =>
      rw [Manager.step]
      split
      · rename_i hready
        have hexited : (manager.process process).exited = true := by
          simp only [Bool.and_eq_true] at hready
          exact hready.1.2
        exact hsound.setProcess ⟨rfl, rfl, rfl, rfl, id, fun _ => hexited,
          fun _ => Option.some_ne_none _⟩
      · exact hsound
  | close process =>
      rw [Manager.step]
      split
      · rename_i hfinished
        exact hsound.setProcess ⟨rfl, rfl, rfl, rfl, id, hsound.finished process,
          fun _ => Option.isSome_iff_ne_none.mp hfinished⟩
      · exact hsound
  | poll processId => exact hsound
  | cancel processId delivered =>
      rw [Manager.step]
      split
      · split
        · exact hsound.frame _ _ _
        · exact hsound
      · exact hsound
  | release processId =>
      rw [Manager.step]
      split
      · split
        · exact hsound.frame _ _ _
        · exact hsound
      · exact hsound
  | remove index =>
      rw [Manager.step]
      split
      · split
        · rename_i hdone
          exact (hsound.remove hdone).frame _ _ _
        · exact hsound
      · exact hsound
  | tick elapsed => exact hsound.frame _ _ _
  | shutdown => exact hsound.frame _ _ _

end

theorem sound_initial : Sound {} where
  known _ hpresent := absurd rfl hpresent
  states_nodup := nodup_nil
  registered _ _ hlookup := by cases hlookup
  keyed _ _ hlookup := by cases hlookup
  holding _ hholds := by cases hholds
  reservation _ _ hlookup := by cases hlookup
  distinct _ _ hholds := by cases hholds
  waiting _ _ hwaiting := by cases hwaiting
  owned _ _ hprocess := by cases hprocess
  alive _ hspawned := absurd hspawned (Nat.not_lt_zero _)
  finished _ hfinished := absurd rfl hfinished
  ended _ hended := by cases hended
  answered _ _ _ _ hholds := by cases hholds
  capacity := Nat.zero_le _

/-- By induction on the actions, from an empty manager. -/
theorem sound_run (actions : List Action) : (actions.foldl step {}).Sound := by
  have hall : Transition.Meets step (fun _ _ => True) {} actions :=
    Transition.meets_of_forall_mem (fun _ _ => trivial) _
  exact Transition.invariant_foldl Sound (fun _ action hsound _ => hsound.step action)
    sound_initial hall

end Manager

end ReuleauxCoder.Peer
