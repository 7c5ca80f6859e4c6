import ReuleauxCoder.Remote.ProcessPort

/-!
# Remote commands that run once

The peer knows a start again by its key, which it forgets with the process.  As long as it
takes no start whose key it has forgotten, every key has one process, and that is the one
that a confirmed session names.
-/

namespace ReuleauxCoder.Peer

open PyText PyJson Function

namespace Manager

variable {manager : Manager}

/-- A process was spawned for the key. -/
def Spawned (manager : Manager) (key : Text) : Prop :=
  ∃ process < manager.spawned, (manager.process process).idempotencyKey = key

/-- The peer knows the key of a start that it has spawned a process for. -/
def Remembers (manager : Manager) (call : ℕ) : Prop :=
  manager.Spawned (manager.args call).idempotencyKey →
    lookup (manager.args call).idempotencyKey manager.cleanupTerminal.idempotent ≠ none ∨
      lookup (manager.args call).idempotencyKey manager.starting ≠ none

instance (manager : Manager) (call : ℕ) : Decidable (manager.Remembers call) :=
  have : Decidable (manager.Spawned (manager.args call).idempotencyKey) :=
    inferInstanceAs (Decidable (∃ process < manager.spawned, _))
  inferInstanceAs (Decidable (_ → _))

/-- The process that is spawned for a key and has an id. -/
def Named (manager : Manager) (key processId : Text) : Prop :=
  ∃ process < manager.spawned, (manager.process process).idempotencyKey = key ∧
    (manager.process process).id = processId

structure Single (manager : Manager) : Prop where
  single : ∀ first second, first < manager.spawned → second < manager.spawned →
    (manager.process first).idempotencyKey = (manager.process second).idempotencyKey →
    first = second
  unspawned : ∀ call, manager.phase call = .reserved →
    ¬ manager.Spawned (manager.args call).idempotencyKey
  named : ∀ call processId reused startedUnixMs,
    (manager.phase call).result? = some (.success processId reused startedUnixMs) →
    manager.Named (manager.args call).idempotencyKey processId
  born : ∀ process < manager.spawned, (manager.process process).call < manager.arrived ∧
    (manager.process process).idempotencyKey =
      (manager.args (manager.process process).call).idempotencyKey

theorem Named.extends {next : Manager} {key processId : Text}
    (hnamed : manager.Named key processId) (hextends : Extends manager next) :
    next.Named key processId := by
  obtain ⟨process, hspawned, hkey, hid⟩ := hnamed
  exact ⟨process, hspawned.trans_le hextends.spawned,
    (hextends.idempotencyKey process hspawned).trans hkey, (hextends.id process hspawned).trans hid⟩

theorem named_of_lookup (hsound : manager.Sound) {key processId : Text}
    (hlookup : lookup key manager.idempotent = some processId) : manager.Named key processId := by
  obtain ⟨process, hstate, hkey⟩ := hsound.keyed key processId hlookup
  obtain ⟨hid, hspawned, _⟩ := hsound.registered processId process hstate
  exact ⟨process, hspawned, hkey, hid⟩

/-- The answers of the next state name processes. -/
theorem named_step (hsound : manager.Sound) (hsingle : manager.Single) (action : Action)
    {call : ℕ} {processId : Text} {reused : Bool} {startedUnixMs : Option ℕ}
    (hresult : ((manager.step action).phase call).result? =
      some (.success processId reused startedUnixMs)) :
    (manager.step action).Named ((manager.step action).args call).idempotencyKey processId := by
  have hextends := extends_step manager action
  have hnext := hsound.step action
  have hargs : ∀ phase, manager.phase call = phase → phase ≠ .absent →
      (manager.step action).args call = manager.args call :=
    fun phase hphase hpresent => hextends.args call (lt_of_phase hsound hphase hpresent)
  have hold : ∀ result, (manager.phase call).result? = some result →
      result = .success processId reused startedUnixMs →
      (manager.step action).Named ((manager.step action).args call).idempotencyKey processId := by
    intro result hbefore hsame
    have hpresent : manager.phase call ≠ .absent := by
      intro habsent
      rw [habsent] at hbefore
      cases hbefore
    rw [hargs _ rfl hpresent]
    exact (hsingle.named call processId reused startedUnixMs (hsame ▸ hbefore)).extends hextends
  rcases moves_step hsound action with hphase | ⟨mover, phase, hphase, hleads⟩
  · exact hold _ (hphase ▸ hresult) rfl
  · rw [hphase, update_apply] at hresult
    split at hresult
    · rename_i hcall
      rw [← hcall] at hleads
      cases hleads with
      | hit hcall hkey =>
          cases hresult
          rw [hargs _ hcall (by decide)]
          exact named_of_lookup hnext hkey
      | stopped process hcall hkey =>
          have hpresent : manager.phase call ≠ .absent := by
            rcases hcall with hcall | hcall <;> rw [hcall] <;> exact Phase.noConfusion
          rw [hargs _ rfl hpresent]
          exact named_of_lookup hnext (hkey _ _ _ (Option.some.inj hresult))
      | registered process hcall started =>
          cases hresult
          obtain ⟨hspawned, _, hid, hkey, _⟩ := hsound.owned call process (by rw [hcall]; rfl)
          rw [hargs _ hcall Phase.noConfusion]
          exact Named.extends ⟨process, hspawned, hkey, hid⟩ hextends
      | reaped process hcall | completed hcall =>
          exact hold _ (by rw [hcall]; exact hresult) rfl
      | woken hcall howner =>
          obtain ⟨first, hsuccess⟩ := replay_success (Option.some.inj hresult)
          obtain ⟨hkeys, _⟩ := hsound.waiting call _ hcall
          rw [hargs _ hcall Phase.noConfusion, hkeys]
          refine Named.extends (hsingle.named _ processId first startedUnixMs ?_) hextends
          rw [howner, ← hsuccess]
          rfl
      | refused | unspawned => cases hresult
      | arrived | joined | reserved | spawned | attached => cases hresult
    · exact hold _ hresult rfl

/-- Only a reserved call spawns. -/
theorem spawned_step (action : Action) :
    (manager.step action).spawned = manager.spawned ∨
      ∃ call, manager.phase call = .reserved ∧ action = .spawn call none := by
  cases action with
  | enter call =>
      rw [step]
      split
      · exact .inl (enter_frame manager call).2.2.2
      · exact .inl rfl
  | spawn call error =>
      rw [step]
      split
      · rename_i hcall
        cases error with
        | none => exact .inr ⟨call, hcall, rfl⟩
        | some failure => exact .inl rfl
      · exact .inl rfl
  | attach call error =>
      rw [step]
      split
      · cases error <;> exact .inl rfl
      · exact .inl rfl
  | recheck call =>
      rw [step]
      split
      · rw [recheck]
        simp only
        repeat' split
        all_goals exact .inl rfl
      · exact .inl rfl
  | remove index =>
      rw [step]
      split
      · split
        · rw [remove]
          split <;> exact .inl rfl
        · exact .inl rfl
      · exact .inl rfl
  | reap call | complete call | wake call | exit process | finish process | close process
  | cancel processId delivered | release processId =>
      rw [step]
      repeat' split
      all_goals exact .inl rfl
  | call args | poll processId | tick elapsed | shutdown => exact .inl rfl

/-- What the peer may be asked: a start whose process it has forgotten is not taken. -/
def Known (manager : Manager) : Action → Prop
  | .enter call => manager.phase call = .entered → manager.Remembers call
  | _ => True

instance (manager : Manager) (action : Action) : Decidable (manager.Known action) :=
  match action with
  | .enter call => inferInstanceAs (Decidable (manager.phase call = .entered → _))
  | .call _ | .spawn _ _ | .attach _ _ | .recheck _ | .reap _ | .complete _ | .wake _ | .exit _
  | .finish _ | .close _ | .poll _ | .cancel _ _ | .release _ | .remove _ | .tick _
  | .shutdown => isTrue trivial

/-- A call reserves a process only where none was spawned under its key. -/
theorem reserved_step (hsound : manager.Sound) {action : Action} (hknown : manager.Known action)
    {call : ℕ} (hnext : (manager.step action).phase call = .reserved) :
    manager.phase call = .reserved ∨
      manager.phase call = .entered ∧ ¬ manager.Spawned (manager.args call).idempotencyKey := by
  rcases moves_step hsound action with hphase | ⟨mover, phase, hphase, hleads⟩
  · exact .inl (hphase ▸ hnext)
  · rw [hphase, update_apply] at hnext
    split at hnext
    · rename_i hcall
      rw [← hcall, hnext] at hleads
      cases hleads with
      | reserved haction hentered hkey howner =>
          refine .inr ⟨hentered, fun hspawned => ?_⟩
          rw [haction] at hknown
          rcases hknown hentered hspawned with hremembered | hremembered
          · exact hremembered hkey
          · exact hremembered howner
    · exact .inl hnext

theorem reserved_unique (hsound : manager.Sound) {first second : ℕ}
    (hfirst : manager.phase first = .reserved) (hsecond : manager.phase second = .reserved)
    (hkeys : (manager.args first).idempotencyKey = (manager.args second).idempotencyKey) :
    first = second := by
  have hholds := (hsound.holding first (by rw [hfirst]; rfl)).1
  rw [hkeys, (hsound.holding second (by rw [hsecond]; rfl)).1] at hholds
  exact (Option.some.inj hholds).symm

theorem Single.spawn (hsingle : manager.Single) (hsound : manager.Sound) {call : ℕ}
    (hcall : manager.phase call = .reserved) : (manager.step (.spawn call none)).Single := by
  have hspawn : manager.step (.spawn call none) = manager.spawn call none := by
    rw [step, hcall]
  have hold : ∀ process, process < manager.spawned →
      (manager.spawn call none).process process = manager.process process :=
    fun process hspawned => update_of_ne (Nat.ne_of_lt hspawned) _ _
  have hnew : ((manager.spawn call none).process manager.spawned).idempotencyKey =
      (manager.args call).idempotencyKey := by
    simp only [Manager.spawn, update_self]
  have hfresh : ∀ process, process < manager.spawned →
      (manager.process process).idempotencyKey ≠ (manager.args call).idempotencyKey :=
    fun process hspawned hkey => hsingle.unspawned call hcall ⟨process, hspawned, hkey⟩
  constructor
  case single =>
    rw [hspawn]
    intro first second hfirst hsecond hkey
    rcases Nat.lt_succ_iff_lt_or_eq.mp hfirst with hfirstOld | rfl
    · rcases Nat.lt_succ_iff_lt_or_eq.mp hsecond with hsecondOld | rfl
      · rw [hold first hfirstOld, hold second hsecondOld] at hkey
        exact hsingle.single first second hfirstOld hsecondOld hkey
      · rw [hold first hfirstOld, hnew] at hkey
        exact absurd hkey (hfresh first hfirstOld)
    · rcases Nat.lt_succ_iff_lt_or_eq.mp hsecond with hsecondOld | hsame
      · rw [hold second hsecondOld, hnew] at hkey
        exact absurd hkey.symm (hfresh second hsecondOld)
      · exact hsame.symm
  case unspawned =>
    intro other hother hspawned
    have hknown : manager.Known (.spawn call none) := trivial
    rcases reserved_step hsound hknown hother with hreserved | ⟨hentered, _⟩
    · rw [hspawn] at hother hspawned
      have hne : other ≠ call := by
        rintro rfl
        rw [Manager.spawn] at hother
        simp only [setPhase, update_self] at hother
        cases hother
      obtain ⟨process, hprocess, hkey⟩ := hspawned
      rcases Nat.lt_succ_iff_lt_or_eq.mp hprocess with hprocessOld | rfl
      · rw [hold process hprocessOld] at hkey
        exact hsingle.unspawned other hreserved ⟨process, hprocessOld, hkey⟩
      · rw [hnew] at hkey
        exact hne (reserved_unique hsound hcall hreserved hkey).symm
    · -- A call that has entered stays where it is while another one spawns.
      rw [hspawn, Manager.spawn] at hother
      simp only [setPhase, update_apply] at hother
      split at hother
      · cases hother
      · rw [hentered] at hother
        cases hother
  case named =>
    exact fun other processId reused startedUnixMs => named_step hsound hsingle (.spawn call none)
  case born =>
    rw [hspawn]
    intro process hprocess
    rcases Nat.lt_succ_iff_lt_or_eq.mp hprocess with hprocessOld | rfl
    · rw [hold process hprocessOld]
      exact hsingle.born process hprocessOld
    · have hknown : call < manager.arrived := lt_of_phase hsound hcall (by decide)
      refine ⟨?_, hnew.trans ?_⟩
      · simp only [Manager.spawn, update_self]
        exact hknown
      · simp only [Manager.spawn, update_self]
        rfl

/-- A second process for a key would need a call that reserves after the first was spawned and
forgotten. -/
theorem Single.step (hsingle : manager.Single) (hsound : manager.Sound) {action : Action}
    (hknown : manager.Known action) : (manager.step action).Single := by
  rcases spawned_step action with hspawned | ⟨call, hcall, rfl⟩
  · have hextends := extends_step manager action
    have hkeys : ∀ key, (manager.step action).Spawned key → manager.Spawned key := by
      rintro key ⟨process, hprocess, hkey⟩
      rw [hspawned] at hprocess
      exact ⟨process, hprocess, (hextends.idempotencyKey process hprocess).symm.trans hkey⟩
    constructor
    case single =>
      intro first second hfirst hsecond hkey
      rw [hspawned] at hfirst hsecond
      rw [hextends.idempotencyKey first hfirst, hextends.idempotencyKey second hsecond] at hkey
      exact hsingle.single first second hfirst hsecond hkey
    case unspawned =>
      intro call hcall hnew
      have hbefore := hkeys _ hnew
      rcases reserved_step hsound hknown hcall with hreserved | ⟨hentered, hfresh⟩
      · rw [hextends.args call (lt_of_phase hsound hreserved (by decide))] at hbefore
        exact hsingle.unspawned call hreserved hbefore
      · rw [hextends.args call (lt_of_phase hsound hentered (by decide))] at hbefore
        exact hfresh hbefore
    case named =>
      exact fun call processId reused startedUnixMs => named_step hsound hsingle action
    case born =>
      intro process hprocess
      rw [hspawned] at hprocess
      obtain ⟨hcall, hkey⟩ := hsingle.born process hprocess
      rw [hextends.call process hprocess, hextends.idempotencyKey process hprocess,
        hextends.args _ hcall]
      exact ⟨hcall.trans_le hextends.arrived, hkey⟩
  · exact hsingle.spawn hsound hcall

/-- A removal changes the two tables only. -/
theorem Single.remove (hsingle : manager.Single) (process : ℕ) :
    (manager.remove process).Single := by
  rw [Manager.remove]
  split
  · exact ⟨hsingle.single, hsingle.unspawned, hsingle.named, hsingle.born⟩
  · exact hsingle

end Manager

end ReuleauxCoder.Peer

namespace ReuleauxCoder.Remote

open PyText PyJson Peer Function
open Process (ProcessState)

namespace ProcessLink

variable {link : ProcessLink}

/-! ## The link -/

/-- What ties the port, the requests and the peer together. -/
structure Linked (link : ProcessLink) : Prop where
  sound : link.manager.Sound
  single : link.manager.Single
  fresh : ∀ index, link.entries ≤ index → link.entry index = {}
  queued : ∀ index ∈ link.queue, index < link.sent
  pending : ∀ index, link.pending index = true → index < link.sent
  asked : ∀ index < link.sent, (link.request index).entry < link.entries ∧
    ∀ args, (link.request index).operation = .start args →
      (link.entry (link.request index).entry).startArgs = args
  origin : ∀ call < link.manager.arrived, link.origin call < link.sent ∧
    (link.request (link.origin call)).operation = .start (link.manager.args call)
  replied : ∀ index processId reused startedUnixMs,
    link.reply index = some (.start (.success processId reused startedUnixMs)) →
    index < link.sent ∧ ∃ args, (link.request index).operation = .start args ∧
      link.manager.Named args.idempotencyKey processId
  confirmed : ∀ index, (link.entry index).startConfirmed = true →
    link.manager.Named (link.entry index).startArgs.idempotencyKey (link.entry index).processId

variable {index : ℕ}

section

variable (hlinked : link.Linked)
include hlinked

theorem Linked.published
    (hpublished : (link.entry index).published = true) : index < link.entries := by
  by_contra hnew
  rw [hlinked.fresh index (Nat.le_of_not_lt hnew)] at hpublished
  cases hpublished

/-- The peer takes a step by itself. -/
theorem Linked.advance {manager : Peer.Manager} (hsound : manager.Sound)
    (hsingle : manager.Single) (hextends : Manager.Extends link.manager manager)
    (harrived : manager.arrived = link.manager.arrived) : Linked { link with manager } where
  sound := hsound
  single := hsingle
  fresh := hlinked.fresh
  queued := hlinked.queued
  pending := hlinked.pending
  asked := hlinked.asked
  origin call hcall := by
    have hbefore := harrived ▸ hcall
    obtain ⟨hsent, hoperation⟩ := hlinked.origin call hbefore
    refine ⟨hsent, hoperation.trans ?_⟩
    rw [hextends.args call hbefore]
  replied index processId reused startedUnixMs hreply := by
    obtain ⟨hsent, args, hoperation, hnamed⟩ :=
      hlinked.replied index processId reused startedUnixMs hreply
    exact ⟨hsent, args, hoperation, hnamed.extends hextends⟩
  confirmed index hconfirmed :=
    (hlinked.confirmed index hconfirmed).extends hextends

theorem Linked.setEntry {entry : PortEntry} (hknown : index < link.entries)
    (hargs : entry.startArgs = (link.entry index).startArgs)
    (hconfirmed : entry.startConfirmed = true →
      link.manager.Named entry.startArgs.idempotencyKey entry.processId) :
    (link.setEntry index entry).Linked where
  sound := hlinked.sound
  single := hlinked.single
  fresh other hother := by
    have hne : other ≠ index := (hknown.trans_le hother).ne'
    simp only [ProcessLink.setEntry, update_of_ne hne]
    exact hlinked.fresh other hother
  queued := hlinked.queued
  pending := hlinked.pending
  asked request hsent := by
    obtain ⟨hentry, hstart⟩ := hlinked.asked request hsent
    refine ⟨hentry, fun args hoperation => ?_⟩
    simp only [ProcessLink.setEntry, update_apply]
    split
    · rename_i hsame
      rw [hargs, ← hsame]
      exact hstart args hoperation
    · exact hstart args hoperation
  origin := hlinked.origin
  replied := hlinked.replied
  confirmed other hother := by
    simp only [ProcessLink.setEntry, update_apply] at hother ⊢
    split at hother
    · rename_i hsame
      rw [if_pos hsame]
      exact hconfirmed hother
    · rename_i hne
      rw [if_neg hne]
      exact hlinked.confirmed other hother

/-- An entry whose start, id and confirmation stay. -/
theorem Linked.changeEntry {entry : PortEntry}
    (hknown : index < link.entries) (hargs : entry.startArgs = (link.entry index).startArgs)
    (hid : entry.processId = (link.entry index).processId)
    (hstays : entry.startConfirmed = (link.entry index).startConfirmed) :
    (link.setEntry index entry).Linked := by
  refine hlinked.setEntry hknown hargs fun hconfirmed => ?_
  rw [hargs, hid]
  exact hlinked.confirmed index (hstays ▸ hconfirmed)

theorem Linked.send {request : Request}
    (hknown : request.entry < link.entries)
    (hasked : ∀ args, request.operation = .start args →
      (link.entry request.entry).startArgs = args) :
    (link.send request).Linked := by
  have hold : ∀ index, index < link.sent → (link.send request).request index = link.request index :=
    fun index hsent => update_of_ne (Nat.ne_of_lt hsent) _ _
  have hnew : (link.send request).request link.sent = request := update_self _ _ _
  constructor
  case sound => exact hlinked.sound
  case single => exact hlinked.single
  case fresh => exact hlinked.fresh
  case pending =>
    intro index hpending
    simp only [ProcessLink.send, update_apply] at hpending
    split at hpending
    · rename_i hlast
      rw [hlast]
      exact Nat.lt_succ_self _
    · exact Nat.lt_succ_of_lt (hlinked.pending index hpending)
  case queued =>
    intro index hmem
    rcases List.mem_append.mp hmem with hbefore | hlast
    · exact Nat.lt_succ_of_lt (hlinked.queued index hbefore)
    · rw [List.mem_singleton.mp hlast]
      exact Nat.lt_succ_self _
  case asked =>
    intro index hsent
    rcases Nat.lt_succ_iff_lt_or_eq.mp hsent with hbefore | rfl
    · rw [hold index hbefore]
      exact hlinked.asked index hbefore
    · rw [hnew]
      exact ⟨hknown, hasked⟩
  case origin =>
    intro call hcall
    obtain ⟨hsent, hoperation⟩ := hlinked.origin call hcall
    refine ⟨Nat.lt_succ_of_lt hsent, ?_⟩
    change ((link.send request).request (link.origin call)).operation = _
    rw [hold _ hsent]
    exact hoperation
  case replied =>
    intro index processId reused startedUnixMs hreply
    obtain ⟨hsent, args, hoperation, hnamed⟩ :=
      hlinked.replied index processId reused startedUnixMs hreply
    refine ⟨Nat.lt_succ_of_lt hsent, args, ?_, hnamed⟩
    rw [hold index hsent]
    exact hoperation
  case confirmed => exact hlinked.confirmed

theorem Linked.respond {reply : Reply}
    (hreply : ∀ processId reused startedUnixMs,
      reply = .start (.success processId reused startedUnixMs) →
      index < link.sent ∧ ∃ args, (link.request index).operation = .start args ∧
        link.manager.Named args.idempotencyKey processId) :
    (link.respond index reply).Linked where
  sound := hlinked.sound
  single := hlinked.single
  fresh := hlinked.fresh
  queued := hlinked.queued
  pending := hlinked.pending
  asked := hlinked.asked
  origin := hlinked.origin
  replied other processId reused startedUnixMs hother := by
    simp only [ProcessLink.respond, update_apply] at hother
    split at hother
    · rename_i hsame
      rw [hsame]
      exact hreply processId reused startedUnixMs (Option.some.inj hother)
    · exact hlinked.replied other processId reused startedUnixMs hother
  confirmed := hlinked.confirmed

/-- Nothing that the invariant speaks of changes. -/
theorem Linked.frame {queue : List ℕ}
    (hqueue : ∀ index ∈ queue, index ∈ link.queue) (received : List ℕ) (found : ℕ → Option ℕ) :
    Linked { link with queue, received, found } where
  sound := hlinked.sound
  single := hlinked.single
  fresh := hlinked.fresh
  queued index hmem := hlinked.queued index (hqueue index hmem)
  pending := hlinked.pending
  asked := hlinked.asked
  origin := hlinked.origin
  replied := hlinked.replied
  confirmed := hlinked.confirmed

/-- A thread stops waiting. -/
theorem Linked.settle (index : ℕ) :
    Linked { link with pending := Function.update link.pending index false } where
  sound := hlinked.sound
  single := hlinked.single
  fresh := hlinked.fresh
  queued := hlinked.queued
  pending other hpending := by
    simp only [update_apply] at hpending
    split at hpending
    · cases hpending
    · exact hlinked.pending other hpending
  asked := hlinked.asked
  origin := hlinked.origin
  replied := hlinked.replied
  confirmed := hlinked.confirmed

/-! ## The host -/

/-- The entry of a start that is about to be sent. -/
theorem Linked.enter (args : StartArgs) (processId : Text) :
    Linked
      { link with
        entries := link.entries + 1
        entry := Function.update link.entry link.entries { startArgs := args, processId } } where
  sound := hlinked.sound
  single := hlinked.single
  fresh index hindex := by
    simp only [update_of_ne (Nat.ne_of_gt hindex)]
    exact hlinked.fresh index (Nat.le_of_succ_le hindex)
  queued := hlinked.queued
  pending := hlinked.pending
  asked index hsent := by
    obtain ⟨hentry, hstart⟩ := hlinked.asked index hsent
    refine ⟨Nat.lt_succ_of_lt hentry, ?_⟩
    simp only [update_of_ne (Nat.ne_of_lt hentry)]
    exact hstart
  origin := hlinked.origin
  replied := hlinked.replied
  confirmed index hconfirmed := by
    simp only [update_apply] at hconfirmed ⊢
    split at hconfirmed
    · cases hconfirmed
    · rename_i hother
      rw [if_neg hother]
      exact hlinked.confirmed index hconfirmed

theorem Linked.start (processId command : Text)
    (idempotencyKey : Option Text) : (link.start processId command idempotencyKey).Linked := by
  refine Linked.send (hlinked.enter _ processId) (Nat.lt_succ_self _) fun args hoperation => ?_
  cases hoperation
  simp only [update_self]

theorem Linked.sendPoll (hknown : index < link.entries) :
    (link.sendPoll index).Linked :=
  hlinked.send hknown nofun

theorem Linked.poll (index : ℕ) : (link.poll index).Linked := by
  rw [ProcessLink.poll]
  split
  · rename_i hpublished
    have hknown := hlinked.published hpublished
    split
    · exact hlinked.sendPoll hknown
    · refine hlinked.send hknown fun args hoperation => ?_
      cases hoperation
      rfl
  · exact hlinked

theorem Linked.terminate (index : ℕ) (supported : Bool) :
    (link.terminate index supported).Linked := by
  rw [ProcessLink.terminate]
  split
  · rename_i hlive
    have hknown := hlinked.published (Bool.and_eq_true_iff.mp hlive).1
    cases supported <;> exact hlinked.send hknown nofun
  · exact hlinked

theorem Linked.release (index : ℕ) (supported : Bool) :
    (link.release index supported).Linked := by
  rw [ProcessLink.release]
  split
  · rename_i hexited
    have hknown := hlinked.published (Bool.and_eq_true_iff.mp hexited).1
    split
    · exact hlinked.send hknown nofun
    · exact hlinked.changeEntry hknown rfl rfl rfl
  · exact hlinked

theorem Linked.transportUnknown (hknown : index < link.entries) :
    (link.setEntry index (transportUnknown (link.entry index))).Linked := by
  refine hlinked.changeEntry hknown ?_ ?_ ?_ <;> rw [ProcessLink.transportUnknown] <;> split <;> rfl

theorem Linked.failed (hknown : index < link.entries) (caller : Caller) :
    (link.failed index caller).Linked := by
  cases caller with
  | start | release => exact hlinked.changeEntry hknown rfl rfl rfl
  | confirm => exact hlinked
  | poll | terminate => exact hlinked.transportUnknown hknown

/-- A reply to a start confirms an entry with a process of its key. -/
theorem Linked.answered (hknown : index < link.entries) (caller : Caller)
    {reply : Reply} (hreply : ∀ processId reused startedUnixMs,
      reply = .start (.success processId reused startedUnixMs) →
      link.manager.Named (link.entry index).startArgs.idempotencyKey processId) :
    (link.answered index caller reply).Linked := by
  cases caller with
  | start =>
      cases reply with
      | start result =>
          cases result with
          | success processId reused startedUnixMs =>
              exact hlinked.setEntry hknown rfl fun _ => hreply processId reused startedUnixMs rfl
          | failure errorCode errorMessage => exact hlinked
      | snapshot done => exact hlinked
      | failed => exact hlinked
  | confirm =>
      cases reply with
      | start result =>
          cases result with
          | success processId reused startedUnixMs =>
              let entry := link.entry index
              have hconfirmed : (link.setEntry index
                  { entry with
                    processId
                    startConfirmed := true
                    state := if entry.state = .exited then .exited else .running }).Linked :=
                hlinked.setEntry hknown rfl fun _ => hreply processId reused startedUnixMs rfl
              exact hconfirmed.sendPoll hknown
          | failure errorCode errorMessage => exact hlinked
      | snapshot done => exact hlinked
      | failed => exact hlinked
  | poll =>
      cases reply with
      | snapshot done =>
          rw [ProcessLink.answered]
          split
          · exact hlinked
          · exact hlinked.changeEntry hknown rfl rfl rfl
      | start result => exact hlinked.transportUnknown hknown
      | failed => exact hlinked.transportUnknown hknown
  | terminate =>
      cases reply with
      | snapshot done =>
          rw [ProcessLink.answered]
          split
          · exact hlinked.changeEntry hknown rfl rfl rfl
          · exact hlinked
      | start result => exact hlinked.transportUnknown hknown
      | failed => exact hlinked.transportUnknown hknown
  | release => exact hlinked.changeEntry hknown rfl rfl rfl

/-! ## The peer -/

theorem Linked.take (hsent : index < link.sent) :
    (link.take index).Linked := by
  rw [ProcessLink.take]
  split
  · rename_i args hoperation
    have hextends := Manager.extends_step link.manager (.call args)
    have hnew : (link.manager.step (.call args)).args link.manager.arrived = args :=
      update_self _ _ _
    constructor
    case sound => exact hlinked.sound.step (.call args)
    case single =>
      have hknown : link.manager.Known (.call args) := trivial
      exact hlinked.single.step hlinked.sound hknown
    case fresh => exact hlinked.fresh
    case queued => exact hlinked.queued
    case pending => exact hlinked.pending
    case asked => exact hlinked.asked
    case origin =>
      intro call hcall
      simp only [update_apply]
      split
      · rename_i hsame
        rw [hsame, hnew]
        exact ⟨hsent, hoperation⟩
      · rename_i hother
        have hbefore := (Nat.lt_succ_iff_lt_or_eq.mp hcall).resolve_right hother
        rw [hextends.args call hbefore]
        exact hlinked.origin call hbefore
    case replied =>
      intro other processId reused startedUnixMs hreply
      obtain ⟨hbefore, asked, hasked, hnamed⟩ :=
        hlinked.replied other processId reused startedUnixMs hreply
      exact ⟨hbefore, asked, hasked, hnamed.extends hextends⟩
    case confirmed =>
      exact fun other hconfirmed => (hlinked.confirmed other hconfirmed).extends hextends
  · exact hlinked.frame (fun _ hmem => hmem) _ _

theorem Linked.control (index : ℕ) (delivered : Bool) :
    (link.control index delivered).Linked := by
  have hreply : ∀ done, (link.respond index (.snapshot done)).Linked :=
    fun done => hlinked.respond nofun
  have hfailed : (link.respond index .failed).Linked := hlinked.respond nofun
  have hheld : ∀ process,
      Linked { link with found := Function.update link.found index (some process) } :=
    fun process => hlinked.frame (fun _ hmem => hmem) _ _
  rw [ProcessLink.control]
  simp only
  split
  · exact hlinked
  · split
    · exact hreply _
    · exact hfailed
  · split
    · split
      · exact hreply _
      · exact hfailed
    · exact hfailed
  · split
    · split
      · exact hheld _
      · exact hfailed
    · exact hfailed
  · split
    · split
      · exact hheld _
      · exact hfailed
    · exact hfailed

end

theorem arrived_internal {manager : Peer.Manager} {action : Peer.Manager.Action}
    (hinternal : internal action = true) : (manager.step action).arrived = manager.arrived := by
  cases action with
  | enter call =>
      rw [Manager.step]
      split
      · exact (Manager.enter_frame manager call).2.2.1
      · rfl
  | spawn call error =>
      rw [Manager.step]
      split
      · cases error <;> rfl
      · rfl
  | attach call error =>
      rw [Manager.step]
      split
      · cases error <;> rfl
      · rfl
  | recheck call =>
      rw [Manager.step]
      split
      · rw [Manager.recheck]
        simp only
        repeat' split
        all_goals rfl
      · rfl
  | reap call | complete call | wake call | exit process | finish process | close process =>
      rw [Manager.step]
      repeat' split
      all_goals rfl
  | tick elapsed => rfl
  | call args | poll processId | cancel processId delivered | release processId | remove index
  | shutdown => cases hinternal

/-! ## Runs -/

/-- The peer takes no start whose key it has forgotten after it spawned a process for it. -/
def KeepsKeys (link : ProcessLink) : Action → Prop
  | .peer action => link.manager.Known action
  | _ => True

instance (link : ProcessLink) (action : Action) : Decidable (link.KeepsKeys action) :=
  match action with
  | .peer action => inferInstanceAs (Decidable (link.manager.Known action))
  | .start _ _ _ | .poll _ | .terminate _ _ | .release _ _ | .lose _ | .deliver | .control _ _
  | .remove _ | .respond _ | .receive _ | .giveUp _ => isTrue trivial

/-- A step of the port, the queue or the manager keeps them linked, as long as no entry is
forgotten whose start is still to come. -/
theorem Linked.step (hlinked : link.Linked) {action : Action} (hkeeps : link.KeepsKeys action) :
    (link.step action).Linked := by
  cases action with
  | start processId command idempotencyKey => exact hlinked.start processId command idempotencyKey
  | poll index => exact hlinked.poll index
  | terminate index supported => exact hlinked.terminate index supported
  | release index supported => exact hlinked.release index supported
  | lose position =>
      exact hlinked.frame (fun _ hmem => List.mem_of_mem_eraseIdx hmem) _ _
  | deliver =>
      rw [ProcessLink.step]
      split
      · exact hlinked
      · rename_i index rest hqueue
        have hrest : ∀ other ∈ rest, other ∈ link.queue :=
          fun _ hmem => hqueue ▸ List.mem_cons_of_mem _ hmem
        have hshorter := hlinked.frame hrest link.received link.found
        exact hshorter.take (hlinked.queued index (hqueue ▸ List.mem_cons_self))
  | control index delivered =>
      rw [ProcessLink.step]
      split
      · exact hlinked.control index delivered
      · exact hlinked
  | remove index =>
      rw [ProcessLink.step]
      split
      · rename_i process hfound
        split
        · rename_i hready
          have hextends : Manager.Extends link.manager (link.manager.remove process) := by
            rw [Manager.remove]
            split
            · exact Manager.extends_of_same rfl rfl rfl rfl
            · exact Manager.Extends.refl _
          have harrived : (link.manager.remove process).arrived = link.manager.arrived := by
            rw [Manager.remove]
            split <;> rfl
          exact Linked.respond (hlinked.advance (hlinked.sound.remove hready.2)
            (hlinked.single.remove process) hextends harrived) (by simp)
        · exact hlinked
      · exact hlinked
  | respond call =>
      rw [ProcessLink.step]
      split
      · rename_i result hreturned
        have hcall := hlinked.sound.known call (by rw [hreturned]; exact Phase.noConfusion)
        obtain ⟨hsent, hoperation⟩ := hlinked.origin call hcall
        refine hlinked.respond fun processId reused startedUnixMs hreply => ?_
        cases hreply
        refine ⟨hsent, _, hoperation, ?_⟩
        exact hlinked.single.named call processId reused startedUnixMs (by rw [hreturned]; rfl)
      · exact hlinked
  | peer action =>
      rw [ProcessLink.step]
      split
      · rename_i hinternal
        exact hlinked.advance (hlinked.sound.step action) (hlinked.single.step hlinked.sound hkeeps)
          (Manager.extends_step link.manager action) (arrived_internal hinternal)
      · exact hlinked
  | receive index =>
      rw [ProcessLink.step]
      split
      · rename_i reply hreply
        split
        · rename_i hpending
          obtain ⟨hknown, hstarted⟩ := hlinked.asked index (hlinked.pending index hpending)
          refine (hlinked.settle index).answered hknown _ ?_
          intro processId reused startedUnixMs hstart
          obtain ⟨_, args, hoperation, hnamed⟩ :=
            hlinked.replied index processId reused startedUnixMs (hstart ▸ hreply)
          exact hstarted args hoperation ▸ hnamed
        · exact hlinked
      · exact hlinked
  | giveUp index =>
      rw [ProcessLink.step]
      split
      · rename_i hpending
        obtain ⟨hknown, _⟩ := hlinked.asked index (hlinked.pending index hpending)
        exact (hlinked.settle index).failed hknown _
      · exact hlinked

theorem linked_initial : Linked {} where
  sound := Manager.sound_initial
  single :=
    { single := fun _ _ hfirst => absurd hfirst (Nat.not_lt_zero _)
      unspawned := fun _ hcall => by cases hcall
      named := fun _ _ _ _ hresult => by cases hresult
      born := fun _ hprocess => absurd hprocess (Nat.not_lt_zero _) }
  fresh _ _ := rfl
  queued _ hmem := absurd hmem List.not_mem_nil
  pending _ hpending := by cases hpending
  asked _ hsent := absurd hsent (Nat.not_lt_zero _)
  origin _ hcall := absurd hcall (Nat.not_lt_zero _)
  replied _ _ _ _ hreply := by cases hreply
  confirmed _ hconfirmed := by cases hconfirmed

/-- By induction on the actions, from an empty port and an empty manager. -/
theorem linked_run {actions : List Action}
    (hmeets : Transition.Meets step KeepsKeys {} actions) : (actions.foldl step {}).Linked :=
  Transition.invariant_foldl Linked (fun _ _ hlinked hkeeps => hlinked.step hkeeps)
    linked_initial hmeets

/-- The peer spawned the process for a request of the session's start. -/
def SpawnedFor (link : ProcessLink) (index process : ℕ) : Prop :=
  process < link.manager.spawned ∧
    (link.request (link.origin (link.manager.process process).call)).entry = index

theorem Linked.key_of_spawnedFor (hlinked : link.Linked) {process : ℕ}
    (hspawned : link.SpawnedFor index process) :
    (link.manager.process process).idempotencyKey =
      (link.entry index).startArgs.idempotencyKey := by
  obtain ⟨hprocess, hentry⟩ := hspawned
  obtain ⟨hcall, hkey⟩ := hlinked.single.born process hprocess
  obtain ⟨hsent, hoperation⟩ := hlinked.origin _ hcall
  obtain ⟨_, hstarted⟩ := hlinked.asked _ hsent
  rw [hkey, ← hentry, hstarted _ hoperation]

instance (link : ProcessLink) (index process : ℕ) : Decidable (link.SpawnedFor index process) :=
  inferInstanceAs (Decidable (_ ∧ _))

/-- In a run in which the peer takes no start whose key it has forgotten, one start spawns one
process at most, and a confirmed session names that process. -/
theorem run_startedOnce {actions : List Action}
    (hmeets : Transition.Meets step KeepsKeys {} actions) :
    (∀ index first second, (actions.foldl step {}).SpawnedFor index first →
        (actions.foldl step {}).SpawnedFor index second → first = second) ∧
      ∀ index, ((actions.foldl step {}).entry index).startConfirmed = true →
        ∃ process < (actions.foldl step {}).manager.spawned,
          ((actions.foldl step {}).manager.process process).idempotencyKey =
              ((actions.foldl step {}).entry index).startArgs.idempotencyKey ∧
            ((actions.foldl step {}).manager.process process).id =
              ((actions.foldl step {}).entry index).processId ∧
            ∀ other, (actions.foldl step {}).SpawnedFor index other → other = process := by
  have hlinked := linked_run hmeets
  refine ⟨fun index first second hfirst hsecond => ?_, fun index hconfirmed => ?_⟩
  · refine hlinked.single.single first second hfirst.1 hsecond.1 ?_
    rw [hlinked.key_of_spawnedFor hfirst, hlinked.key_of_spawnedFor hsecond]
  · obtain ⟨process, hprocess, hkey, hid⟩ := hlinked.confirmed index hconfirmed
    refine ⟨process, hprocess, hkey, hid, fun other hother => ?_⟩
    refine hlinked.single.single other process hother.1 hprocess ?_
    rw [hlinked.key_of_spawnedFor hother, hkey]

/-- A start that reaches the peer and whose reply comes too late. -/
def lateStart : List Action :=
  [.start (lit "proc_1") (lit "make") none, .deliver, .peer (.enter 0), .peer (.spawn 0 none),
    .peer (.attach 0 none), .peer (.recheck 0), .peer (.complete 0), .giveUp 0]

/-- A poll sends it again, and the peer knows its key. -/
def resentStart : List Action :=
  lateStart ++ [.poll 0, .deliver, .peer (.enter 1), .respond 1, .receive 1]

/-- Its process ends and expires before a poll sends it again. -/
def expiredStart : List Action :=
  lateStart ++ [.peer (.exit 0), .peer (.finish 0), .peer (.close 0),
    .peer (.tick Peer.terminalRetention), .poll 0, .deliver, .peer (.enter 1),
    .peer (.spawn 1 none)]

theorem run_startedOnce_resent :
    (∀ process, (resentStart.foldl step {}).SpawnedFor 0 process → process = 0) ∧
      ∃ process < (resentStart.foldl step {}).manager.spawned,
        ((resentStart.foldl step {}).manager.process process).id =
          ((resentStart.foldl step {}).entry 0).processId := by
  have hmeets : Transition.Meets step KeepsKeys {} resentStart := by decide +kernel
  have hfirst : (resentStart.foldl step {}).SpawnedFor 0 0 := by decide +kernel
  have hconfirmed : ((resentStart.foldl step {}).entry 0).startConfirmed = true := by
    decide +kernel
  obtain ⟨honce, hnames⟩ := run_startedOnce hmeets
  obtain ⟨process, hprocess, _, hid, _⟩ := hnames 0 hconfirmed
  exact ⟨fun other hother => honce 0 other 0 hother hfirst, process, hprocess, hid⟩

theorem expiredStart_spawnsTwice :
    ¬ ∀ (actions : List Action) (index first second : ℕ),
      (actions.foldl step {}).SpawnedFor index first →
      (actions.foldl step {}).SpawnedFor index second → first = second := by
  intro honce
  have hfirst : (expiredStart.foldl step {}).SpawnedFor 0 0 := by decide +kernel
  have hsecond : (expiredStart.foldl step {}).SpawnedFor 0 1 := by decide +kernel
  exact absurd (honce expiredStart 0 0 1 hfirst hsecond) (by decide)

end ProcessLink

end ReuleauxCoder.Remote
