import ReuleauxCoder.Peer.ManagerInvariant

/-!
# Starts of processes

What one step does to a call is said once.  From it follow that the answer of a call is
settled once, and that the starts with one key that are settled while a process is
registered answer with its id.
-/

namespace ReuleauxCoder.Peer

open PyText PyJson Function

namespace Manager

variable {manager : Manager}

/-! ## What a step does to a call -/

/-- The steps of one call from `manager` to `next` by an action. -/
inductive Leads (manager next : Manager) (action : Action) (call : ℕ) : Phase → Prop where
  | arrived (hcall : manager.phase call = .absent) : Leads manager next action call .entered
  | refused (hcall : manager.phase call = .entered) (errorCode errorMessage : Text) :
      Leads manager next action call (.returned (.failure errorCode errorMessage))
  | hit (hcall : manager.phase call = .entered) {processId : Text}
      (hkey : lookup (manager.args call).idempotencyKey next.idempotent = some processId) :
      Leads manager next action call (.returned (.success processId true none))
  | joined (hcall : manager.phase call = .entered) {owner : ℕ}
      (howner : (manager.phase owner).holds = true) : Leads manager next action call (.waiting owner)
  | reserved (haction : action = .enter call) (hcall : manager.phase call = .entered)
      (hkey : lookup (manager.args call).idempotencyKey manager.cleanupTerminal.idempotent = none)
      (howner : lookup (manager.args call).idempotencyKey manager.starting = none) :
      Leads manager next action call .reserved
  | unspawned (hcall : manager.phase call = .reserved) (errorCode errorMessage : Text) :
      Leads manager next action call (.ending (.failure errorCode errorMessage))
  | spawned (hcall : manager.phase call = .reserved) (process : ℕ) :
      Leads manager next action call (.started process)
  | attached (process : ℕ) (hcall : manager.phase call = .started process) :
      Leads manager next action call (.attached process)
  | stopped (process : ℕ)
      (hcall : manager.phase call = .started process ∨ manager.phase call = .attached process)
      {result : StartResult}
      (hkey : ∀ processId reused startedUnixMs,
        result = .success processId reused startedUnixMs →
        lookup (manager.args call).idempotencyKey next.idempotent = some processId) :
      Leads manager next action call (.stopping process result)
  | registered (process : ℕ) (hcall : manager.phase call = .attached process)
      (startedUnixMs : Option ℕ) :
      Leads manager next action call
        (.ending (.success (manager.args call).processId false startedUnixMs))
  | reaped (process : ℕ) {result : StartResult}
      (hcall : manager.phase call = .stopping process result) :
      Leads manager next action call (.ending result)
  | completed {result : StartResult} (hcall : manager.phase call = .ending result) :
      Leads manager next action call (.returned result)
  | woken {owner : ℕ} {result : StartResult} (hcall : manager.phase call = .waiting owner)
      (howner : manager.phase owner = .returned result) :
      Leads manager next action call (.returned (replayStartResult result))

/-- One call at most takes a step. -/
def Moves (manager next : Manager) (action : Action) : Prop :=
  next.phase = manager.phase ∨ ∃ call phase,
    next.phase = Function.update manager.phase call phase ∧ Leads manager next action call phase

variable {call process : ℕ}

theorem moves_enter (hsound : manager.Sound) (hcall : manager.phase call = .entered) :
    Moves manager (manager.enter call) (.enter call) := by
  obtain ⟨states, idempotent, hcleanup⟩ := cleanupTerminal_eq manager
  rw [enter, hcleanup]
  simp only
  split
  · exact .inr ⟨call, _, rfl, .refused hcall _ _⟩
  · split
    · exact .inr ⟨call, _, rfl, .refused hcall _ _⟩
    · split
      · exact .inr ⟨call, _, rfl, .refused hcall _ _⟩
      · split
        · rename_i hkey
          exact .inr ⟨call, _, rfl, .hit hcall hkey⟩
        · rename_i hkey
          split
          · rename_i owner howner
            exact .inr ⟨call, _, rfl, .joined hcall (hsound.reservation _ owner howner).2⟩
          · rename_i howner
            split
            · exact .inr ⟨call, _, rfl, .refused hcall _ _⟩
            · split
              · exact .inr ⟨call, _, rfl, .refused hcall _ _⟩
              · split
                · exact .inr ⟨call, _, rfl, .refused hcall _ _⟩
                · exact .inr ⟨call, _, rfl, .reserved rfl hcall (by rw [hcleanup]; exact hkey)
                      howner⟩

theorem moves_recheck (hcall : manager.phase call = .attached process) :
    Moves manager (manager.recheck call process) (.recheck call) := by
  rw [recheck]
  simp only
  split
  · exact .inr ⟨call, _, rfl, .stopped process (.inr hcall) (by simp)⟩
  · split
    · exact .inr ⟨call, _, rfl, .stopped process (.inr hcall) (by simp)⟩
    · split
      · rename_i existingId hexisting
        refine .inr ⟨call, _, rfl, .stopped process (.inr hcall) ?_⟩
        intro processId reused startedUnixMs hresult
        cases hresult
        exact hexisting
      · exact .inr ⟨call, _, rfl, .registered process hcall _⟩

/-- At most one call moves in a step, and it makes one of the moves that a start may make. -/
theorem moves_step (hsound : manager.Sound) (action : Action) :
    Moves manager (manager.step action) action := by
  cases action with
  | call args => exact .inr ⟨_, _, rfl, .arrived (phase_absent hsound)⟩
  | enter call =>
      rw [step]
      split
      · rename_i hcall
        exact moves_enter hsound hcall
      · exact .inl rfl
  | spawn call error =>
      rw [step]
      split
      · rename_i hcall
        cases error with
        | none => exact .inr ⟨call, _, rfl, .spawned hcall _⟩
        | some failure => exact .inr ⟨call, _, rfl, .unspawned hcall _ _⟩
      · exact .inl rfl
  | attach call error =>
      rw [step]
      split
      · rename_i process hcall
        cases error with
        | none => exact .inr ⟨call, _, rfl, .attached process hcall⟩
        | some error => exact .inr ⟨call, _, rfl, .stopped process (.inl hcall) (by simp)⟩
      · exact .inl rfl
  | recheck call =>
      rw [step]
      split
      · rename_i process hcall
        exact moves_recheck hcall
      · exact .inl rfl
  | reap call =>
      rw [step]
      split
      · rename_i process result hcall
        split
        · exact .inr ⟨call, _, rfl, .reaped process hcall⟩
        · exact .inl rfl
      · exact .inl rfl
  | complete call =>
      rw [step]
      split
      · rename_i result hcall
        exact .inr ⟨call, _, rfl, .completed hcall⟩
      · exact .inl rfl
  | wake call =>
      rw [step]
      split
      · rename_i owner hcall
        split
        · rename_i result howner
          exact .inr ⟨call, _, rfl, .woken hcall howner⟩
        · exact .inl rfl
      · exact .inl rfl
  | exit process =>
      rw [step]
      split <;> exact .inl rfl
  | finish process =>
      rw [step]
      split <;> exact .inl rfl
  | close process =>
      rw [step]
      split <;> exact .inl rfl
  | poll processId => exact .inl rfl
  | cancel processId delivered =>
      rw [step]
      split
      · split <;> exact .inl rfl
      · exact .inl rfl
  | release processId =>
      rw [step]
      split
      · split <;> exact .inl rfl
      · exact .inl rfl
  | remove index =>
      rw [step]
      split
      · split
        · rw [remove]
          split <;> exact .inl rfl
        · exact .inl rfl
      · exact .inl rfl
  | tick elapsed => exact .inl rfl
  | shutdown => exact .inl rfl

/-! ## Answers -/

/-- The answer that a call will return; one that waits returns its owner's. -/
def answer (manager : Manager) (call : ℕ) : Option StartResult :=
  match manager.phase call with
  | .waiting owner => (manager.phase owner).result?.map replayStartResult
  | phase => phase.result?

variable {result : StartResult} {action : Action} {next : Manager} {processId : Text}

theorem answer_of_result (hresult : (manager.phase call).result? = some result) :
    manager.answer call = some result := by
  rw [answer]
  split
  · rename_i owner hwaiting
    rw [hwaiting] at hresult
    cases hresult
  · exact hresult

variable {owner : ℕ} {reused : Bool} {startedUnixMs : Option ℕ}

theorem answer_of_waiting (hwaiting : manager.phase call = .waiting owner) :
    manager.answer call = (manager.phase owner).result?.map replayStartResult := by
  rw [answer, hwaiting]

theorem Leads.keeps_result {phase : Phase} (hleads : Leads manager next action call phase)
    (hresult : (manager.phase call).result? = some result) : phase.result? = some result := by
  cases hleads with
  | reaped process hcall | completed hcall =>
      rw [hcall] at hresult
      exact hresult
  | arrived hcall | refused hcall | hit hcall | joined hcall | reserved _ hcall | unspawned hcall
  | spawned hcall | attached _ hcall | registered _ hcall | woken hcall =>
      rw [hcall] at hresult
      cases hresult
  | stopped process hcall hkey =>
      rcases hcall with hcall | hcall <;> rw [hcall] at hresult <;> cases hresult

section

variable (hmoves : Moves manager next action)
include hmoves

theorem Moves.keeps_result
    (hresult : (manager.phase call).result? = some result) :
    (next.phase call).result? = some result := by
  rcases hmoves with hphase | ⟨mover, phase, hphase, hleads⟩
  · rw [hphase]
    exact hresult
  · rw [hphase, update_apply]
    split
    · rename_i hcall
      exact hleads.keeps_result (hcall ▸ hresult)
    · exact hresult

/-- A settled answer stays. -/
theorem Moves.answer
    (hanswer : manager.answer call = some result) : next.answer call = some result := by
  by_cases hwaiting : ∃ owner, manager.phase call = .waiting owner
  · obtain ⟨owner, hwaiting⟩ := hwaiting
    rw [answer_of_waiting hwaiting] at hanswer
    obtain ⟨own, hown, hreplay⟩ := Option.map_eq_some_iff.mp hanswer
    have hstays : next.phase call = .waiting owner → next.answer call = some result := by
      intro hnext
      rw [answer_of_waiting hnext, hmoves.keeps_result hown, Option.map_some, hreplay]
    rcases hmoves with hphase | ⟨mover, phase, hphase, hleads⟩
    · exact hstays (hphase ▸ hwaiting)
    · by_cases hcall : call = mover
      · rw [← hcall] at hphase hleads
        cases hleads with
        | woken hcall howner =>
            rw [hwaiting] at hcall
            cases hcall
            rw [howner] at hown
            cases hown
            refine answer_of_result ?_
            rw [hphase, update_self, ← hreplay]
            rfl
        | arrived hother | refused hother | hit hother | joined hother | reserved _ hother
        | unspawned hother | spawned hother | attached _ hother | registered _ hother
        | reaped _ hother | completed hother =>
            rw [hwaiting] at hother
            cases hother
        | stopped process hother =>
            rcases hother with hother | hother <;> rw [hwaiting] at hother <;> cases hother
      · exact hstays (by rw [hphase, update_of_ne hcall]; exact hwaiting)
  · have hresult : (manager.phase call).result? = some result := by
      rw [Manager.answer] at hanswer
      split at hanswer
      · rename_i owner howner
        exact absurd ⟨owner, howner⟩ hwaiting
      · exact hanswer
    exact answer_of_result (hmoves.keeps_result hresult)

theorem returned_of_moves
    (hnext : next.phase call = .returned result) :
    manager.answer call = some result ∨
      manager.phase call = .entered ∧
        ∀ processId reused startedUnixMs, result = .success processId reused startedUnixMs →
          lookup (manager.args call).idempotencyKey next.idempotent = some processId := by
  rcases hmoves with hphase | ⟨mover, phase, hphase, hleads⟩
  · refine .inl (answer_of_result ?_)
    rw [← hphase, hnext]
    rfl
  · rw [hphase, update_apply] at hnext
    split at hnext
    · rename_i hcall
      rw [← hcall, hnext] at hleads
      cases hleads with
      | refused hcall => exact .inr ⟨hcall, nofun⟩
      | hit hcall hkey =>
          refine .inr ⟨hcall, fun processId reused startedUnixMs hresult => ?_⟩
          cases hresult
          exact hkey
      | completed hcall => exact .inl (answer_of_result (by rw [hcall]; rfl))
      | woken hcall howner =>
          refine .inl ?_
          rw [answer_of_waiting hcall, howner]
          rfl
    · refine .inl (answer_of_result ?_)
      rw [hnext]
      rfl

theorem waiting_of_moves
    (hnext : next.phase call = .waiting owner) :
    manager.phase call = .waiting owner ∨ (next.phase owner).holds = true := by
  rcases hmoves with hphase | ⟨mover, phase, hphase, hleads⟩
  · exact .inl (hphase ▸ hnext)
  · rw [hphase, update_apply] at hnext
    split at hnext
    · rw [hnext] at hleads
      cases hleads with
      | joined hcall howner =>
          refine .inr ?_
          rw [hphase, update_of_ne]
          · exact howner
          · rintro rfl
            rw [hcall] at howner
            cases howner
    · exact .inl hnext

end

theorem replay_success
    (hreplay : replayStartResult result = .success processId reused startedUnixMs) :
    ∃ first, result = .success processId first startedUnixMs := by
  cases result with
  | success own first started =>
      cases hreplay
      exact ⟨first, rfl⟩
  | failure errorCode errorMessage => cases hreplay

/-! ## What a step leaves alone -/

theorem enter_frame (manager : Manager) (call : ℕ) :
    (manager.enter call).args = manager.args ∧ (manager.enter call).process = manager.process ∧
      (manager.enter call).arrived = manager.arrived ∧
      (manager.enter call).spawned = manager.spawned := by
  obtain ⟨states, idempotent, hcleanup⟩ := cleanupTerminal_eq manager
  rw [enter, hcleanup]
  simp only
  repeat' split
  all_goals exact ⟨rfl, rfl, rfl, rfl⟩

/-- Arguments, ids, keys and calls are written once. -/
structure Extends (manager next : Manager) : Prop where
  arrived : manager.arrived ≤ next.arrived
  spawned : manager.spawned ≤ next.spawned
  args : ∀ call, call < manager.arrived → next.args call = manager.args call
  id : ∀ process, process < manager.spawned →
    (next.process process).id = (manager.process process).id
  idempotencyKey : ∀ process, process < manager.spawned →
    (next.process process).idempotencyKey = (manager.process process).idempotencyKey
  call : ∀ process, process < manager.spawned →
    (next.process process).call = (manager.process process).call

theorem Extends.refl (manager : Manager) : Extends manager manager where
  arrived := Nat.le_refl _
  spawned := Nat.le_refl _
  args _ _ := rfl
  id _ _ := rfl
  idempotencyKey _ _ := rfl
  call _ _ := rfl

theorem Extends.trans {last : Manager} (hfirst : Extends manager next)
    (hsecond : Extends next last) : Extends manager last where
  arrived := hfirst.arrived.trans hsecond.arrived
  spawned := hfirst.spawned.trans hsecond.spawned
  args call hcall :=
    (hsecond.args call (hcall.trans_le hfirst.arrived)).trans (hfirst.args call hcall)
  id process hprocess :=
    (hsecond.id process (hprocess.trans_le hfirst.spawned)).trans (hfirst.id process hprocess)
  idempotencyKey process hprocess :=
    (hsecond.idempotencyKey process (hprocess.trans_le hfirst.spawned)).trans
      (hfirst.idempotencyKey process hprocess)
  call process hprocess :=
    (hsecond.call process (hprocess.trans_le hfirst.spawned)).trans (hfirst.call process hprocess)

theorem extends_of_same (hargs : next.args = manager.args)
    (hprocess : next.process = manager.process) (harrived : next.arrived = manager.arrived)
    (hspawned : next.spawned = manager.spawned) : Extends manager next where
  arrived := harrived.ge
  spawned := hspawned.ge
  args _ _ := by rw [hargs]
  id _ _ := by rw [hprocess]
  idempotencyKey _ _ := by rw [hprocess]
  call _ _ := by rw [hprocess]

theorem extends_setProcess {session : Session} (hid : session.id = (manager.process process).id)
    (hkey : session.idempotencyKey = (manager.process process).idempotencyKey)
    (hcall : session.call = (manager.process process).call) :
    Extends manager (manager.setProcess process session) where
  arrived := Nat.le_refl _
  spawned := Nat.le_refl _
  args _ _ := rfl
  id other _ := by
    simp only [setProcess, update_apply]
    split
    · rename_i hother
      rw [hother, hid]
    · rfl
  idempotencyKey other _ := by
    simp only [setProcess, update_apply]
    split
    · rename_i hother
      rw [hother, hkey]
    · rfl
  call other _ := by
    simp only [setProcess, update_apply]
    split
    · rename_i hother
      rw [hother, hcall]
    · rfl

theorem extends_spawn (manager : Manager) (call : ℕ) :
    Extends manager (manager.spawn call none) where
  arrived := Nat.le_refl _
  spawned := Nat.le_succ _
  args _ _ := rfl
  id process hprocess := by
    simp only [spawn, update_of_ne (Nat.ne_of_lt hprocess)]
  idempotencyKey process hprocess := by
    simp only [spawn, update_of_ne (Nat.ne_of_lt hprocess)]
  call process hprocess := by
    simp only [spawn, update_of_ne (Nat.ne_of_lt hprocess)]

theorem extends_recheck (manager : Manager) (call process : ℕ) :
    Extends manager (manager.recheck call process) := by
  rw [recheck]
  simp only
  split
  · exact extends_of_same rfl rfl rfl rfl
  · split
    · exact extends_of_same rfl rfl rfl rfl
    · split
      · exact extends_of_same rfl rfl rfl rfl
      · have hextends := @extends_setProcess manager process
          { manager.process process with waited := true } rfl rfl rfl
        exact ⟨hextends.arrived, hextends.spawned, hextends.args, hextends.id,
          hextends.idempotencyKey, hextends.call⟩

/-- Identifiers are handed out upwards, and a step writes at fresh ones only. -/
theorem extends_step (manager : Manager) (action : Action) :
    Extends manager (manager.step action) := by
  cases action with
  | call args =>
      refine ⟨Nat.le_succ _, Nat.le_refl _, fun call hcall => ?_, fun _ _ => rfl, fun _ _ => rfl,
        fun _ _ => rfl⟩
      exact update_of_ne (Nat.ne_of_lt hcall) _ _
  | enter call =>
      obtain ⟨hargs, hprocess, harrived, hspawned⟩ := enter_frame manager call
      rw [step]
      split
      · exact extends_of_same hargs hprocess harrived hspawned
      · exact Extends.refl manager
  | spawn call error =>
      rw [step]
      split
      · cases error with
        | none => exact extends_spawn manager call
        | some failure => exact extends_of_same rfl rfl rfl rfl
      · exact Extends.refl manager
  | attach call error =>
      rw [step]
      split
      · cases error <;> exact extends_of_same rfl rfl rfl rfl
      · exact Extends.refl manager
  | recheck call =>
      rw [step]
      split
      · exact extends_recheck manager call _
      · exact Extends.refl manager
  | exit process =>
      rw [step]
      split
      · exact extends_setProcess rfl rfl rfl
      · exact Extends.refl manager
  | finish process =>
      rw [step]
      split
      · exact extends_setProcess rfl rfl rfl
      · exact Extends.refl manager
  | close process =>
      rw [step]
      split
      · exact extends_setProcess rfl rfl rfl
      · exact Extends.refl manager
  | remove index =>
      rw [step]
      split
      · split
        · rw [remove]
          split <;> exact extends_of_same rfl rfl rfl rfl
        · exact Extends.refl manager
      · exact Extends.refl manager
  | reap call | complete call | wake call | cancel processId delivered | release processId =>
      rw [step]
      repeat' split
      all_goals exact extends_of_same rfl rfl rfl rfl
  | poll processId | tick elapsed | shutdown => exact extends_of_same rfl rfl rfl rfl

theorem extends_run (manager : Manager) (actions : List Action) :
    Extends manager (actions.foldl step manager) := by
  induction actions generalizing manager with
  | nil => exact Extends.refl manager
  | cons action rest ih => exact (extends_step manager action).trans (ih _)

/-- A step that settles a call by the deferred function of its owner does not exist. -/
theorem not_returned_of_waiting (hsound : manager.Sound) (action : Action)
    (hopen : manager.answer call = none)
    (hwaiting : (manager.step action).phase call = .waiting owner) :
    (manager.step action).phase owner ≠ .returned result := by
  intro hreturned
  have hmoves := moves_step hsound action
  rcases waiting_of_moves hmoves hwaiting with hbefore | hholds
  · obtain ⟨_, howner⟩ := hsound.waiting call owner hbefore
    rcases returned_of_moves hmoves hreturned with hanswer | ⟨hentered, _⟩
    · have hresult : (manager.phase owner).result? = some result := by
        rw [answer] at hanswer
        split at hanswer
        · rename_i other hother
          rw [hother] at howner
          rcases howner with hholds | ⟨_, hreturned⟩
          · cases hholds
          · cases hreturned
        · exact hanswer
      rw [answer_of_waiting hbefore, hresult] at hopen
      cases hopen
    · rw [hentered] at howner
      rcases howner with hholds | ⟨_, hreturned⟩
      · cases hholds
      · cases hreturned
  · rw [hreturned] at hholds
    cases hholds

/-- A start that is settled by a step answers with the process that its key is registered to. -/
theorem settled_answer (hsound : manager.Sound) (action : Action)
    (hopen : manager.answer call = none)
    (hanswer : (manager.step action).answer call = some (.success processId reused startedUnixMs))
    (hregistered : (manager.step action).Registered process)
    (hkey : ((manager.step action).process process).idempotencyKey =
      ((manager.step action).args call).idempotencyKey) :
    ((manager.step action).process process).id = processId := by
  have hnext := hsound.step action
  have hmoves := moves_step hsound action
  by_cases hwaits : ∃ owner, (manager.step action).phase call = .waiting owner
  · obtain ⟨owner, hwaiting⟩ := hwaits
    rw [answer_of_waiting hwaiting] at hanswer
    obtain ⟨own, hown, hreplay⟩ := Option.map_eq_some_iff.mp hanswer
    obtain ⟨first, rfl⟩ := replay_success hreplay
    obtain ⟨hkeys, howner⟩ := hnext.waiting call owner hwaiting
    rcases howner with hholds | ⟨result, hreturned⟩
    · exact hnext.answered owner processId first startedUnixMs hholds hown process hregistered
        (hkey.trans hkeys)
    · exact absurd hreturned (not_returned_of_waiting hsound action hopen hwaiting)
  · have hresult : ((manager.step action).phase call).result? =
        some (.success processId reused startedUnixMs) := by
      rw [answer] at hanswer
      split at hanswer
      · rename_i owner howner
        exact absurd ⟨owner, howner⟩ hwaits
      · exact hanswer
    cases hphase : (manager.step action).phase call with
    | returned result =>
        rw [hphase] at hresult
        cases hresult
        rcases returned_of_moves hmoves hphase with hsettled | ⟨hentered, hlookup⟩
        · rw [hopen] at hsettled
          cases hsettled
        · have hknown := hsound.known call (by rw [hentered]; exact Phase.noConfusion)
          have hhit := hlookup processId reused startedUnixMs rfl
          rw [← (extends_step manager action).args call hknown, ← hkey,
            (hnext.registered _ process hregistered).2.2.2] at hhit
          exact Option.some.inj hhit
    | stopping held result | ending result =>
        exact hnext.answered call processId reused startedUnixMs (by rw [hphase]; rfl) hresult
          process hregistered hkey
    | absent | entered | waiting owner | reserved | started held | attached held =>
        rw [hphase] at hresult
        cases hresult

/-! ## After `Close` began -/

theorem states_foldl_forget {processes : List ℕ}
    (hlookup : lookup processId (processes.foldl forget manager).states = some process) :
    lookup processId manager.states = some process := by
  induction processes generalizing manager with
  | nil => exact hlookup
  | cons first rest ih =>
      have hrest := ih hlookup
      by_cases hsame : processId = (manager.process first).id
      · rw [hsame, forget, lookup_drop_self] at hrest
        cases hrest
      · rw [forget, lookup_drop_of_ne hsame] at hrest
        exact hrest

theorem states_remove {other : ℕ}
    (hlookup : lookup processId (manager.remove process).states = some other) :
    lookup processId manager.states = some other := by
  rw [remove] at hlookup
  split at hlookup
  · have hone : (manager.forget process) = [process].foldl forget manager := rfl
    rw [hone] at hlookup
    exact states_foldl_forget hlookup
  · exact hlookup

theorem states_enter (hlookup : lookup processId (manager.enter call).states = some process) :
    lookup processId manager.states = some process := by
  rw [enter] at hlookup
  simp only at hlookup
  repeat' split at hlookup
  all_goals first
    | exact hlookup
    | exact states_foldl_forget hlookup

theorem states_recheck (hclosing : manager.closing = true) (call process : ℕ) :
    (manager.recheck call process).states = manager.states := by
  rw [recheck]
  simp only [hclosing, if_true]
  rfl

/-- Nothing is registered once the manager closes. -/
theorem states_step (hclosing : manager.closing = true) (action : Action)
    (hlookup : lookup processId (manager.step action).states = some process) :
    lookup processId manager.states = some process := by
  cases action with
  | enter call =>
      rw [step] at hlookup
      split at hlookup
      · exact states_enter hlookup
      · exact hlookup
  | recheck call =>
      rw [step] at hlookup
      split at hlookup
      · rw [states_recheck hclosing] at hlookup
        exact hlookup
      · exact hlookup
  | remove index =>
      rw [step] at hlookup
      split at hlookup
      · split at hlookup
        · exact states_remove hlookup
        · exact hlookup
      · exact hlookup
  | spawn call error =>
      rw [step] at hlookup
      split at hlookup
      · cases error <;> exact hlookup
      · exact hlookup
  | attach call error =>
      rw [step] at hlookup
      split at hlookup
      · cases error <;> exact hlookup
      · exact hlookup
  | reap call | complete call | wake call | exit process | finish process | close process
  | cancel processId delivered | release processId =>
      rw [step] at hlookup
      repeat' split at hlookup
      all_goals exact hlookup
  | call args | poll processId | tick elapsed | shutdown => exact hlookup

theorem closing_step (hclosing : manager.closing = true) (action : Action) :
    (manager.step action).closing = true := by
  cases action with
  | enter call =>
      obtain ⟨states, idempotent, hcleanup⟩ := cleanupTerminal_eq manager
      rw [step]
      split
      · rw [enter, hcleanup]
        simp only
        repeat' split
        all_goals exact hclosing
      · exact hclosing
  | spawn call error =>
      rw [step]
      split
      · cases error <;> exact hclosing
      · exact hclosing
  | attach call error =>
      rw [step]
      split
      · cases error <;> exact hclosing
      · exact hclosing
  | recheck call =>
      rw [step]
      split
      · rw [recheck]
        simp only [hclosing, if_true]
        exact hclosing
      · exact hclosing
  | remove index =>
      rw [step]
      split
      · split
        · rw [remove]
          split <;> exact hclosing
        · exact hclosing
      · exact hclosing
  | reap call | complete call | wake call | exit process | finish process | close process
  | cancel processId delivered | release processId =>
      rw [step]
      repeat' split
      all_goals exact hclosing
  | call args | poll processId | tick elapsed => exact hclosing
  | shutdown => rfl

theorem registered_of_closing (hsound : manager.Sound) (hclosing : manager.closing = true)
    (actions : List Action) (hregistered : (actions.foldl step manager).Registered process) :
    manager.Registered process := by
  induction actions generalizing manager with
  | nil => exact hregistered
  | cons action rest ih =>
      have hnext := ih (hsound.step action) (closing_step hclosing action) hregistered
      have hbefore := states_step hclosing action hnext
      have hid := (hsound.registered _ process hbefore).1
      rw [Registered, hid]
      exact hbefore

/-! ## Runs -/

theorem known_of_answer (hsound : manager.Sound) (hanswer : manager.answer call = some result) :
    call < manager.arrived := by
  refine hsound.known call fun habsent => ?_
  rw [answer, habsent] at hanswer
  cases hanswer

/-- An answer that was given stays, whatever comes after it. -/
theorem answer_run (hsound : manager.Sound) (hanswer : manager.answer call = some result)
    (actions : List Action) : (actions.foldl step manager).answer call = some result := by
  induction actions generalizing manager with
  | nil => exact hanswer
  | cons action rest ih =>
      exact ih (hsound.step action) ((moves_step hsound action).answer hanswer)

/-- The starts with one key that are settled while a process is registered name it. -/
theorem settled_run (hsound : manager.Sound) {later : List Action}
    (hopen : manager.answer call = none) (hanswer : (later.foldl step manager).answer call =
      some (.success processId reused startedUnixMs))
    (hregistered : ∀ before, before <+: later → before ≠ [] →
      (before.foldl step manager).Registered process)
    (hkey : ((later.foldl step manager).process process).idempotencyKey =
      ((later.foldl step manager).args call).idempotencyKey) :
    ((later.foldl step manager).process process).id = processId := by
  induction later generalizing manager with
  | nil =>
      rw [List.foldl_nil, hopen] at hanswer
      cases hanswer
  | cons action rest ih =>
      have hnext := hsound.step action
      have hrest : ∀ before, before <+: rest →
          (before.foldl step (manager.step action)).Registered process := fun before hbefore =>
        hregistered (action :: before) (List.cons_prefix_cons.mpr ⟨rfl, hbefore⟩)
          (List.cons_ne_nil _ _)
      cases hsettled : (manager.step action).answer call with
      | none => exact ih hnext hsettled hanswer (fun before hbefore _ => hrest before hbefore) hkey
      | some result =>
          have hkept := answer_run hnext hsettled rest
          rw [List.foldl_cons, hkept] at hanswer
          cases hanswer
          have hnow := hrest [] (List.nil_prefix)
          have hextends := extends_run (manager.step action) rest
          have hspawned := (hnext.registered _ process hnow).2.1
          have hknown := known_of_answer hnext hsettled
          rw [List.foldl_cons, hextends.idempotencyKey process hspawned,
            hextends.args call hknown] at hkey
          rw [List.foldl_cons, hextends.id process hspawned]
          exact settled_answer hsound action hopen hsettled hnow hkey

/-- What holds of the tables and the processes at any moment. -/
structure Consistent (manager : Manager) : Prop where
  sameKey : ∀ first second, manager.Registered first → manager.Registered second →
    (manager.process first).idempotencyKey = (manager.process second).idempotencyKey →
    first = second
  sameId : ∀ first second, manager.Registered first → manager.Registered second →
    (manager.process first).id = (manager.process second).id → first = second
  keyTable : ∀ key processId, lookup key manager.idempotent = some processId ↔
    ∃ process, manager.Registered process ∧ (manager.process process).idempotencyKey = key ∧
      (manager.process process).id = processId
  stateTable : ∀ processId process, lookup processId manager.states = some process ↔
    manager.Registered process ∧ (manager.process process).id = processId
  /-- The start that spawned a process has not returned, or the process is registered or ended. -/
  owned : ∀ process, process < manager.spawned →
    ∀ result, manager.phase (manager.process process).call = .returned result →
    manager.Registered process ∨ (manager.process process).exited = true
  limit : manager.states.length ≤ maxProcessSessions

theorem Sound.consistent (hsound : manager.Sound) : manager.Consistent where
  sameKey first second hfirst hsecond hkey := by
    have hfirstKey := (hsound.registered _ first hfirst).2.2.2
    rw [hkey, (hsound.registered _ second hsecond).2.2.2] at hfirstKey
    rw [Registered, ← Option.some.inj hfirstKey, hsecond] at hfirst
    exact (Option.some.inj hfirst).symm
  sameId first second hfirst hsecond hid := by
    rw [Registered, hid, hsecond] at hfirst
    exact (Option.some.inj hfirst).symm
  keyTable key processId := by
    constructor
    · intro hlookup
      obtain ⟨process, hstate, hkey⟩ := hsound.keyed key processId hlookup
      have hid := (hsound.registered processId process hstate).1
      exact ⟨process, by rw [Registered, hid]; exact hstate, hkey, hid⟩
    · rintro ⟨process, hregistered, rfl, rfl⟩
      exact (hsound.registered _ process hregistered).2.2.2
  stateTable processId process := by
    constructor
    · intro hlookup
      have hid := (hsound.registered processId process hlookup).1
      exact ⟨by rw [Registered, hid]; exact hlookup, hid⟩
    · rintro ⟨hregistered, rfl⟩
      exact hregistered
  owned process hspawned result hreturned := by
    cases hexited : (manager.process process).exited with
    | true => exact .inr rfl
    | false =>
        refine .inl ((hsound.alive process hspawned hexited).resolve_right fun hheld => ?_)
        rw [hreturned] at hheld
        cases hheld
  limit := (Nat.le_add_right _ _).trans hsound.capacity

/-- Every interleaving keeps the tables consistent; the starts with one key that are settled
while a process is registered, the one that registers it included, answer with its id; and a
manager that closes registers nothing. -/
theorem run_consistent (actions later : List Action) :
    (actions.foldl step {}).Consistent ∧
      (∀ call processId reused startedUnixMs process,
        (actions.foldl step {}).answer call = none →
        ((actions ++ later).foldl step {}).answer call =
          some (.success processId reused startedUnixMs) →
        (∀ before, before <+: later → before ≠ [] →
          ((actions ++ before).foldl step {}).Registered process) →
        (((actions ++ later).foldl step {}).process process).idempotencyKey =
          (((actions ++ later).foldl step {}).args call).idempotencyKey →
        (((actions ++ later).foldl step {}).process process).id = processId) ∧
      ((actions.foldl step {}).closing = true → ∀ process,
        ((actions ++ later).foldl step {}).Registered process →
        (actions.foldl step {}).Registered process) := by
  have hsound := sound_run actions
  simp only [List.foldl_append]
  refine ⟨hsound.consistent, fun call processId reused startedUnixMs process => ?_, ?_⟩
  · exact fun hopen hanswer hregistered hkey => settled_run hsound hopen hanswer hregistered hkey
  · exact fun hclosing process => registered_of_closing hsound hclosing later

/-- Two starts with one key, up to the region that registers the first one's process. -/
def reusedStart : List Action :=
  [.call ⟨lit "p1", lit "key", lit "sleep 9", none⟩,
    .call ⟨lit "p2", lit "key", lit "sleep 9", none⟩, .enter 0, .enter 1, .spawn 0 none,
    .attach 0 none]

theorem run_consistent_reused :
    ((reusedStart ++ [Action.recheck 0]).foldl step {}).answer 1 =
        some (.success (lit "p1") true (some 0)) ∧
      (((reusedStart ++ [Action.recheck 0]).foldl step {}).process 0).id = lit "p1" := by
  have hopen : (reusedStart.foldl step {}).answer 1 = none := by decide +kernel
  have hanswer : ((reusedStart ++ [Action.recheck 0]).foldl step {}).answer 1 =
      some (.success (lit "p1") true (some 0)) := by decide +kernel
  have hkeys : (((reusedStart ++ [Action.recheck 0]).foldl step {}).process 0).idempotencyKey =
      (((reusedStart ++ [Action.recheck 0]).foldl step {}).args 1).idempotencyKey := by decide +kernel
  have hregistered : ((reusedStart ++ [Action.recheck 0]).foldl step {}).Registered 0 := by
    unfold Registered
    decide +kernel
  refine ⟨hanswer, (run_consistent reusedStart [.recheck 0]).2.1 1 (lit "p1") true (some 0) 0
    hopen hanswer (fun before hbegins hfilled => ?_) hkeys⟩
  rcases List.prefix_cons_iff.mp hbegins with hnil | ⟨rest, hrest, hnone⟩
  · exact absurd hnil hfilled
  · rw [hrest, List.prefix_nil.mp hnone]
    exact hregistered

end Manager

end ReuleauxCoder.Peer
