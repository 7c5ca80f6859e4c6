import ReuleauxCoder.Library.Transition
import ReuleauxCoder.Process.Effects

/-!
# Process sessions over whole runs

Along every run the processes and the starts still waiting stay within the
capacity and each completion is announced at most once.  A recorded exit stays
recorded as long as answers of the backend are recorded in the order in which
they were given.
-/

namespace ReuleauxCoder.Process

open PyText PyJson Bookkeeping

namespace Manager

/-- Each action keeps the manager well formed and has one of the effects that the invariants of
its runs need to know of. -/
theorem effect_step (config : ManagerConfig) {manager : Manager} (hwell : manager.WellFormed)
    (action : Action) : Effect config manager action (step config manager action) := by
  cases action with
  | reserve request now => exact effect_reserve hwell request now
  | portStart id result => exact (quiet_portStart hwell result).effect _
  | portProbe id result => exact (quiet_portProbe hwell result).effect _
  | register id now => exact effect_register hwell now
  | attachWatcher id fails => exact (quiet_attachWatcher hwell fails).effect _
  | unregister id => exact (quiet_unregister hwell).effect _
  | finishStart id => exact effect_finishStart hwell
  | publish sessionId observed now => exact effect_publish hwell sessionId observed now
  | emitPublished id => exact (quiet_emitPublished hwell).effect _
  | emitCompleted id => exact effect_emitCompleted hwell
  | armWatcher id => exact (quiet_armWatcher hwell).effect _
  | abandon sessionId => exact (quiet_abandon hwell sessionId).effect _
  | openPoll sessionId agentId ownerSessionId sessionGeneration request =>
      exact (quiet_openPoll hwell sessionId agentId ownerSessionId sessionGeneration
        request).effect _
  | lockPoll id => exact (quiet_lockPoll hwell).effect _
  | readPoll id result => exact effect_readPoll hwell result
  | writePoll id now => exact effect_writePoll hwell now
  | readWatch id result => exact effect_readWatch hwell result
  | writeWatch id now => exact effect_writeWatch hwell now
  | emitUpdate id => exact (quiet_emitUpdate hwell).effect _
  | emitCompletion id => exact effect_emitCompletion hwell
  | stopAll agentId ownerSessionId sessionGeneration =>
      exact (quiet_stopAll hwell agentId ownerSessionId sessionGeneration).effect _
  | terminate index result => exact effect_terminate hwell result
  | writeStop id now => exact effect_writeStop hwell now
  | list now => exact (quiet_cleanupExpired config hwell now).effect _
  | rebindGeneration ownerSessionId previous next =>
      exact (quiet_rebindGeneration hwell ownerSessionId previous next).effect _
  | hideInput sessionId agentId ownerSessionId sessionGeneration value =>
      exact (quiet_hideInput hwell sessionId agentId ownerSessionId sessionGeneration
        value).effect _
  | close =>
      have hquiet : Quiet manager manager.close :=
        { Quiet.refl hwell with wellFormed := { hwell with } }
      exact hquiet.effect _
  | captureEntries => exact (quiet_captureEntries hwell).effect _
  | forceTerminate index result => exact effect_forceTerminate hwell result
  | writeForced id now => exact effect_writeForced hwell now
  | clear => exact (quiet_clear hwell).effect _

def run (config : ManagerConfig) (actions : List Action) : Manager :=
  actions.foldl (step config) {}

/-- What holds of every manager that a run reaches. -/
structure Sound (config : ManagerConfig) (manager : Manager) : Prop where
  wellFormed : manager.WellFormed
  places : manager.places.taken + manager.places.waiting ≤ config.maxSessions
  tokens : ∀ index, (manager.token index).Once

theorem sound_new (config : ManagerConfig) : Sound config {} where
  wellFormed := wellFormed_new
  places := Nat.zero_le _
  tokens index := by
    apply Token.Once.unclaimed
    · rfl
    · apply Set.eq_empty_of_forall_notMem
      intro id hmem
      cases hmem
    · rfl

variable {config : ManagerConfig} {manager : Manager}

/-- The bounds on the sessions hold in every run, and a completion is claimed once at most. -/
theorem Sound.step (hsound : Sound config manager) (action : Action) :
    Sound config (step config manager action) := by
  have heffect := effect_step config hsound.wellFormed action
  exact {
    wellFormed := heffect.wellFormed
    places := heffect.places.bounded hsound.places
    tokens := fun index => (hsound.tokens index).step (heffect.tokens index) }

/-- By induction on the actions, from a manager without processes. -/
theorem sound_run (config : ManagerConfig) (actions : List Action) :
    Sound config (run config actions) := by
  have hmeets : Transition.Meets (Manager.step config) (fun _ _ => True) {} actions :=
    Transition.meets_of_forall_mem (fun _ _ => trivial) _
  exact Transition.invariant_foldl (Sound config) (fun _ action hsound _ => hsound.step action)
    (sound_new config) hmeets

/-! ## Recorded exits -/

/-- Nobody is about to overwrite a recorded exit. -/
structure Steady (manager : Manager) : Prop where
  wellFormed : manager.WellFormed
  settled : ∀ index, (manager.view index).Settled

theorem steady_new : Steady {} where
  wellFormed := wellFormed_new
  settled index := by
    refine ⟨nofun, nofun, ?_⟩
    rintro ⟨id, hanswer⟩
    cases hanswer

/-- Where the backend is observed in order, nobody comes to overwrite a recorded exit. -/
theorem Steady.step (hsteady : Steady manager) {action : Action}
    (hobserves : Observes manager action) : Steady (step config manager action) := by
  have heffect := effect_step config hsteady.wellFormed action
  exact {
    wellFormed := heffect.wellFormed
    settled := fun index => (hsteady.settled index).step (heffect.views hobserves index) }

/-- A recorded exit survives every further step. -/
theorem exited_foldl {actions : List Action} (hsteady : Steady manager)
    (hmeets : Transition.Meets (step config) Observes manager actions) {index : ℕ}
    (hexited : (manager.entry index).lastSnapshot.state = .exited) :
    ((actions.foldl (step config) manager).entry index).lastSnapshot.state = .exited := by
  have hboth := Transition.invariant_foldl
    (fun manager => Steady manager ∧ (manager.view index).recorded = true)
    (fun manager action hinvariant hobserves => by
      have heffect := effect_step config hinvariant.1.wellFormed action
      exact ⟨hinvariant.1.step hobserves,
        (hinvariant.1.settled index).stays (heffect.views hobserves index) hinvariant.2⟩)
    ⟨hsteady, decide_eq_true hexited⟩ hmeets
  exact of_decide_eq_true hboth.2

/-! ## Capacity with every reservation counted -/

/-- A start registers its entry only while there is room for it beside its own
reservation. -/
def HasRoom (config : ManagerConfig) (manager : Manager) : Action → Prop
  | .register _ _ => manager.entries.length + manager.starting < config.maxSessions
  | _ => True

/-- Where each start registers within its room, processes and reservations stay within the limit. -/
theorem counted_foldl {actions : List Action} (hsound : Sound config manager)
    (hmeets : Transition.Meets (step config) (HasRoom config) manager actions)
    (hbounded : manager.entries.length + manager.starting ≤ config.maxSessions) :
    (actions.foldl (step config) manager).entries.length +
      (actions.foldl (step config) manager).starting ≤ config.maxSessions := by
  have hboth := Transition.invariant_foldl
    (fun manager => Sound config manager ∧
      manager.entries.length + manager.starting ≤ config.maxSessions)
    (fun manager action hinvariant hroom => by
      have heffect := effect_step config hinvariant.1.wellFormed action
      have hbefore := starts_length hinvariant.1.wellFormed
      have hafter := starts_length heffect.wellFormed
      have htaken : ∀ manager : Manager, manager.places.taken = manager.entries.length :=
        fun _ => rfl
      have hsteps := heffect.places.bounded_of_room
        (fun hgrows => by
          obtain ⟨id, now, rfl⟩ := heffect.registers hgrows
          have hroom : manager.entries.length + manager.starting < config.maxSessions := hroom
          rw [htaken]
          omega)
        (by rw [htaken]; omega)
      refine ⟨hinvariant.1.step action, ?_⟩
      rw [htaken] at hsteps
      omega)
    ⟨hsound, hbounded⟩ hmeets
  exact hboth.2

/-- The session states of every run: a recorded exit stays recorded when every
step observes the backend in order, no process completes twice, and the capacity
holds for the entries and the starts that have yet to register one; counted with
the reservations of registered starts it holds when each registration finds
room. -/
theorem run_sessions (config : ManagerConfig) (actions : List Action) :
    (Transition.Meets (step config) Observes {} actions →
      ∀ earlier, earlier <+: actions → ∀ index,
        ((run config earlier).entry index).lastSnapshot.state = .exited →
        ((run config actions).entry index).lastSnapshot.state = .exited) ∧
      (∀ index, (run config actions).completions index ≤ 1) ∧
      (run config actions).entries.length + (run config actions).places.waiting ≤
        config.maxSessions ∧
      (run config actions).starting =
        (run config actions).places.waiting + (run config actions).places.joined ∧
      (Transition.Meets (step config) (HasRoom config) {} actions →
        (run config actions).entries.length + (run config actions).starting ≤
          config.maxSessions) := by
  have hsound := sound_run config actions
  refine ⟨?_, ?_, hsound.places, starts_length hsound.wellFormed, ?_⟩
  · rintro hmeets earlier ⟨later, rfl⟩ index hexited
    rw [Transition.meets_append] at hmeets
    have hsteady : Steady (run config earlier) :=
      Transition.invariant_foldl Steady (fun _ _ hsteady => hsteady.step) steady_new hmeets.1
    rw [run, List.foldl_append]
    exact exited_foldl hsteady hmeets.2 hexited
  · intro index
    exact (hsound.tokens index).spent_le
  · intro hmeets
    exact counted_foldl (sound_new config) hmeets (Nat.zero_le _)

/-! ## An exit that is taken back -/

def oneSession : ManagerConfig where
  maxSessions := 1
  observedRetentionSeconds := 30
  terminalTtlSeconds := 600
  positive := le_rfl
  retention := by constructor <;> norm_num

/-- One process is started, published and watched, and a poll of it is under way;
the backend answers the poll before the process exits and the watcher after. -/
def watchedStart : List Action :=
  [.reserve { ownerAgentId := lit "agent", ownerSessionId := none, sessionGeneration := 0 } 1,
    .portStart 0 (some (lit "process", .pipe)),
    .portProbe 0 (some {}),
    .register 0 1,
    .attachWatcher 0 false,
    .finishStart 0,
    .publish (lit "process") false 2,
    .emitPublished 1,
    .armWatcher 1,
    .openPoll (lit "process") (lit "agent") none 0 { consumer := lit "model" },
    .lockPoll 3]

/-- The poll records its older answer after the watcher has recorded the exit; and
a single start counts twice between its registration and its end. -/
theorem stalePoll_reverts_exit :
    ∃ earlier later : List Action, ∃ index,
      ((run oneSession earlier).entry index).lastSnapshot.state = .exited ∧
      ((run oneSession (earlier ++ later)).entry index).lastSnapshot.state = .running ∧
      oneSession.maxSessions <
        (run oneSession (earlier.take 4)).entries.length +
          (run oneSession (earlier.take 4)).starting := by
  refine ⟨watchedStart ++ [.readPoll 3 (some {}), .readWatch 2 (some { state := .exited }),
    .writeWatch 2 3], [.writePoll 3 4], 0, ?_, ?_, ?_⟩ <;> decide +kernel

/-- The poll records its answer before the watcher does: the exit stays. -/
theorem run_sessions_orderedPoll :
    ((run oneSession (watchedStart ++ [.readPoll 3 (some {}), .writePoll 3 3,
      .readWatch 2 (some { state := .exited }), .writeWatch 2 4, .list 5])).entry
        0).lastSnapshot.state = .exited := by
  apply (run_sessions oneSession _).1 (by decide +kernel) (watchedStart ++
    [.readPoll 3 (some {}), .writePoll 3 3, .readWatch 2 (some { state := .exited }),
      .writeWatch 2 4])
  · exact List.prefix_append_right_inj _ |>.mpr ⟨[.list 5], rfl⟩
  · decide +kernel

end Manager

end ReuleauxCoder.Process
