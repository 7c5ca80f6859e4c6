import ReuleauxCoder.Runtime.Server

/-!
# Workers, the running flag and the queue

Whether somebody works is told by a flag, by the set of workers and by the queue.  The
invariant below ties the three together, and to the histories of the queue, for as long as
no exit command fails after it has dropped queued inputs.
-/

namespace ReuleauxCoder.Runtime

open PyText PyJson List

variable {C : Type}

/-- A non-concurrent worker that has not come to the end of its loop. -/
def Worker.isBusy (worker : Worker C) : Bool :=
  !worker.concurrent &&
    match worker.phase with
    | .failed | .leaving => false
    | _ => true

/-- A phase that has taken inputs out of the queue which nobody will start; the server closes
when it ends. -/
def Phase.isLosing : Phase C → Bool
  | .exiting dropped => !dropped.isEmpty
  | .failed => true
  | _ => false

/-- A worker beside the turn starts with the request of a command that need not wait. -/
def Phase.StartsImmediate (host : Host C) (phase : Phase C) : Prop :=
  ∀ work, phase = .started work → ∃ request action, work = .input (.action request) ∧
    host.registry.find request.actionId = some action ∧ action.duringTurn = .immediate

structure Invariant (host : Host C) (server : Server C) : Prop where
  fresh : ∀ worker ∈ server.workers, worker.id < server.spawned
  distinct : (server.workers.map Worker.id).Nodup
  single : ∀ first ∈ server.workers, ∀ second ∈ server.workers,
    first.isBusy → second.isBusy → first.id = second.id
  covered : server.closing = false → server.running = false →
    ∀ worker ∈ server.workers, worker.isBusy = false
  attended : server.closing = false → server.running = true →
    ∃ worker ∈ server.workers, worker.concurrent = false ∧ worker.phase ≠ .leaving
  drained : server.closing = false → server.running = false → server.pending = []
  immediate : ∀ worker ∈ server.workers, worker.concurrent → worker.phase.StartsImmediate host
  kept : server.closing = false →
    server.queued = server.started ++ server.pending ∨
      ∃ worker ∈ server.workers, worker.phase.isLosing
  ordered : (server.started ++ server.pending).Sublist server.queued

variable {worker : Worker C}

namespace Server

theorem mem_setPhase {server : Server C} {other : Worker C} {phase : Phase C}
    (hother : other ∈ (server.setPhase worker phase).workers) :
    (∃ original ∈ server.workers, original.id = worker.id ∧
      other = { original with phase }) ∨
      other ∈ server.workers ∧ other.id ≠ worker.id := by
  obtain ⟨original, horiginal, rfl⟩ := mem_map.mp hother
  by_cases hid : original.id = worker.id
  · exact .inl ⟨original, horiginal, hid, if_pos hid⟩
  · rw [if_neg hid]
    exact .inr ⟨horiginal, hid⟩

theorem setPhase_mem {server : Server C} (hmem : worker ∈ server.workers) (phase : Phase C) :
    { worker with phase } ∈ (server.setPhase worker phase).workers :=
  mem_map.mpr ⟨worker, hmem, if_pos rfl⟩

theorem setPhase_other {server : Server C} {other : Worker C} (hmem : other ∈ server.workers)
    (hne : other.id ≠ worker.id) (phase : Phase C) :
    other ∈ (server.setPhase worker phase).workers :=
  mem_map.mpr ⟨other, hmem, if_neg hne⟩

theorem setPhase_ids (server : Server C) (worker : Worker C) (phase : Phase C) :
    (server.setPhase worker phase).workers.map Worker.id = server.workers.map Worker.id := by
  rw [setPhase, map_map]
  refine map_congr_left fun other _ => ?_
  simp only [Function.comp_apply]
  split <;> rfl

end Server

namespace Invariant

variable {host : Host C} {server : Server C}

theorem eq_of_id (hinvariant : Invariant host server) {first second : Worker C}
    (hfirst : first ∈ server.workers) (hsecond : second ∈ server.workers)
    (hid : first.id = second.id) : first = second :=
  inj_on_of_nodup_map hinvariant.distinct hfirst hsecond hid

/-- A server whose agent was never busy. -/
theorem launched (agent : AgentState C) : Invariant host { agent } where
  fresh := by simp
  distinct := by simp
  single := by simp
  covered := by simp
  attended := by simp
  drained := by simp
  immediate := by simp
  kept := by simp
  ordered := by simp

section

variable (hinvariant : Invariant host server)
include hinvariant

/-- Nothing here depends on the agent or on the handshake. -/
theorem agent (agent : AgentState C)
    (initialized ready : Bool) :
    Invariant host { server with agent, initialized, ready } where
  __ := hinvariant

/-- A closing server owes nothing any more. -/
theorem close (agent : AgentState C) (running : Bool)
    {pending : List (Input C)} (hpending : pending.Sublist server.pending) :
    Invariant host { server with agent, running, pending, closing := true } where
  fresh := hinvariant.fresh
  distinct := hinvariant.distinct
  single := hinvariant.single
  covered := by simp
  attended := by simp
  drained := by simp
  immediate := hinvariant.immediate
  kept := by simp
  ordered := (List.Sublist.append_left hpending _).trans hinvariant.ordered

/-- A worker goes on, and ends the turn where it is the last to work on it. -/
theorem advance (hmem : worker ∈ server.workers)
    {phase : Phase C} {running : Bool} (hbusy : Worker.isBusy { worker with phase } → worker.isBusy)
    (hrunning : running = server.running ∧
        (server.closing = false → running = true → worker.concurrent = false →
          worker.phase ≠ .leaving → phase ≠ .leaving) ∨
      running = false ∧ worker.isBusy ∧ Worker.isBusy { worker with phase } = false ∧
        (server.closing = false → server.pending = []))
    (hstart : worker.concurrent → phase.StartsImmediate host)
    (hlosing : server.closing = false → worker.phase.isLosing →
      phase.isLosing ∨ server.queued = server.started ++ server.pending) :
    Invariant host ({ server with running }.setPhase worker phase) := by
  have hsame : ∀ original ∈ server.workers, original.id = worker.id → original = worker :=
    fun original horiginal hid => hinvariant.eq_of_id horiginal hmem hid
  have hpast : ∀ other ∈ ({ server with running }.setPhase worker phase).workers,
      other = { worker with phase } ∨ other ∈ server.workers ∧ other.id ≠ worker.id := by
    intro other hother
    rcases Server.mem_setPhase hother with ⟨original, horiginal, hid, rfl⟩ | hold
    · exact .inl (by rw [hsame original horiginal hid])
    · exact .inr hold
  have hwas : ∀ other ∈ ({ server with running }.setPhase worker phase).workers, other.isBusy →
      ∃ original ∈ server.workers, original.id = other.id ∧ original.isBusy := by
    intro other hother hisBusy
    rcases hpast other hother with rfl | ⟨hold, -⟩
    · exact ⟨worker, hmem, rfl, hbusy hisBusy⟩
    · exact ⟨other, hold, rfl, hisBusy⟩
  constructor
  case fresh =>
    intro other hother
    rcases hpast other hother with rfl | ⟨hold, -⟩
    · exact hinvariant.fresh worker hmem
    · exact hinvariant.fresh other hold
  case distinct =>
    rw [Server.setPhase_ids]
    exact hinvariant.distinct
  case single =>
    intro first hfirst second hsecond hfirstBusy hsecondBusy
    obtain ⟨left, hleft, hleftId, hleftBusy⟩ := hwas first hfirst hfirstBusy
    obtain ⟨right, hright, hrightId, hrightBusy⟩ := hwas second hsecond hsecondBusy
    rw [← hleftId, ← hrightId]
    exact hinvariant.single left hleft right hright hleftBusy hrightBusy
  case covered =>
    intro hclosing hidle other hother
    have hidle : running = false := hidle
    rcases hrunning with ⟨rfl, -⟩ | ⟨-, hworking, hstopped, -⟩
    · by_contra hisBusy
      obtain ⟨original, horiginal, -, hwasBusy⟩ := hwas other hother (by simpa using hisBusy)
      rw [hinvariant.covered hclosing hidle original horiginal] at hwasBusy
      cases hwasBusy
    · rcases hpast other hother with rfl | ⟨hold, hne⟩
      · exact hstopped
      · by_contra hisBusy
        exact hne (hinvariant.single other hold worker hmem (by simpa using hisBusy) hworking)
  case attended =>
    intro hclosing hworks
    have hworks : running = true := hworks
    rcases hrunning with ⟨rfl, hstays⟩ | ⟨rfl, -⟩
    · obtain ⟨other, hother, hprimary, hstaying⟩ := hinvariant.attended hclosing hworks
      by_cases hid : other.id = worker.id
      · cases hsame other hother hid
        exact ⟨_, Server.setPhase_mem hmem phase, hprimary,
          hstays hclosing hworks hprimary hstaying⟩
      · exact ⟨other, Server.setPhase_other hother hid phase, hprimary, hstaying⟩
    · cases hworks
  case drained =>
    intro hclosing hidle
    have hidle : running = false := hidle
    rcases hrunning with ⟨rfl, -⟩ | ⟨-, -, -, hempty⟩
    · exact hinvariant.drained hclosing hidle
    · exact hempty hclosing
  case immediate =>
    intro other hother hconcurrent
    rcases hpast other hother with rfl | ⟨hold, -⟩
    · exact hstart hconcurrent
    · exact hinvariant.immediate other hold hconcurrent
  case kept =>
    intro hclosing
    rcases hinvariant.kept hclosing with hkept | ⟨other, hother, hisLosing⟩
    · exact .inl hkept
    · by_cases hid : other.id = worker.id
      · cases hsame other hother hid
        rcases hlosing hclosing hisLosing with hlosing | hkept
        · exact .inr ⟨_, Server.setPhase_mem hmem phase, hlosing⟩
        · exact .inl hkept
      · exact .inr ⟨other, Server.setPhase_other hother hid phase, hisLosing⟩
  case ordered => exact hinvariant.ordered

/-- A worker goes on within its round. -/
theorem setPhase (hmem : worker ∈ server.workers)
    {phase : Phase C} (hbusy : Worker.isBusy { worker with phase } → worker.isBusy)
    (hstays : server.closing = false → server.running = true → worker.concurrent = false →
      worker.phase ≠ .leaving → phase ≠ .leaving)
    (hstart : worker.concurrent → phase.StartsImmediate host)
    (hlosing : server.closing = false → worker.phase.isLosing →
      phase.isLosing ∨ server.queued = server.started ++ server.pending) :
    Invariant host (server.setPhase worker phase) :=
  hinvariant.advance hmem hbusy (.inl ⟨rfl, hstays⟩) hstart hlosing

/-- The queue may lose inputs while somebody is about to close the server. -/
theorem lose
    (hlosing : ∃ worker ∈ server.workers, worker.phase.isLosing) {pending : List (Input C)}
    (hpending : pending.Sublist server.pending) :
    Invariant host { server with pending } where
  __ := hinvariant
  drained hclosing hidle := by
    rw [hinvariant.drained hclosing hidle] at hpending
    exact sublist_nil.mp hpending
  kept _ := .inr hlosing
  ordered := (List.Sublist.append_left hpending _).trans hinvariant.ordered

/-- The first waiting input is started. -/
theorem pop {entry : Input C} {rest : List (Input C)}
    (hpending : server.pending = entry :: rest) :
    Invariant host { server with pending := rest, started := server.started ++ [entry] } where
  __ := hinvariant
  drained hclosing hidle := by
    have hempty := hinvariant.drained hclosing hidle
    rw [hpending] at hempty
    cases hempty
  kept hclosing := by
    rcases hinvariant.kept hclosing with hkept | hlosing
    · left
      simp [hkept, hpending]
    · exact .inr hlosing
  ordered := by
    have hordered := hinvariant.ordered
    rw [hpending] at hordered
    simpa using hordered

/-- Only a running turn lets inputs wait. -/
theorem enqueue (hrunning : server.running = true)
    (entry : Input C) : Invariant host (server.enqueue entry) where
  fresh := hinvariant.fresh
  distinct := hinvariant.distinct
  single := hinvariant.single
  covered := hinvariant.covered
  attended := hinvariant.attended
  drained _ hidle := by
    have hidle : server.running = false := hidle
    simp [hrunning] at hidle
  immediate := hinvariant.immediate
  kept hclosing := by
    rcases hinvariant.kept hclosing with hkept | hlosing
    · left
      rw [Server.enqueue, hkept]
      simp
    · exact .inr hlosing
  ordered := by
    rw [Server.enqueue, ← append_assoc]
    exact hinvariant.ordered.append (List.Sublist.refl _)

/-- A worker beside the turn, or the worker of a turn that begins now. -/
theorem spawn (work : Work C) {concurrent running : Bool}
    (hkind : concurrent = true ∧ running = server.running ∨
      concurrent = false ∧ running = true ∧ server.closing = false ∧ server.running = false)
    (himmediate : concurrent = true → (Phase.started work).StartsImmediate host) :
    Invariant host ({ server with running }.spawn work concurrent) := by
  have hnew : ∀ {worker : Worker C},
      worker ∈ ({ server with running }.spawn work concurrent).workers →
        worker ∈ server.workers ∨ worker = ⟨server.spawned, concurrent, .started work⟩ := by
    intro worker hworker
    simpa [Server.spawn] using hworker
  have hold : ∀ {worker : Worker C}, worker ∈ server.workers →
      worker ∈ ({ server with running }.spawn work concurrent).workers := by
    intro worker hworker
    simp [Server.spawn, hworker]
  constructor
  case fresh =>
    intro worker hworker
    rcases hnew hworker with hworker | rfl
    · exact (hinvariant.fresh worker hworker).trans (Nat.lt_succ_self _)
    · exact Nat.lt_succ_self _
  case distinct =>
    simp only [Server.spawn, map_append, map_cons, map_nil]
    refine nodup_append.mpr ⟨hinvariant.distinct, by simp, ?_⟩
    intro id hid other hother heq
    obtain ⟨worker, hworker, rfl⟩ := mem_map.mp hid
    have hlt := hinvariant.fresh worker hworker
    have hspawned : other = server.spawned := by simpa using hother
    omega
  case single =>
    intro first hfirst second hsecond hfirstBusy hsecondBusy
    have hprimary : ∀ {worker : Worker C}, worker ∈ server.workers → worker.isBusy →
        (⟨server.spawned, concurrent, .started work⟩ : Worker C).isBusy → False := by
      intro worker hworker hbusy hnewBusy
      have hconcurrent : concurrent = false := by
        simpa [Worker.isBusy] using hnewBusy
      rcases hkind with ⟨hbeside, -⟩ | ⟨-, -, hclosing, hidle⟩
      · rw [hbeside] at hconcurrent
        cases hconcurrent
      · rw [hinvariant.covered hclosing hidle worker hworker] at hbusy
        cases hbusy
    rcases hnew hfirst with hfirst | rfl <;> rcases hnew hsecond with hsecond | rfl
    · exact hinvariant.single first hfirst second hsecond hfirstBusy hsecondBusy
    · exact (hprimary hfirst hfirstBusy hsecondBusy).elim
    · exact (hprimary hsecond hsecondBusy hfirstBusy).elim
    · rfl
  case covered =>
    intro hclosing hidle worker hworker
    have hidle : running = false := hidle
    rcases hkind with ⟨rfl, rfl⟩ | ⟨-, rfl, -⟩
    · rcases hnew hworker with hworker | rfl
      · exact hinvariant.covered hclosing hidle worker hworker
      · rfl
    · cases hidle
  case attended =>
    intro hclosing hrunning
    have hrunning : running = true := hrunning
    rcases hkind with ⟨-, rfl⟩ | ⟨rfl, -⟩
    · obtain ⟨worker, hworker, hprimary, hstays⟩ := hinvariant.attended hclosing hrunning
      exact ⟨worker, hold hworker, hprimary, hstays⟩
    · exact ⟨⟨server.spawned, false, .started work⟩, by simp [Server.spawn], rfl, by simp⟩
  case drained =>
    intro hclosing hidle
    have hidle : running = false := hidle
    rcases hkind with ⟨-, rfl⟩ | ⟨-, rfl, -⟩
    · exact hinvariant.drained hclosing hidle
    · cases hidle
  case immediate =>
    intro worker hworker hconcurrent
    rcases hnew hworker with hworker | rfl
    · exact hinvariant.immediate worker hworker hconcurrent
    · exact himmediate hconcurrent
  case kept =>
    intro hclosing
    rcases hinvariant.kept hclosing with hkept | ⟨worker, hworker, hlosing⟩
    · exact .inl hkept
    · exact .inr ⟨worker, hold hworker, hlosing⟩
  case ordered => exact hinvariant.ordered

theorem startTurn (hclosing : server.closing = false)
    (hidle : server.running = false) (work : Work C) :
    Invariant host (server.startTurn work) :=
  (hinvariant.agent _ server.initialized server.ready).spawn work
    (.inr ⟨rfl, rfl, hclosing, hidle⟩) (by simp)

end

theorem nextGoal_closing {work : Work C} (hwork : server.nextGoal = some work) :
    server.closing = false := by
  rw [Server.nextGoal] at hwork
  split at hwork
  · cases hwork
  · split at hwork
    · cases hwork
    · rename_i hopen
      simp only [not_or, Bool.not_eq_true] at hopen
      exact hopen.2.1

theorem wakeGoal (hinvariant : Invariant host server) : Invariant host server.wakeGoal := by
  rw [Server.wakeGoal]
  split
  · exact hinvariant
  · rename_i hidle
    simp only [not_or, Bool.not_eq_true] at hidle
    split
    · exact hinvariant
    · rename_i work hwork
      exact hinvariant.startTurn (nextGoal_closing hwork) hidle.1 work

/-- A worker that is only leaving goes. -/
theorem leave (hinvariant : Invariant host server) (hmem : worker ∈ server.workers)
    (hleaving : worker.phase = .leaving) : Invariant host (server.leave worker) := by
  refine wakeGoal ?_
  have hold : ∀ {other : Worker C},
      other ∈ server.workers.filter (fun other => other.id ≠ worker.id) →
        other ∈ server.workers := fun hother => mem_of_mem_filter hother
  have hstays : ∀ {other : Worker C}, other ∈ server.workers → other.phase ≠ .leaving →
      other ∈ server.workers.filter (fun other => other.id ≠ worker.id) := by
    intro other hother hphase
    refine mem_filter.mpr ⟨hother, ?_⟩
    simp only [ne_eq, decide_not, Bool.not_eq_eq_eq_not, Bool.not_true, decide_eq_false_iff_not]
    intro hid
    rw [hinvariant.eq_of_id hother hmem hid] at hphase
    exact hphase hleaving
  constructor
  case fresh => exact fun other hother => hinvariant.fresh other (hold hother)
  case distinct => exact hinvariant.distinct.sublist (filter_sublist.map _)
  case single =>
    exact fun first hfirst second hsecond =>
      hinvariant.single first (hold hfirst) second (hold hsecond)
  case covered =>
    exact fun hclosing hidle other hother => hinvariant.covered hclosing hidle other (hold hother)
  case attended =>
    intro hclosing hrunning
    obtain ⟨other, hother, hprimary, hphase⟩ := hinvariant.attended hclosing hrunning
    exact ⟨other, hstays hother hphase, hprimary, hphase⟩
  case drained => exact hinvariant.drained
  case immediate =>
    exact fun other hother => hinvariant.immediate other (hold hother)
  case kept =>
    intro hclosing
    rcases hinvariant.kept hclosing with hkept | ⟨other, hother, hlosing⟩
    · exact .inl hkept
    · refine .inr ⟨other, hstays hother ?_, hlosing⟩
      intro hphase
      rw [hphase] at hlosing
      cases hlosing
  case ordered => exact hinvariant.ordered

end Invariant

end ReuleauxCoder.Runtime
