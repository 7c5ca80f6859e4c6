import ReuleauxCoder.Runtime.Workers

/-!
# What a submission is told

Every answer `running` has a worker, every answer `queued` an entry in the queue, and the
queue is empty when nobody works.  Two things break this: a slash text that no action reads
is answered `queued` during a turn, and an exit command that fails after it has emptied the
queue leaves a server that goes on without the inputs it dropped.
-/

namespace ReuleauxCoder.Runtime

open PyText PyJson Transition

variable {C : Type}

/-! ## The claim -/

structure Sound (server : Server C) : Prop where
  single : ∀ first ∈ server.workers, ∀ second ∈ server.workers,
    first.isBusy → second.isBusy → first = second
  inOrder : server.started.Sublist server.queued
  quiescent : server.workers = [] → server.closing = false →
    server.running = false ∧ server.pending = [] ∧ server.started = server.queued

/-- The worker has just been given the input. -/
def Worker.Executes (host : Host C) (worker : Worker C) (value : Input C) : Prop :=
  worker.phase = .started (.input value) ∨
    ∃ entry, entryOf host.registry host.profile value = some entry ∧
      worker.phase = .started (.input entry)

/-- An answer tells what has become of the input. -/
structure Honest (host : Host C) (before : Server C) (value : Input C)
    (status : SubmissionStatus) (after : Server C) : Prop where
  queued : status = .queued → ∃ entry, entryOf host.registry host.profile value = some entry ∧
    after.pending = before.pending ++ [entry]
  running : status = .running → ∃ worker, after.workers = before.workers ++ [worker] ∧
    worker.Executes host value

def AnswersHonestly (host : Host C) (server : Server C) : Action → Prop
  | .submit value choices => ∀ input disposition after, host.input value = .ok input →
      server.submit host value none none choices = .ok (disposition, after) →
        Honest host server input disposition.status after
  | _ => True

/-- A slash text that no action reads, during a turn. -/
def Server.Unread (host : Host C) (server : Server C) (value : Json) : Prop :=
  server.closing = false ∧ server.running = true ∧
    ∃ line, host.input value = .ok (.text line) ∧ startsWithSlash line = true ∧
      host.registry.parse host.profile line = .ok none

/-- No such text is submitted, and no exit command that has dropped inputs fails and is
recorded as failed. -/
def Regular (host : Host C) (server : Server C) : Action → Prop
  | .submit value _ => ¬server.Unread host value
  | .fail id fault => fault ≠ .unrecorded → ∀ worker ∈ server.workers, worker.id = id →
      ∀ dropped, worker.phase = .exiting dropped → dropped = []
  | _ => True

/-! ## Steps keep the invariant -/

namespace Invariant

variable {host : Host C} {server after : Server C}

section

variable (hinvariant : Invariant host server)
include hinvariant

theorem stopGoal (status : GoalController.GoalStatus) :
    Invariant host (server.stopGoal status) :=
  hinvariant.agent _ server.initialized server.ready

theorem requestStop : Invariant host server.requestStop :=
  hinvariant.agent _ server.initialized server.ready

theorem clearStopRequest :
    Invariant host server.clearStopRequest :=
  hinvariant.agent _ server.initialized server.ready

theorem decided (hclosing : server.closing = false)
    {value : Input C} {disposition : Disposition}
    (hdecided : Decided host server value disposition after) : Invariant host after := by
  cases hdecided with
  | started hidle => exact hinvariant.startTurn hclosing hidle _
  | steered hrunning => exact hinvariant.agent _ server.initialized server.ready
  | kept hrunning hchat => exact hinvariant.enqueue hrunning _
  | rejected hrunning hstop => exact hinvariant
  | deferred hrunning request hprepare => exact hinvariant.enqueue hrunning _
  | unread hrunning hprepare => exact hinvariant
  | beside hrunning parsed hprepare =>
      obtain ⟨-, hfind, himmediate⟩ := prepare_parsed hprepare
      refine hinvariant.spawn _ (.inl ⟨rfl, rfl⟩) fun _ work hwork => ?_
      cases hwork
      exact ⟨parsed.request, parsed.action, rfl, hfind, himmediate rfl⟩

end

variable {worker : Worker C}

section

variable (hinvariant : Invariant host server)
include hinvariant

section

variable (hmem : worker ∈ server.workers)
include hmem

/-- A worker goes on to a phase that starts nothing and is not its last. -/
theorem proceed
    {phase : Phase C} (hworking : worker.phase ≠ .leaving) (hfailed : worker.phase ≠ .failed)
    (hstarts : ∀ work, phase ≠ .started work) (hleaves : phase ≠ .leaving)
    (hlosing : server.closing = false → worker.phase.isLosing → phase.isLosing) :
    Invariant host (server.setPhase worker phase) := by
  refine hinvariant.setPhase hmem ?_ (fun _ _ _ _ => hleaves)
    (fun _ work hwork => absurd hwork (hstarts work)) ?_
  · intro hbusy
    have hprimary : worker.concurrent = false := by
      simpa using (Bool.and_eq_true_iff.mp hbusy).1
    cases hphase : worker.phase <;> simp_all [Worker.isBusy]
  · intro hclosing hwasLosing
    exact .inl (hlosing hclosing hwasLosing)

theorem fail
    (hworking : worker.phase ≠ .leaving) (hfailed : worker.phase ≠ .failed) (fault : Fault)
    (hregular : fault ≠ .unrecorded → worker.phase.isLosing = false) :
    Invariant host (server.fail worker fault) := by
  have hsafe : fault ≠ .unrecorded → ∀ {phase : Phase C}, server.closing = false →
      worker.phase.isLosing → phase.isLosing := by
    intro hfault phase _ hlosing
    rw [hregular hfault] at hlosing
    cases hlosing
  cases fault with
  | interrupted =>
      exact (hinvariant.stopGoal _).requestStop.proceed hmem hworking hfailed (by simp) (by simp)
        (hsafe (by simp))
  | raised usageLimited =>
      rw [Server.fail]
      split
      · exact hinvariant.proceed hmem hworking hfailed (by simp) (by simp) (hsafe (by simp))
      · exact (hinvariant.stopGoal _).proceed hmem hworking hfailed (by simp) (by simp)
          (hsafe (by simp))
  | unrecorded =>
      exact hinvariant.proceed hmem hworking hfailed (by simp) (by simp) fun _ _ => rfl

theorem begin {work : Work C}
    (hphase : worker.phase = .started work) (fault : Fault) :
    Invariant host (server.begin host worker fault work) := by
  have hgoes : ∀ {phase : Phase C}, (∀ work, phase ≠ .started work) → phase ≠ .leaving →
      Invariant host (server.setPhase worker phase) := fun hstarts hleaves =>
    hinvariant.proceed hmem (by simp [hphase]) (by simp [hphase]) hstarts hleaves
      (by simp [hphase, Phase.isLosing])
  cases work with
  | continuation goalId generation => exact hgoes (by simp) (by simp)
  | input value =>
      rw [Server.begin]
      split
      · exact hinvariant.fail hmem (by simp [hphase]) (by simp [hphase]) fault
          (by simp [hphase, Phase.isLosing])
      · exact hgoes (by simp) (by simp)
      · exact hgoes (by simp) (by simp)
      · rename_i request hprepare
        exfalso
        cases hconcurrent : worker.concurrent with
        | false =>
            rw [hconcurrent] at hprepare
            exact not_deferred_after_turn hprepare
        | true =>
            -- Its command is one that need not wait, whatever `_prepare` is told of the turn.
            obtain ⟨given, action, hwork, hfind, himmediate⟩ :=
              hinvariant.immediate worker hmem hconcurrent _ hphase
            cases hwork
            obtain ⟨hentry, deferred, hdeferred, hpolicy⟩ := prepare_deferred hprepare
            cases Option.some.inj hentry
            rw [hfind] at hdeferred
            cases hdeferred
            rw [himmediate] at hpolicy
            cases hpolicy
      · exact hgoes (by simp) (by simp)

theorem dispatch
    {request : ActionRequest C} (hphase : worker.phase = .dispatching request) (control : Control) :
    Invariant host (server.dispatch worker request control) := by
  have hgoes : ∀ {phase : Phase C}, (∀ work, phase ≠ .started work) → phase ≠ .leaving →
      Invariant host (server.setPhase worker phase) := fun hstarts hleaves =>
    hinvariant.proceed hmem (by simp [hphase]) (by simp [hphase]) hstarts hleaves
      (by simp [hphase, Phase.isLosing])
  cases control with
  | «continue» => exact hgoes (by simp) (by simp)
  | chat => exact hgoes (by simp) (by simp)
  | exit =>
      have hexiting : Invariant host (server.setPhase worker (.exiting server.pending)) :=
        hgoes (by simp) (by simp)
      cases hpending : server.pending with
      | nil =>
          have hsame : { server with pending := [] } = server := by
            rw [← hpending]
          rw [Server.dispatch, hsame]
          exact hexiting
      | cons entry rest =>
          refine hexiting.lose ⟨_, Server.setPhase_mem hmem _, ?_⟩ (List.nil_sublist _)
          simp [Phase.isLosing, hpending]

theorem chat {value : Input C}
    (hphase : worker.phase = .chatting value) (fault : Fault) :
    Invariant host (server.chat host worker fault value) := by
  rw [Server.chat]
  split
  · exact hinvariant.fail hmem (by simp [hphase]) (by simp [hphase]) fault
      (by simp [hphase, Phase.isLosing])
  · exact hinvariant.proceed hmem (by simp [hphase]) (by simp [hphase]) (by simp) (by simp)
      (by simp [hphase, Phase.isLosing])

theorem complete
    (hworking : worker.phase ≠ .leaving) (hfailed : worker.phase ≠ .failed) {exits : Bool}
    (hexits : exits = false → worker.phase.isLosing = false) :
    Invariant host (server.complete worker exits) := by
  have hclosed : Invariant host (if exits then { server with closing := true } else server) := by
    split
    · exact hinvariant.close server.agent server.running (List.Sublist.refl _)
    · exact hinvariant
  have hworkers : (if exits then { server with closing := true } else server).workers =
      server.workers := by
    split <;> rfl
  have hlosing : (if exits then { server with closing := true } else server).closing = false →
      worker.phase.isLosing → Phase.isLosing (.settled : Phase C) := by
    cases exits with
    | true => simp
    | false => simp [hexits rfl]
  rw [← hworkers] at hmem
  rw [Server.complete]
  generalize (if exits then { server with closing := true } else server) = closed at *
  split
  · exact (hclosed.stopGoal _).proceed hmem hworking hfailed (by simp) (by simp) hlosing
  · exact hclosed.proceed hmem hworking hfailed (by simp) (by simp) hlosing

end

end

theorem nextPending_none {later : Server C}
    (hpopped : (if server.closing then (none, server) else server.nextPending) = (none, later)) :
    later = server ∧ (server.closing = false → server.pending = []) := by
  split at hpopped
  · rename_i hclosing
    cases hpopped
    simp [hclosing]
  · rw [Server.nextPending] at hpopped
    split at hpopped
    · rename_i hpending
      cases hpopped
      exact ⟨rfl, fun _ => hpending⟩
    · cases hpopped

theorem nextPending_some {later : Server C} {entry : Input C}
    (hpopped : (if server.closing then (none, server) else server.nextPending) =
      (some entry, later)) :
    ∃ rest, server.pending = entry :: rest ∧ later = { server with pending := rest } := by
  split at hpopped
  · cases hpopped
  · rw [Server.nextPending] at hpopped
    split at hpopped
    · cases hpopped
    · rename_i hpending
      cases hpopped
      exact ⟨_, hpending, rfl⟩

section

variable (hinvariant : Invariant host server)
include hinvariant

section

variable (hmem : worker ∈ server.workers)
include hmem

/-- A worker ends its loop: the running flag is lowered by the worker of the turn. -/
theorem retire
    (hphase : worker.phase = .settled)
    (hempty : worker.concurrent = false → server.closing = false → server.pending = [])
    (publishFails : Bool) :
    Invariant host ((if worker.concurrent then server
      else { server with running := false }).setPhase worker
        (if publishFails then .failed else .leaving)) := by
  have hstopped : Worker.isBusy (C := C)
      { worker with phase := if publishFails then .failed else .leaving } = false := by
    cases publishFails <;> simp [Worker.isBusy]
  have hstarts : ∀ work, (if publishFails then .failed else .leaving : Phase C) ≠
      .started work := by
    cases publishFails <;> simp
  cases hconcurrent : worker.concurrent with
  | true =>
      exact hinvariant.setPhase hmem (by simp [hstopped]) (by simp [hconcurrent])
        (fun _ work hwork => absurd hwork (hstarts work)) (by simp [hphase, Phase.isLosing])
  | false =>
      refine hinvariant.advance hmem (by simp [hstopped]) (.inr ⟨rfl, ?_, hstopped, ?_⟩)
        (fun _ work hwork => absurd hwork (hstarts work)) (by simp [hphase, Phase.isLosing])
      · simp [Worker.isBusy, hconcurrent, hphase]
      · exact hempty hconcurrent

/-- A worker of the turn goes on with other work. -/
theorem restart
    (hphase : worker.phase = .settled) (hprimary : worker.concurrent = false) (work : Work C) :
    Invariant host (server.clearStopRequest.setPhase worker (.started work)) := by
  refine hinvariant.clearStopRequest.setPhase hmem ?_ (by simp) (by simp [hprimary])
    (by simp [hphase, Phase.isLosing])
  simp [Worker.isBusy, hprimary, hphase]

/-- A worker of the turn cannot publish the state it goes on in. -/
theorem stumble
    (hphase : worker.phase = .settled) :
    Invariant host (server.clearStopRequest.setPhase worker .failed) :=
  hinvariant.clearStopRequest.proceed hmem (by simp [hphase]) (by simp [hphase]) (by simp)
    (by simp) (by simp [hphase, Phase.isLosing])

theorem next
    (hphase : worker.phase = .settled) (publishFails : Bool) :
    Invariant host (server.next worker publishFails) := by
  cases hconcurrent : worker.concurrent with
  | true =>
      have hretire := hinvariant.retire hmem hphase (by simp [hconcurrent]) publishFails
      simpa [Server.next, Server.nextWork, hconcurrent] using hretire
  | false =>
      cases hpopped : (if server.closing then (none, server) else server.nextPending) with
      | mk value later =>
          cases value with
          | none =>
              obtain ⟨hsame, hempty⟩ := nextPending_none hpopped
              subst later
              cases hgoal : (if server.workers.length = 1 then server.nextGoal else none) with
              | none =>
                  have hretire := hinvariant.retire hmem hphase (fun _ => hempty) publishFails
                  simpa [Server.next, Server.nextWork, hconcurrent, hpopped, hgoal] using hretire
              | some work =>
                  simp only [Server.next, Server.nextWork, hconcurrent, hpopped, hgoal,
                    Bool.false_eq_true, if_false, Option.toList_none, List.append_nil]
                  split
                  · exact hinvariant.stumble hmem hphase
                  · exact hinvariant.restart hmem hphase hconcurrent work
          | some entry =>
              obtain ⟨rest, hpending, hlater⟩ := nextPending_some hpopped
              subst later
              simp only [Server.next, Server.nextWork, hconcurrent, hpopped, Bool.false_eq_true,
                if_false, Option.toList_some]
              split
              · refine (hinvariant.stumble hmem hphase).lose
                  ⟨_, Server.setPhase_mem hmem _, rfl⟩ ?_
                exact (List.sublist_cons_self entry rest).trans (by
                  rw [← hpending]
                  exact List.Sublist.refl _)
              · exact (hinvariant.pop hpending).restart hmem hphase hconcurrent (.input entry)

theorem crash :
    Invariant host (server.crash worker) :=
  (hinvariant.close server.agent _ (List.Sublist.refl _)).setPhase hmem
    (by simp [Worker.isBusy]) (by simp) (by simp [Phase.StartsImmediate]) (by simp)

end

theorem withWorker (id : ℕ) {next : Worker C → Server C}
    (hnext : ∀ worker ∈ server.workers, worker.id = id → Invariant host (next worker)) :
    Invariant host (server.withWorker id next) := by
  rw [Server.withWorker]
  split
  · exact hinvariant
  · rename_i worker hfind
    exact hnext worker (List.mem_of_find?_eq_some hfind) (by simpa using List.find?_some hfind)

/-- One lock region of the server or of a worker keeps the queue, the workers and the answers
tied together. -/
theorem step {action : Action}
    (hregular : Regular host server action) : Invariant host (server.step host action) := by
  cases action with
  | handshake => exact hinvariant.agent server.agent true server.ready
  | ready =>
      rw [Server.step]
      split
      · exact (hinvariant.agent server.agent server.initialized true).wakeGoal
      · exact hinvariant
  | submit value choices =>
      simp only [Server.step]
      split
      · exact hinvariant
      · rename_i hsubmit
        obtain ⟨hclosing, -, input, -, hdecided⟩ := Server.submit_cases hsubmit
        exact hinvariant.decided hclosing hdecided
  | begin id fault =>
      refine hinvariant.withWorker id fun worker hmem _ => ?_
      split
      · exact hinvariant.begin hmem (by assumption) fault
      · exact hinvariant
  | dispatch id control =>
      refine hinvariant.withWorker id fun worker hmem _ => ?_
      split
      · exact hinvariant.dispatch hmem (by assumption) control
      · exact hinvariant
  | chat id fault =>
      refine hinvariant.withWorker id fun worker hmem _ => ?_
      split
      · exact hinvariant.chat hmem (by assumption) fault
      · exact hinvariant
  | complete id =>
      refine hinvariant.withWorker id fun worker hmem _ => ?_
      split
      · rename_i hphase
        exact hinvariant.complete hmem (by simp [hphase]) (by simp [hphase])
          (by simp [hphase, Phase.isLosing])
      · rename_i hphase
        exact hinvariant.complete hmem (by simp [hphase]) (by simp [hphase]) (by simp)
      · exact hinvariant
  | fail id fault =>
      refine hinvariant.withWorker id fun worker hmem hid => ?_
      split
      · exact hinvariant
      · exact hinvariant
      · exact hinvariant
      · rename_i hsettled hfailed hleaving
        refine hinvariant.fail hmem hleaving hfailed fault fun hfault => ?_
        have hkeeps := hregular hfault worker hmem hid
        cases hphase : worker.phase <;> simp_all [Phase.isLosing]
  | next id publishFails =>
      refine hinvariant.withWorker id fun worker hmem _ => ?_
      split
      · exact hinvariant.next hmem (by assumption) publishFails
      · exact hinvariant
  | crash id =>
      refine hinvariant.withWorker id fun worker hmem _ => ?_
      split
      · exact hinvariant.crash hmem
      · exact hinvariant
  | leave id =>
      refine hinvariant.withWorker id fun worker hmem _ => ?_
      split
      · exact hinvariant.leave hmem (by assumption)
      · exact hinvariant
  | stop => exact hinvariant.requestStop.stopGoal _
  | shutdown => exact hinvariant.close _ server.running (List.nil_sublist _)
  | agent change => exact hinvariant.agent _ server.initialized server.ready

/-! ## What the invariant says -/

theorem sound : Sound server where
  single first hfirst second hsecond hfirstBusy hsecondBusy :=
    hinvariant.eq_of_id hfirst hsecond
      (hinvariant.single first hfirst second hsecond hfirstBusy hsecondBusy)
  inOrder := (List.sublist_append_left _ _).trans hinvariant.ordered
  quiescent hworkers hclosing := by
    have hidle : server.running = false := by
      by_contra hrunning
      obtain ⟨worker, hworker, -⟩ := hinvariant.attended hclosing (by simpa using hrunning)
      rw [hworkers] at hworker
      cases hworker
    have hempty := hinvariant.drained hclosing hidle
    refine ⟨hidle, hempty, ?_⟩
    rcases hinvariant.kept hclosing with hkept | ⟨worker, hworker, -⟩
    · rw [hkept, hempty, List.append_nil]
    · rw [hworkers] at hworker
      cases hworker

end

end Invariant

theorem honest_of_decided {host : Host C} {server after : Server C} {value : Input C}
    {disposition : Disposition} (hdecided : Decided host server value disposition after)
    (hread : disposition ≠ .unread) : Honest host server value disposition.status after := by
  cases hdecided with
  | started hidle => exact ⟨by simp [Disposition.status], fun _ => ⟨_, rfl, .inl rfl⟩⟩
  | steered hrunning => exact ⟨by simp [Disposition.status], by simp [Disposition.status]⟩
  | kept hrunning hchat =>
      exact ⟨fun _ => ⟨value, entryOf_chat hchat, rfl⟩, by simp [Disposition.status]⟩
  | rejected hrunning hstop => exact ⟨by simp [Disposition.status], by simp [Disposition.status]⟩
  | beside hrunning parsed hprepare =>
      exact ⟨by simp [Disposition.status],
        fun _ => ⟨_, rfl, .inr ⟨_, (prepare_parsed hprepare).1, rfl⟩⟩⟩
  | deferred hrunning request hprepare =>
      exact ⟨fun _ => ⟨_, (prepare_deferred hprepare).1, rfl⟩, by simp [Disposition.status]⟩
  | unread hrunning hprepare => exact absurd rfl hread

theorem answersHonestly_of_regular {host : Host C} {server : Server C} {action : Action}
    (hregular : Regular host server action) : AnswersHonestly host server action := by
  cases action with
  | submit value choices =>
      intro input disposition after hinput hsubmit
      obtain ⟨hclosing, -, read, hread, hdecided⟩ := Server.submit_cases hsubmit
      rw [hinput] at hread
      cases hread
      refine honest_of_decided hdecided ?_
      rintro rfl
      cases hdecided with
      | unread hrunning hprepare =>
          obtain ⟨line, hline, hslash, hparse⟩ := prepare_unknown hprepare
          rw [Input.withSubmissionId_none] at hline
          subst hline
          exact hregular ⟨hclosing, hrunning, line, hinput, hslash, hparse⟩
  | _ => trivial

/-! ## Runs -/

/-- Commands that wait for the end of the turn, one slash text each. -/
def waitingCommand (name : String) : ActionSpec Unit where
  actionId := lit name
  triggers := [{ kind := .slash }]
  parser := some fun line => .ok (if line = lit name then some () else none)

def commandHost : Host Unit where
  registry := ⟨[waitingCommand "/quit", waitingCommand "/reset"], by decide⟩
  profile := { uiId := lit "cli" }
  decode
    | .str line => some (.text line)
    | _ => none

def typed (line : String) : Action := .submit (.str (lit line)) {}

/-- A chat, and what its worker does until it takes the next entry of the queue. -/
def chatTurn (during : List Action) : List Action :=
  [.handshake, typed "hi"] ++ during ++ [.begin 0 .unrecorded, .chat 0 .unrecorded, .complete 0,
    .next 0 false]

def freshServer : Server Unit := { agent := {} }

/-- While no unreadable slash text is submitted during a turn, and no exit command fails after
it has dropped inputs, answers are truthful and no input is stranded. -/
theorem run_truthful (host : Host C) (agent : AgentState C) (actions : List Action)
    (hregular : Meets (Server.step host) (Regular host) { agent } actions) :
    Meets (Server.step host) (fun server action => Sound server ∧
      AnswersHonestly host server action) { agent } actions ∧
      Sound (Server.run host { agent } actions) := by
  have hkeep : ∀ server action, Invariant host server → Regular host server action →
      Invariant host (server.step host action) := fun _ _ hinvariant hregular =>
    hinvariant.step hregular
  refine ⟨?_, (invariant_foldl _ hkeep (.launched agent) hregular).sound⟩
  have hstart : Invariant host { agent } := .launched agent
  generalize ({ agent } : Server C) = server at hregular hstart
  induction actions generalizing server with
  | nil => trivial
  | cons action rest ih =>
      exact ⟨⟨hstart.sound, answersHonestly_of_regular hregular.1⟩,
        ih _ hregular.2 (hkeep _ _ hstart hregular.1)⟩

theorem run_truthful_reset :
    Sound (freshServer.run commandHost (chatTurn [typed "/reset"])) :=
  (run_truthful commandHost {} (chatTurn [typed "/reset"]) (by
    refine ⟨trivial, ?_, ?_, trivial, trivial, trivial, trivial, trivial⟩
    · rintro ⟨-, hrunning, -⟩
      cases hrunning
    · rintro ⟨-, -, line, hinput, -, hparse⟩
      cases hinput
      have hreset : commandHost.registry.parse commandHost.profile (lit "/reset") =
          .ok (some ⟨(), waitingCommand "/reset"⟩) := rfl
      rw [hreset] at hparse
      cases hparse)).2

/-! ## Two inputs that break it -/

/-- `/nope` is answered `queued` during a turn and is not in the queue.  `/quit` empties the
queue, fails, and leaves an idle server that never starts the `/reset` behind it. -/
theorem strandedInputs :
    ¬AnswersHonestly commandHost (freshServer.run commandHost [.handshake, typed "hi"])
        (typed "/nope") ∧
      ¬Sound (freshServer.run commandHost (chatTurn [typed "/quit", typed "/reset"] ++
        [.begin 0 .unrecorded, .dispatch 0 .exit, .fail 0 (.raised false), .next 0 false,
          .leave 0])) := by
  constructor
  · intro hanswers
    obtain ⟨entry, hentry, -⟩ := (hanswers (.text (lit "/nope")) .unread _ rfl rfl).queued rfl
    have hnone : entryOf commandHost.registry commandHost.profile (.text (lit "/nope")) = none := by
      decide +kernel
    rw [hnone] at hentry
    cases hentry
  · intro hsound
    have hstarted := (hsound.quiescent (by decide +kernel) (by decide +kernel)).2.2
    revert hstarted
    decide +kernel

end ReuleauxCoder.Runtime
