import ReuleauxCoder.Control.Goal
import ReuleauxCoder.Library.Transition
import ReuleauxCoder.Runtime.Commands

/-!
# The runtime server

`RuntimeServer` decides what becomes of a submission and runs the workers.  A step is one
region under the admission lock, or what one worker does between two such regions.  The
queue has a lock of its own, so an exit command may empty it at any time.  Answers of the
agent, of command handlers and of the connection are left to the environment.
-/

namespace ReuleauxCoder.Runtime

open Check PyText PyJson
open GoalController (Goal GoalStatus)

variable {C : Type}

/-! ## The host of a session -/

/-- What `decode` makes of a wire value; the command of an action is still data. -/
inductive Decoded where
  | text (value : Text)
  | chat (value : ChatInput)
  | action (actionId : Text) (command : Json)
  | other

/-- `decode` is `none` where it raises, and `imageFault` the error text of
`validate_reference`. -/
structure Host (C : Type) where
  registry : ActionRegistry C
  profile : UIProfile
  decode : Json → Option Decoded
  imageFault : Option Text → ImageReference → Option String := fun _ _ => none

/-- `_input`. -/
def Host.input (host : Host C) (value : Json) : Except Failure (Input C) :=
  match host.decode value with
  | none => .error (invalidParams "Invalid wire value")
  | some (.text line) => .ok (.text line)
  | some (.chat chat) => .ok (.chat chat)
  | some (.action actionId (.obj fields)) =>
      match (host.registry.iterActions host.profile).find? fun action =>
          action.actionId = actionId with
      | none => .error (invalidParams "Unavailable action")
      | some action =>
          match action.build fields with
          | none => .error (invalidParams "Invalid action parameters")
          | some command => .ok (.action ⟨actionId, command⟩)
  | some _ => .error (invalidParams "Expected text or an action request")

/-! ## State -/

/-- What the server reads and changes of its agent.  `acceptingSteering` says that a turn
accepts steering now. -/
structure AgentState (C : Type) where
  sessionId : Option Text := none
  sessionGeneration : ℤ := 0
  stopRequested : Bool := false
  acceptingSteering : Bool := false
  pendingSteering : List (Input C) := []
  goal : Option Goal := none
  activeMode : Option Text := none
  goalToolAllowed : Bool := true

/-- What a worker is given to do. -/
inductive Work (C : Type) where
  | input (value : Input C)
  | continuation (goalId : Text) (generation : ℤ)
  deriving DecidableEq

/-- How far `_run` has come with its value.  `exiting` keeps what the exit command dropped
from the queue.  `failed` is an exception on its way to the outer handler, and of `leaving`
only the `finally` block remains. -/
inductive Phase (C : Type) where
  | started (work : Work C)
  | dispatching (request : ActionRequest C)
  | chatting (value : Input C)
  | answering
  | exiting (dropped : List (Input C))
  | settled
  | failed
  | leaving
  deriving DecidableEq

structure Worker (C : Type) where
  id : ℕ
  concurrent : Bool
  phase : Phase C
  deriving DecidableEq

/-- The server with the queue of its command service.  `queued` and `started` are histories
of the queue: what was put into it, and what a worker took from it. -/
structure Server (C : Type) where
  agent : AgentState C := {}
  initialized : Bool := false
  ready : Bool := false
  closing : Bool := false
  running : Bool := false
  workers : List (Worker C) := []
  spawned : ℕ := 0
  pending : List (Input C) := []
  queued : List (Input C) := []
  started : List (Input C) := []

namespace Server

/-! ## Queue and workers -/

/-- `queue_input`, and the append of `_prepare`. -/
def enqueue (server : Server C) (entry : Input C) : Server C :=
  { server with
    pending := server.pending ++ [entry]
    queued := server.queued ++ [entry] }

def nextPending (server : Server C) : Option (Input C) × Server C :=
  match server.pending with
  | [] => (none, server)
  | entry :: rest => (some entry, { server with pending := rest })

/-- `_spawn`. -/
def spawn (server : Server C) (work : Work C) (concurrent : Bool) : Server C :=
  { server with
    workers := server.workers ++ [⟨server.spawned, concurrent, .started work⟩]
    spawned := server.spawned + 1 }

def setPhase (server : Server C) (worker : Worker C) (phase : Phase C) : Server C :=
  { server with
    workers := server.workers.map fun other =>
      if other.id = worker.id then { other with phase } else other }

/-! ## Goals -/

/-- `_next_goal`. -/
def nextGoal (server : Server C) : Option (Work C) :=
  match server.agent.goal with
  | none => none
  | some goal =>
      if server.ready = false ∨ server.closing = true ∨ server.agent.stopRequested = true ∨
          goal.status ≠ .active ∨ server.agent.activeMode = some (lit "planner") ∨
          server.agent.goalToolAllowed = false then
        none
      else some (.continuation goal.id server.agent.sessionGeneration)

def clearStopRequest (server : Server C) : Server C :=
  { server with agent := { server.agent with stopRequested := false } }

def requestStop (server : Server C) : Server C :=
  { server with agent := { server.agent with stopRequested := true } }

/-- `goal_controller.stop(status)`. -/
def stopGoal (server : Server C) (status : GoalStatus) : Server C :=
  { server with
    agent := { server.agent with
      goal := server.agent.goal.map fun goal =>
        if goal.status = .active then { goal with status } else goal } }

/-- Become the server of a turn that works on the value. -/
def startTurn (server : Server C) (work : Work C) : Server C :=
  { server.clearStopRequest with running := true }.spawn work false

/-- `_wake_goal`. -/
def wakeGoal (server : Server C) : Server C :=
  if server.running = true ∨ server.workers ≠ [] then server
  else
    match server.nextGoal with
    | none => server
    | some work => server.startTurn work

/-! ## Admission -/

def checkSession (server : Server C) (chat : ChatInput) : Except Failure Unit := do
  require (server.initialized = true ∧ server.closing = false) (refusal "Session is unavailable")
  require (chat.sessionId = server.agent.sessionId ∧
      chat.sessionGeneration = some server.agent.sessionGeneration)
    (invalidParams "Image belongs to a different session; attach it again")
  require (∃ name ∈ chat.sessionId, name ≠ []) (invalidParams "Invalid image session")

/-- `_validate_chat_images`. -/
def validateChatImages (host : Host C) (server : Server C) : Input C → Except Failure Unit
  | .chat chat => do
      require (strip chat.text ≠ [] ∨ chat.images ≠ []) (invalidParams "Chat input is empty")
      if chat.images = [] then .ok ()
      else do
        server.checkSession chat
        forEach (fun image =>
          match host.imageFault chat.sessionId image with
          | none => .ok ()
          | some message => .error (invalidParams message)) chat.images
  | _ => .ok ()

end Server

/-- What became of a submission.  `beside` is a command that runs beside the turn, `kept` a
chat for the next turn, `deferred` a command for then, and `unread` a slash text that no
action reads. -/
inductive Disposition where
  | started
  | beside
  | steered
  | kept
  | deferred
  | unread
  | rejected
  deriving DecidableEq

inductive SubmissionStatus where
  | running
  | steering
  | queued
  | rejected
  deriving DecidableEq

def Disposition.status : Disposition → SubmissionStatus
  | .started | .beside => .running
  | .steered => .steering
  | .kept | .deferred | .unread => .queued
  | .rejected => .rejected

/-- The failures that the environment may bring about while a submission is decided. -/
structure Choices where
  decodeFailure : Option Failure := none
  noticeFailure : Option Failure := none
  steeringFailure : Option Failure := none

def raiseIf : Option Failure → Except Failure Unit
  | none => .ok ()
  | some failure => .error failure

/-- Whether `admit_user_steering` finds any content. -/
def Input.hasContent : Input C → Bool
  | .text line => strip line ≠ []
  | .chat input => input.text ≠ [] || input.images ≠ []
  | .action _ => false

namespace Server

/-- `submit_user_steering`: the ledger may fail, and then nothing is steered. -/
def submitUserSteering (server : Server C) (value : Input C) (failure : Option Failure) :
    Except Failure (Bool × Server C) :=
  if value.hasContent = false ∨ server.agent.acceptingSteering = false then .ok (false, server)
  else
    match failure with
    | some failure => .error failure
    | none =>
        .ok (true, { server with
          agent := { server.agent with
            pendingSteering := server.agent.pendingSteering ++ [value] } })

/-- What `_submit` does with a chat while a turn runs. -/
def steerOrKeep (server : Server C) (value : Input C) (failure : Option Failure) :
    Except Failure (Disposition × Server C) :=
  match server.submitUserSteering value failure with
  | .error failure => .error failure
  | .ok (true, server) => .ok (.steered, server)
  | .ok (false, server) =>
      if server.agent.stopRequested then .ok (.rejected, server)
      else .ok (.kept, server.enqueue value)

/-- What `_submit` does with a command while a turn runs: `prepare_during_turn` returns no
request both for a deferred command and for one that no action reads. -/
def commandDuringTurn (host : Host C) (server : Server C) (value : Input C) :
    Except Failure (Disposition × Server C) :=
  match prepare host.registry host.profile value true with
  | .error failure => .error failure
  | .ok (.parsed parsed) => .ok (.beside, server.spawn (.input (.action parsed.request)) true)
  | .ok (.deferred request) => .ok (.deferred, server.enqueue (.action request))
  | .ok .chat | .ok .unknown => .ok (.unread, server)

/-- The locked region of `_submit`, up to the publication of the new state. -/
def decide (host : Host C) (server : Server C) (value : Input C) (submissionId : Option Text)
    (generation : Option ℤ) (choices : Choices) : Except Failure (Disposition × Server C) := do
  require (server.closing = false) (refusal "Session is closing")
  require (∀ expected ∈ generation, expected = server.agent.sessionGeneration)
    (refusal "Session changed; submission was not accepted")
  let value := value.withSubmissionId submissionId
  server.validateChatImages host value
  raiseIf (if value.isSlash then choices.noticeFailure else none)
  if server.running = false then .ok (.started, server.startTurn (.input value))
  else if value.isChat then server.steerOrKeep value choices.steeringFailure
  else server.commandDuringTurn host value

/-- `_submit` up to the publication. -/
def submit (host : Host C) (server : Server C) (value : Json) (submissionId : Option Text)
    (generation : Option ℤ) (choices : Choices) : Except Failure (Disposition × Server C) := do
  require (server.initialized = true) (refusal "Initialize first")
  raiseIf choices.decodeFailure
  let input ← host.input value
  server.decide host input submissionId generation choices

end Server

/-- What deciding on an input can do to the server. -/
inductive Decided (host : Host C) (server : Server C) (value : Input C) :
    Disposition → Server C → Prop where
  | started (hidle : server.running = false) :
      Decided host server value .started (server.startTurn (.input value))
  | steered (hrunning : server.running = true) :
      Decided host server value .steered { server with
        agent := { server.agent with
          pendingSteering := server.agent.pendingSteering ++ [value] } }
  | kept (hrunning : server.running = true) (hchat : value.isChat = true) :
      Decided host server value .kept (server.enqueue value)
  | rejected (hrunning : server.running = true) (hstop : server.agent.stopRequested = true) :
      Decided host server value .rejected server
  | beside (hrunning : server.running = true) (parsed : ParsedAction C)
      (hprepare : prepare host.registry host.profile value true = .ok (.parsed parsed)) :
      Decided host server value .beside (server.spawn (.input (.action parsed.request)) true)
  | deferred (hrunning : server.running = true) (request : ActionRequest C)
      (hprepare : prepare host.registry host.profile value true = .ok (.deferred request)) :
      Decided host server value .deferred (server.enqueue (.action request))
  | unread (hrunning : server.running = true)
      (hprepare : prepare host.registry host.profile value true = .ok .unknown) :
      Decided host server value .unread server

namespace Server

variable {host : Host C} {server after : Server C} {disposition : Disposition}

theorem submitUserSteering_cases {value : Input C} {failure : Option Failure} {accepted : Bool}
    (hresult : server.submitUserSteering value failure = .ok (accepted, after)) :
    accepted = true ∧ after = { server with
        agent := { server.agent with
          pendingSteering := server.agent.pendingSteering ++ [value] } } ∨
      accepted = false ∧ after = server := by
  simp only [submitUserSteering] at hresult
  split at hresult
  · cases hresult
    exact .inr ⟨rfl, rfl⟩
  · split at hresult
    · cases hresult
    · cases hresult
      exact .inl ⟨rfl, rfl⟩

theorem steerOrKeep_cases {value : Input C} {failure : Option Failure}
    (hrunning : server.running = true) (hchat : value.isChat = true)
    (hresult : server.steerOrKeep value failure = .ok (disposition, after)) :
    Decided host server value disposition after := by
  rw [steerOrKeep] at hresult
  cases hsubmitted : server.submitUserSteering value failure with
  | error failure => simp [hsubmitted] at hresult
  | ok submitted =>
      obtain ⟨accepted, later⟩ := submitted
      rcases submitUserSteering_cases hsubmitted with ⟨rfl, rfl⟩ | ⟨rfl, rfl⟩
      · simp only [hsubmitted, Except.ok.injEq, Prod.mk.injEq] at hresult
        obtain ⟨rfl, rfl⟩ := hresult
        exact .steered hrunning
      · simp only [hsubmitted] at hresult
        split at hresult
        · rename_i hstop
          cases hresult
          exact .rejected hrunning hstop
        · cases hresult
          exact .kept hrunning hchat

theorem commandDuringTurn_cases {value : Input C} (hrunning : server.running = true)
    (hcommand : value.isChat = false)
    (hresult : server.commandDuringTurn host value = .ok (disposition, after)) :
    Decided host server value disposition after := by
  rw [commandDuringTurn] at hresult
  cases hprepare : prepare host.registry host.profile value true with
  | error failure => simp [hprepare] at hresult
  | ok prepared =>
      simp only [hprepare] at hresult
      cases prepared with
      | chat =>
          rw [prepare_eq_chat hprepare] at hcommand
          cases hcommand
      | unknown =>
          cases hresult
          exact .unread hrunning hprepare
      | deferred request =>
          cases hresult
          exact .deferred hrunning request hprepare
      | parsed parsed =>
          cases hresult
          exact .beside hrunning parsed hprepare

theorem decide_cases {value : Input C} {submissionId : Option Text} {generation : Option ℤ}
    {choices : Choices}
    (hresult : server.decide host value submissionId generation choices =
      .ok (disposition, after)) :
    server.closing = false ∧
      (∀ expected ∈ generation, expected = server.agent.sessionGeneration) ∧
      Decided host server (value.withSubmissionId submissionId) disposition after := by
  simp only [decide, bind_eq_ok, require_eq_ok, exists_unit] at hresult
  obtain ⟨hclosing, hgeneration, -, -, hresult⟩ := hresult
  refine ⟨hclosing, hgeneration, ?_⟩
  split at hresult
  · rename_i hidle
    cases hresult
    exact .started hidle
  · rename_i hrunning
    have hrunning : server.running = true := by simpa using hrunning
    split at hresult
    · rename_i hchat
      exact steerOrKeep_cases hrunning hchat hresult
    · rename_i hcommand
      exact commandDuringTurn_cases hrunning (by simpa using hcommand) hresult

theorem submit_cases {value : Json} {submissionId : Option Text} {generation : Option ℤ}
    {choices : Choices}
    (hresult : server.submit host value submissionId generation choices =
      .ok (disposition, after)) :
    server.closing = false ∧
      (∀ expected ∈ generation, expected = server.agent.sessionGeneration) ∧
      ∃ input, host.input value = .ok input ∧
        Decided host server (input.withSubmissionId submissionId) disposition after := by
  simp only [submit, bind_eq_ok, require_eq_ok, exists_unit] at hresult
  obtain ⟨-, -, input, hinput, hdecide⟩ := hresult
  obtain ⟨hclosing, hgeneration, hdecided⟩ := decide_cases hdecide
  exact ⟨hclosing, hgeneration, input, hinput, hdecided⟩

end Server

/-! ## Workers -/

/-- How an exception in `_run` is handled; `unrecorded` says that handling it fails as well. -/
inductive Fault where
  | interrupted
  | raised (usageLimited : Bool)
  | unrecorded
  deriving DecidableEq

/-- The `control` of a command's effect. -/
inductive Control where
  | continue
  | chat
  | exit
  deriving DecidableEq

namespace Server

/-- The inner handlers of `_run`. -/
def fail (server : Server C) (worker : Worker C) : Fault → Server C
  | .interrupted => (server.stopGoal .paused).requestStop.setPhase worker .settled
  | .raised usageLimited =>
      (if worker.concurrent then server
        else server.stopGoal (if usageLimited then .usageLimited else .blocked)).setPhase worker
          .settled
  | .unrecorded => server.setPhase worker .failed

/-- `commands.submit` up to the dispatch.  A continuation only reads the state here. -/
def begin (host : Host C) (server : Server C) (worker : Worker C) (fault : Fault) :
    Work C → Server C
  | .continuation _ _ => server.setPhase worker .answering
  | .input value =>
      match prepare host.registry host.profile value worker.concurrent with
      | .error _ => server.fail worker fault
      | .ok .chat => server.setPhase worker (.chatting value)
      | .ok .unknown => server.setPhase worker .answering
      | .ok (.deferred request) => (server.enqueue (.action request)).setPhase worker .answering
      | .ok (.parsed parsed) => server.setPhase worker (.dispatching parsed.request)

/-- What `commands.submit` does with the effect of a handler; the audit and the display that
follow may still fail. -/
def dispatch (server : Server C) (worker : Worker C) (request : ActionRequest C) :
    Control → Server C
  | .continue => server.setPhase worker .answering
  | .chat => server.setPhase worker (.chatting (.action request))
  | .exit => { server with pending := [] }.setPhase worker (.exiting server.pending)

/-- The check before a chat; the chat itself belongs to the environment. -/
def chat (host : Host C) (server : Server C) (worker : Worker C) (fault : Fault)
    (value : Input C) : Server C :=
  match server.validateChatImages host value with
  | .error _ => server.fail worker fault
  | .ok () => server.setPhase worker .answering

/-- The rest of the inner block after `runtime.completed` is sent. -/
def complete (server : Server C) (worker : Worker C) (exits : Bool) : Server C :=
  let server := if exits then { server with closing := true } else server
  (if worker.concurrent = false ∧ server.closing = false ∧ server.agent.stopRequested = true then
    server.stopGoal .paused
  else server).setPhase worker .settled

/-- The value that `_run` goes on with, where one is left. -/
def nextWork (server : Server C) (worker : Worker C) : Option (Input C) × Option (Work C) × Server C :=
  if worker.concurrent = true then (none, none, server)
  else
    match (if server.closing then (none, server) else server.nextPending) with
    | (some value, server) => (some value, some (.input value), server)
    | (none, server) => (none, if server.workers.length = 1 then server.nextGoal else none, server)

/-- The locked region at the end of a round of `_run`. -/
def next (server : Server C) (worker : Worker C) (publishFails : Bool) : Server C :=
  match server.nextWork worker with
  | (_, none, server) =>
      (if worker.concurrent then server else { server with running := false }).setPhase worker
        (if publishFails then .failed else .leaving)
  | (value, some work, server) =>
      if publishFails then server.clearStopRequest.setPhase worker .failed
      else
        { server.clearStopRequest with started := server.started ++ value.toList }.setPhase worker
          (.started work)

/-- The outer handler of `_run`. -/
def crash (server : Server C) (worker : Worker C) : Server C :=
  { server with
    closing := true
    running := server.running && worker.concurrent }.setPhase worker .leaving

/-- The `finally` block of `_run`. -/
def leave (server : Server C) (worker : Worker C) : Server C :=
  { server with workers := server.workers.filter fun other => other.id ≠ worker.id }.wakeGoal

/-- The first locked region of `_shutdown`. -/
def shutdown (server : Server C) : Server C :=
  { server with
    closing := true
    pending := []
    agent := { server.agent with pendingSteering := [], stopRequested := true } }

end Server

/-! ## Steps -/

/-- What a turn, a tool or a command handler changes of the agent. -/
inductive AgentChange where
  | acceptSteering (accepting : Bool)
  | drainSteering
  | requestStop
  | setGoal (goal : Option Goal)
  | setMode (mode : Option Text) (goalToolAllowed : Bool)
  | setSession (sessionId : Option Text)
  | reset

def AgentState.change (agent : AgentState C) : AgentChange → AgentState C
  | .acceptSteering acceptingSteering => { agent with acceptingSteering }
  | .drainSteering => { agent with pendingSteering := [] }
  | .requestStop => { agent with stopRequested := true }
  | .setGoal goal => { agent with goal }
  | .setMode activeMode goalToolAllowed => { agent with activeMode, goalToolAllowed }
  | .setSession sessionId => { agent with sessionId }
  | .reset =>
      { agent with
        sessionGeneration := agent.sessionGeneration + 1
        pendingSteering := []
        acceptingSteering := false
        goal := none }

inductive Action where
  | handshake
  | ready
  | submit (value : Json) (choices : Choices)
  | begin (worker : ℕ) (fault : Fault)
  | dispatch (worker : ℕ) (control : Control)
  | chat (worker : ℕ) (fault : Fault)
  | complete (worker : ℕ)
  | fail (worker : ℕ) (fault : Fault)
  | next (worker : ℕ) (publishFails : Bool)
  | crash (worker : ℕ)
  | leave (worker : ℕ)
  | stop
  | shutdown
  | agent (change : AgentChange)

namespace Server

/-- Let the worker take a step, where there is such a worker. -/
def withWorker (server : Server C) (id : ℕ) (next : Worker C → Server C) : Server C :=
  match server.workers.find? fun worker => worker.id = id with
  | none => server
  | some worker => next worker

/-- One step; one that its worker's phase does not allow changes nothing. -/
def step (host : Host C) (server : Server C) : Action → Server C
  | .handshake => { server with initialized := true }
  | .ready => if server.initialized then { server with ready := true }.wakeGoal else server
  | .submit value choices =>
      match server.submit host value none none choices with
      | .error _ => server
      | .ok (_, server) => server
  | .begin id fault => server.withWorker id fun worker =>
      match worker.phase with
      | .started work => server.begin host worker fault work
      | _ => server
  | .dispatch id control => server.withWorker id fun worker =>
      match worker.phase with
      | .dispatching request => server.dispatch worker request control
      | _ => server
  | .chat id fault => server.withWorker id fun worker =>
      match worker.phase with
      | .chatting value => server.chat host worker fault value
      | _ => server
  | .complete id => server.withWorker id fun worker =>
      match worker.phase with
      | .answering => server.complete worker false
      | .exiting _ => server.complete worker true
      | _ => server
  | .fail id fault => server.withWorker id fun worker =>
      match worker.phase with
      | .settled | .failed | .leaving => server
      | _ => server.fail worker fault
  | .next id publishFails => server.withWorker id fun worker =>
      match worker.phase with
      | .settled => server.next worker publishFails
      | _ => server
  | .crash id => server.withWorker id fun worker =>
      match worker.phase with
      | .failed => server.crash worker
      | _ => server
  | .leave id => server.withWorker id fun worker =>
      match worker.phase with
      | .leaving => server.leave worker
      | _ => server
  | .stop => server.requestStop.stopGoal .paused
  | .shutdown => server.shutdown
  | .agent change => { server with agent := server.agent.change change }

def run (host : Host C) (server : Server C) (actions : List Action) : Server C :=
  actions.foldl (step host) server

end Server

end ReuleauxCoder.Runtime
