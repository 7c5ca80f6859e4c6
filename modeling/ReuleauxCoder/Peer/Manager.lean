import ReuleauxCoder.Library.JsonText
import ReuleauxCoder.Library.Transition

/-!
# The peer's process manager

`process.start` holds a reservation, spawns outside the lock and checks everything again
before it registers the process, while processes exit and are cancelled, released, cleaned
up and closed.  Each step is one region under the manager's lock or one call of the
operating system.
-/

namespace ReuleauxCoder.Peer

open PyText PyJson

def maxProcessSessions : ℕ := 64

/-- `terminalRetention`, in milliseconds. -/
def terminalRetention : ℕ := 10 * 60 * 1000

/-- The arguments of `process.start` that the manager's tables depend on. -/
structure StartArgs where
  processId : Text
  idempotencyKey : Text
  command : Text
  tty : Option Bool := none
  deriving DecidableEq

/-- `protocol.WorkspaceResult` of a start. -/
inductive StartResult where
  | success (processId : Text) (reused : Bool) (startedUnixMs : Option ℕ)
  | failure (errorCode errorMessage : Text)
  deriving DecidableEq

def replayStartResult : StartResult → StartResult
  | .success processId _ startedUnixMs => .success processId true startedUnixMs
  | .failure errorCode errorMessage => .failure errorCode errorMessage

/-- A call of `start`. -/
inductive Phase where
  | absent
  | entered
  /-- It waits for the reservation of another call. -/
  | waiting (owner : ℕ)
  | reserved
  | started (process : ℕ)
  | attached (process : ℕ)
  /-- In `terminateAndWait`. -/
  | stopping (process : ℕ) (result : StartResult)
  /-- The deferred function is left. -/
  | ending (result : StartResult)
  | returned (result : StartResult)
  deriving DecidableEq

/-- A process that was spawned: the `state`, the call of `start`, and whether the operating
system still runs it. -/
structure Session where
  id : Text := []
  idempotencyKey : Text := []
  call : ℕ := 0
  startedAt : ℕ := 0
  exited : Bool := false
  waited : Bool := false
  finishedAt : Option ℕ := none
  done : Bool := false

/-- `states` maps process ids to the spawned processes, `starting` maps keys to the calls
that hold a reservation, and `removals` lists the processes that a `cancel` or `release`
has looked up and will remove. -/
structure Manager where
  states : List (Text × ℕ) := []
  idempotent : List (Text × Text) := []
  starting : List (Text × ℕ) := []
  startingIds : List Text := []
  closing : Bool := false
  now : ℕ := 0
  arrived : ℕ := 0
  args : ℕ → StartArgs := fun _ => ⟨[], [], [], none⟩
  phase : ℕ → Phase := fun _ => .absent
  spawned : ℕ := 0
  process : ℕ → Session := fun _ => {}
  removals : List ℕ := []

namespace Manager

def setPhase (manager : Manager) (call : ℕ) (phase : Phase) : Manager :=
  { manager with phase := Function.update manager.phase call phase }

def setProcess (manager : Manager) (process : ℕ) (session : Session) : Manager :=
  { manager with process := Function.update manager.process process session }

/-! ## Removal -/

def forget (manager : Manager) (process : ℕ) : Manager :=
  { manager with
    states := drop (manager.process process).id manager.states
    idempotent := drop (manager.process process).idempotencyKey manager.idempotent }

/-- `remove`. -/
def remove (manager : Manager) (process : ℕ) : Manager :=
  if lookup (manager.process process).id manager.states = some process then
    manager.forget process
  else manager

def expired (manager : Manager) (process : ℕ) : Bool :=
  (manager.process process).finishedAt.any fun finishedAt =>
    terminalRetention ≤ manager.now - finishedAt

def cleanupTerminal (manager : Manager) : Manager :=
  ((manager.states.map Prod.snd).filter manager.expired).foldl forget manager

/-! ## Starts -/

/-- The text of the capacity error. -/
def capacityMessage (manager : Manager) : Text :=
  let running := (manager.states.filter fun entry => !(manager.process entry.2).done).length
  lit "process session capacity reached (limit=" ++ decimal maxProcessSessions ++
    lit ", running=" ++ decimal running ++
    lit ", retained=" ++ decimal (manager.states.length - running) ++
    lit ", starting=" ++ decimal manager.starting.length ++ lit ")"

/-- `start` up to the reservation. -/
def enter (manager : Manager) (call : ℕ) : Manager :=
  let args := manager.args call
  let fail (manager : Manager) (errorCode errorMessage : String) :=
    manager.setPhase call (.returned (.failure (lit errorCode) (lit errorMessage)))
  if args.processId = [] ∨ args.idempotencyKey = [] ∨ args.command = [] then
    fail manager "invalid_path" "process_id, idempotency_key and command are required"
  else if args.tty = some true then
    fail manager "capability_unavailable" "this peer does not advertise PTY process support"
  else if manager.closing then fail manager "invalid_state" "process manager is shutting down"
  else
    let manager := manager.cleanupTerminal
    match lookup args.idempotencyKey manager.idempotent with
    | some existingId => manager.setPhase call (.returned (.success existingId true none))
    | none =>
        match lookup args.idempotencyKey manager.starting with
        | some owner => manager.setPhase call (.waiting owner)
        | none =>
            if (lookup args.processId manager.states).isSome then
              fail manager "not_unique" "process_id already exists"
            else if args.processId ∈ manager.startingIds then
              fail manager "not_unique" "process_id is already starting"
            else if maxProcessSessions ≤ manager.states.length + manager.starting.length then
              manager.setPhase call
                (.returned (.failure (lit "resource_exhausted") manager.capacityMessage))
            else
              { manager.setPhase call .reserved with
                starting := store args.idempotencyKey call manager.starting
                startingIds := manager.startingIds ++ [args.processId] }

/-- From the reservation to `cmd.Start`, which an error keeps from spawning. -/
def spawn (manager : Manager) (call : ℕ) : Option (Text × Text) → Manager
  | some (errorCode, errorMessage) =>
      manager.setPhase call (.ending (.failure errorCode errorMessage))
  | none =>
      let args := manager.args call
      { manager.setPhase call (.started manager.spawned) with
        spawned := manager.spawned + 1
        process := Function.update manager.process manager.spawned
          { id := args.processId
            idempotencyKey := args.idempotencyKey
            call
            startedAt := manager.now } }

/-- `attachProcessTree`. -/
def attach (manager : Manager) (call process : ℕ) : Option Text → Manager
  | some error =>
      manager.setPhase call (.stopping process
        (.failure (lit "io_error") (lit "could not own process tree: " ++ error)))
  | none => manager.setPhase call (.attached process)

/-- The second region of `start` under the lock. -/
def recheck (manager : Manager) (call process : ℕ) : Manager :=
  let args := manager.args call
  let stop (result : StartResult) := manager.setPhase call (.stopping process result)
  if manager.closing then
    stop (.failure (lit "invalid_state") (lit "process manager is shutting down"))
  else if (lookup args.processId manager.states).isSome then
    stop (.failure (lit "not_unique") (lit "process_id already exists"))
  else
    match lookup args.idempotencyKey manager.idempotent with
    | some existingId => stop (.success existingId true none)
    | none =>
        let session := manager.process process
        { (manager.setPhase call
            (.ending (.success args.processId false (some session.startedAt)))).setProcess
              process { session with waited := true } with
          states := store args.processId process manager.states
          idempotent := store args.idempotencyKey args.processId manager.idempotent }

/-- The deferred function of `start`. -/
def complete (manager : Manager) (call : ℕ) (result : StartResult) : Manager :=
  let args := manager.args call
  { manager.setPhase call (.returned result) with
    starting := drop args.idempotencyKey manager.starting
    startingIds := manager.startingIds.filter fun id => id ≠ args.processId }

/-! ## Steps -/

/-- One region under the lock, or one event of the operating system. -/
inductive Action where
  | call (args : StartArgs)
  | enter (call : ℕ)
  | spawn (call : ℕ) (error : Option (Text × Text))
  | attach (call : ℕ) (error : Option Text)
  | recheck (call : ℕ)
  /-- `cmd.Wait` of `terminateAndWait` returns. -/
  | reap (call : ℕ)
  | complete (call : ℕ)
  | wake (call : ℕ)
  /-- The process ends, by itself or by a signal. -/
  | exit (process : ℕ)
  /-- The two regions at the end of `wait`. -/
  | finish (process : ℕ)
  | close (process : ℕ)
  | poll (processId : Text)
  /-- `cancel` and `release` up to the removal; a termination may not be delivered. -/
  | cancel (processId : Text) (delivered : Bool)
  | release (processId : Text)
  | remove (index : ℕ)
  | tick (elapsed : ℕ)
  | shutdown

/-- A step that is not enabled leaves the manager as it is. -/
def step (manager : Manager) : Action → Manager
  | .call args =>
      { manager.setPhase manager.arrived .entered with
        args := Function.update manager.args manager.arrived args
        arrived := manager.arrived + 1 }
  | .enter call =>
      match manager.phase call with
      | .entered => manager.enter call
      | _ => manager
  | .spawn call error =>
      match manager.phase call with
      | .reserved => manager.spawn call error
      | _ => manager
  | .attach call error =>
      match manager.phase call with
      | .started process => manager.attach call process error
      | _ => manager
  | .recheck call =>
      match manager.phase call with
      | .attached process => manager.recheck call process
      | _ => manager
  | .reap call =>
      match manager.phase call with
      | .stopping process result =>
          if (manager.process process).exited then manager.setPhase call (.ending result)
          else manager
      | _ => manager
  | .complete call =>
      match manager.phase call with
      | .ending result => manager.complete call result
      | _ => manager
  | .wake call =>
      match manager.phase call with
      | .waiting owner =>
          match manager.phase owner with
          | .returned result => manager.setPhase call (.returned (replayStartResult result))
          | _ => manager
      | _ => manager
  | .exit process =>
      if process < manager.spawned then
        manager.setProcess process { manager.process process with exited := true }
      else manager
  | .finish process =>
      let session := manager.process process
      if session.waited && session.exited && session.finishedAt.isNone then
        manager.setProcess process { session with finishedAt := some manager.now }
      else manager
  | .close process =>
      let session := manager.process process
      if session.finishedAt.isSome then
        manager.setProcess process { session with done := true }
      else manager
  | .poll _ => manager
  | .cancel processId delivered =>
      match lookup processId manager.states with
      | some process =>
          if delivered then { manager with removals := manager.removals ++ [process] }
          else manager
      | none => manager
  | .release processId =>
      match lookup processId manager.states with
      | some process =>
          if (manager.process process).done then
            { manager with removals := manager.removals ++ [process] }
          else manager
      | none => manager
  | .remove index =>
      match manager.removals[index]? with
      | some process =>
          if (manager.process process).done then
            { manager.remove process with removals := manager.removals.eraseIdx index }
          else manager
      | none => manager
  | .tick elapsed => { manager with now := manager.now + elapsed }
  | .shutdown => { manager with closing := true }

end Manager

end ReuleauxCoder.Peer
