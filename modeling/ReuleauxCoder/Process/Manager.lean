import ReuleauxCoder.Library.Json

/-!
# Process sessions

`ProcessManager` keeps one entry for every process it started.  Tool calls start,
publish, abandon and poll processes, a watcher thread follows each of them, and
stopping and shutting down terminate them.  The manager's lock is held only while
its own tables change: every answer of the backend is fetched without the lock and
recorded in the entry under the lock later.  A step is one such locked region, or
one answer of the backend, or one notification.

An entry is an object; its number is its identity, and a step that holds the
object finds it again in the table only while the table still maps its session id
to it.  The environment chooses the answers of the backend and the clock.
-/

namespace ReuleauxCoder.Process

open PyText PyJson

inductive ProcessState where
  | running
  | exited
  | unknown
  deriving DecidableEq

inductive ProcessStreamMode where
  | pipe
  | pty
  deriving DecidableEq

structure ProcessCursor where
  stdoutOffset : ℕ := 0
  stderrOffset : ℕ := 0
  deriving DecidableEq

structure ProcessSnapshot where
  state : ProcessState := .running
  stdout : Text := []
  stderr : Text := []
  cursor : ProcessCursor := {}
  deriving DecidableEq

def ProcessSnapshot.isExited (snapshot : ProcessSnapshot) : Bool :=
  snapshot.state = .exited

/-! ## Hidden input -/

def hiddenInputMarker : Text := lit "[hidden input redacted]"

/-- The loop of `_SensitiveOutputFilter.apply`: the output and what stays pending. -/
def redactFrom (values : List Text) (final : Bool) : ℕ → Text → Text × Text
  | 0, _ => ([], [])
  | _ + 1, [] => ([], [])
  | fuel + 1, character :: rest =>
      let text := character :: rest
      match values.find? fun value => value.isPrefixOf text with
      | some value =>
          let tail := redactFrom values final fuel (text.drop value.length)
          (hiddenInputMarker ++ tail.1, tail.2)
      | none =>
          if !final && values.any fun value => text.isPrefixOf value then ([], text)
          else
            let tail := redactFrom values final fuel rest
            (character :: tail.1, tail.2)

/-- `_SensitiveOutputFilter.apply`; the longest value is tried first. -/
def applyFilter (values : List Text) (pending chunk : Text) (final : Bool) : Text × Text :=
  let text := pending ++ chunk
  if text = [] ∨ values = [] then (text, [])
  else
    redactFrom ((values.filter (· ≠ [])).insertionSort fun left right =>
      right.length ≤ left.length) final text.length text

/-! ## Entries -/

structure ConsumerOutputTail where
  limit : ℕ
  stdout : Text := []
  stderr : Text := []

def lastCharacters (limit : ℕ) (text : Text) : Text :=
  text.drop (text.length - limit)

def ConsumerOutputTail.append (tail : ConsumerOutputTail) (snapshot : ProcessSnapshot) :
    ConsumerOutputTail :=
  { tail with
    stdout := lastCharacters tail.limit (tail.stdout ++ snapshot.stdout)
    stderr := lastCharacters tail.limit (tail.stderr ++ snapshot.stderr) }

structure ManagedEntry where
  sessionId : Text := []
  streamMode : ProcessStreamMode := .pipe
  ownerAgentId : Text := []
  ownerSessionId : Option Text := none
  sessionGeneration : ℤ := 0
  createdMonotonic : ℚ := 0
  lastSnapshot : ProcessSnapshot := {}
  published : Bool := false
  observed : Bool := false
  abandoned : Bool := false
  observedAt : Option ℚ := none
  terminalAt : Option ℚ := none
  cursors : List (Text × ProcessCursor) := []
  watcherCursor : ProcessCursor := {}
  watcher : Bool := false
  watcherStarted : Bool := false
  completionEmitted : Bool := false
  sensitiveValues : List Text := []
  outputFilters : List (Text × (Text × Text)) := []
  outputTails : List (Text × ConsumerOutputTail) := []

/-- `time or default`: zero is false. -/
def timeOr (time : Option ℚ) (default : ℚ) : ℚ :=
  match time with
  | some time => if time = 0 then default else time
  | none => default

namespace ManagedEntry

/-- `_redact_snapshot_locked`: the redacted snapshot and the entry with the
consumer's filters as they are now. -/
def redactSnapshot (entry : ManagedEntry) (consumer : Text) (snapshot : ProcessSnapshot) :
    ProcessSnapshot × ManagedEntry :=
  if entry.sensitiveValues = [] then (snapshot, entry)
  else
    let pending := (lookup consumer entry.outputFilters).getD ([], [])
    let stdout := applyFilter entry.sensitiveValues pending.1 snapshot.stdout snapshot.isExited
    let stderr := applyFilter entry.sensitiveValues pending.2 snapshot.stderr snapshot.isExited
    ({ snapshot with stdout := stdout.1, stderr := stderr.1 },
      { entry with outputFilters := store consumer (stdout.2, stderr.2) entry.outputFilters })

/-- The snapshot becomes the recorded one; an exit is dated once. -/
def recordSnapshot (entry : ManagedEntry) (snapshot : ProcessSnapshot) (now : ℚ) :
    ManagedEntry :=
  { entry with
    lastSnapshot := snapshot
    terminalAt := if snapshot.isExited then some (timeOr entry.terminalAt now)
      else entry.terminalAt }

def markObserved (entry : ManagedEntry) (now : ℚ) : ManagedEntry :=
  { entry with
    observed := true
    observedAt := some now }

/-- `_can_access`. -/
def canAccess (entry : ManagedEntry) (agentId : Text) (ownerSessionId : Option Text)
    (sessionGeneration : ℤ) : Bool :=
  entry.sessionGeneration = sessionGeneration &&
    (ownerSessionId ≠ none && entry.ownerSessionId = ownerSessionId ||
      entry.ownerAgentId = agentId)

end ManagedEntry

/-! ## Calls -/

structure StartRequest where
  ownerAgentId : Text
  ownerSessionId : Option Text
  sessionGeneration : ℤ

structure PollRequest where
  consumer : Text
  markObserved : Bool := true
  retainOutputChars : Option ℕ := none

inductive ProcessEventKind where
  | published
  | output
  | updated
  | completed
  deriving DecidableEq

/-- The notifications that a watcher sends while it follows a process. -/
inductive UpdateKind where
  | output
  | updated
  deriving DecidableEq

def UpdateKind.event : UpdateKind → ProcessEventKind
  | .output => .output
  | .updated => .updated

structure ProcessEvent where
  kind : ProcessEventKind
  index : ℕ
  snapshot : ProcessSnapshot

/-- How far a call or a watcher has come.  `leaving` is a start of which only the
`finally` block remains; it tells whether the start registered an entry. -/
inductive Call where
  | done
  | starting (request : StartRequest)
  | launched (request : StartRequest) (sessionId : Text) (mode : ProcessStreamMode)
  | probed (request : StartRequest) (sessionId : Text) (mode : ProcessStreamMode)
      (initial : ProcessSnapshot)
  | registered (index : ℕ)
  | aborted (index : ℕ)
  | leaving (registered : Bool)
  | publishing (index : ℕ) (completion : Bool)
  | completing (index : ℕ)
  | arming (index : ℕ)
  | polling (index : ℕ) (request : PollRequest)
  | reading (index : ℕ) (request : PollRequest) (cursor : ProcessCursor)
  | writing (index : ℕ) (request : PollRequest) (snapshot : ProcessSnapshot)
  | polled (snapshot : ProcessSnapshot)
  | watching (index : ℕ) (cursor : ProcessCursor)
  | watched (index : ℕ) (snapshot : ProcessSnapshot)
  | updating (index : ℕ) (snapshot : ProcessSnapshot) (kind : Option UpdateKind)
      (completion : Bool)
  | confirming (index : ℕ) (snapshot : ProcessSnapshot)
  | stopped (index : ℕ) (snapshot : ProcessSnapshot)
  | forced (index : ℕ) (snapshot : ProcessSnapshot) (confirmed : Bool)

structure ManagerConfig where
  maxSessions : ℕ
  observedRetentionSeconds : ℚ
  terminalTtlSeconds : ℚ
  positive : 1 ≤ maxSessions
  retention : 0 ≤ observedRetentionSeconds ∧ 0 ≤ terminalTtlSeconds

/-- `starts` lists the starts whose reservation `starting` counts, `reported` the
processes of which the backend has once said that they exited.  No step of the
program reads these two. -/
structure Manager where
  entries : List (Text × ℕ) := []
  starting : ℕ := 0
  closing : Bool := false
  nextEntry : ℕ := 0
  entry : ℕ → ManagedEntry := fun _ => {}
  nextCall : ℕ := 0
  call : ℕ → Call := fun _ => .done
  consumerLocks : List (ℕ × Text) := []
  stopTargets : List ℕ := []
  shutdownEntries : List ℕ := []
  events : List ProcessEvent := []
  starts : List ℕ := []
  reported : ℕ → Bool := fun _ => false

inductive Action where
  | reserve (request : StartRequest) (now : ℚ)
  | portStart (id : ℕ) (result : Option (Text × ProcessStreamMode))
  | portProbe (id : ℕ) (result : Option ProcessSnapshot)
  | register (id : ℕ) (now : ℚ)
  | attachWatcher (id : ℕ) (fails : Bool)
  | unregister (id : ℕ)
  | finishStart (id : ℕ)
  | publish (sessionId : Text) (observed : Bool) (now : ℚ)
  | emitPublished (id : ℕ)
  | emitCompleted (id : ℕ)
  | armWatcher (id : ℕ)
  | abandon (sessionId : Text)
  | openPoll (sessionId agentId : Text) (ownerSessionId : Option Text) (sessionGeneration : ℤ)
      (request : PollRequest)
  | lockPoll (id : ℕ)
  | readPoll (id : ℕ) (result : Option ProcessSnapshot)
  | writePoll (id : ℕ) (now : ℚ)
  | readWatch (id : ℕ) (result : Option ProcessSnapshot)
  | writeWatch (id : ℕ) (now : ℚ)
  | emitUpdate (id : ℕ)
  | emitCompletion (id : ℕ)
  | stopAll (agentId : Text) (ownerSessionId : Option Text) (sessionGeneration : ℤ)
  | terminate (index : ℕ) (result : Option ProcessSnapshot)
  | writeStop (id : ℕ) (now : ℚ)
  | list (now : ℚ)
  | rebindGeneration (ownerSessionId : Option Text) (previous next : ℤ)
  | hideInput (sessionId agentId : Text) (ownerSessionId : Option Text)
      (sessionGeneration : ℤ) (value : Text)
  | close
  | captureEntries
  | forceTerminate (index : ℕ) (result : Option (ProcessSnapshot × Bool))
  | writeForced (id : ℕ) (now : ℚ)
  | clear

namespace Manager

/-! ## The tables -/

def setCall (manager : Manager) (id : ℕ) (call : Call) : Manager :=
  { manager with call := Function.update manager.call id call }

def spawn (manager : Manager) (call : Call) : Manager :=
  { manager.setCall manager.nextCall call with nextCall := manager.nextCall + 1 }

def setEntry (manager : Manager) (index : ℕ) (entry : ManagedEntry) : Manager :=
  { manager with entry := Function.update manager.entry index entry }

/-- `self._entries.get(session_id) is entry`. -/
def isCurrent (manager : Manager) (index : ℕ) : Bool :=
  lookup (manager.entry index).sessionId manager.entries = some index

def pop (manager : Manager) (sessionId : Text) : Manager :=
  { manager with entries := drop sessionId manager.entries }

def emit (manager : Manager) (kind : ProcessEventKind) (index : ℕ)
    (snapshot : ProcessSnapshot) : Manager :=
  { manager with events := manager.events ++ [{ kind, index, snapshot }] }

/-- The backend answered with this snapshot. -/
def hear (manager : Manager) (index : ℕ) (snapshot : ProcessSnapshot) : Manager :=
  { manager with
    reported := Function.update manager.reported index
      (manager.reported index || snapshot.isExited) }

/-- `_ensure_watcher_started_locked`. -/
def ensureWatcherStarted (manager : Manager) (index : ℕ) : Manager :=
  let entry := manager.entry index
  if !entry.watcher || entry.watcherStarted then manager
  else (manager.setEntry index { entry with watcherStarted := true }).spawn (.watching index {})

/-- Whether `_cleanup_expired_locked` removes the entry. -/
def isExpired (config : ManagerConfig) (now : ℚ) (entry : ManagedEntry) : Bool :=
  let terminalAt := timeOr entry.terminalAt entry.createdMonotonic
  entry.lastSnapshot.isExited &&
    if entry.observed then
      config.observedRetentionSeconds ≤ now - timeOr entry.observedAt terminalAt
    else config.terminalTtlSeconds ≤ now - terminalAt

def cleanupExpired (config : ManagerConfig) (manager : Manager) (now : ℚ) : Manager :=
  let expired := (manager.entries.map Prod.snd).filter fun index =>
    isExpired config now (manager.entry index)
  expired.foldl (fun manager index => manager.pop (manager.entry index).sessionId) manager

/-! ## Start -/

/-- The first locked region of `start`; at capacity nothing is reserved. -/
def reserve (config : ManagerConfig) (manager : Manager) (request : StartRequest) (now : ℚ) :
    Manager :=
  if manager.closing then manager
  else
    let manager := manager.cleanupExpired config now
    if config.maxSessions ≤ manager.entries.length + manager.starting then manager
    else
      { manager.spawn (.starting request) with
        starting := manager.starting + 1
        starts := manager.starts ++ [manager.nextCall] }

def portStart (manager : Manager) (id : ℕ) (result : Option (Text × ProcessStreamMode)) :
    Manager :=
  match manager.call id with
  | .starting request =>
      match result with
      | some (sessionId, mode) => manager.setCall id (.launched request sessionId mode)
      | none => manager.setCall id (.leaving false)
  | _ => manager

def portProbe (manager : Manager) (id : ℕ) (result : Option ProcessSnapshot) : Manager :=
  match manager.call id with
  | .launched request sessionId mode =>
      match result with
      | some initial => manager.setCall id (.probed request sessionId mode initial)
      | none => manager.setCall id (.leaving false)
  | _ => manager

def newEntry (request : StartRequest) (sessionId : Text) (mode : ProcessStreamMode)
    (initial : ProcessSnapshot) (now : ℚ) : ManagedEntry where
  sessionId
  streamMode := mode
  ownerAgentId := request.ownerAgentId
  ownerSessionId := request.ownerSessionId
  sessionGeneration := request.sessionGeneration
  createdMonotonic := now
  lastSnapshot := initial

/-- The call puts a new entry into the table. -/
def enter (manager : Manager) (id : ℕ) (entry : ManagedEntry) : Manager :=
  { ((manager.setEntry manager.nextEntry entry).hear manager.nextEntry entry.lastSnapshot).setCall
      id (.registered manager.nextEntry) with
    entries := store entry.sessionId manager.nextEntry manager.entries
    nextEntry := manager.nextEntry + 1 }

/-- The second locked region of `start`. -/
def register (manager : Manager) (id : ℕ) (now : ℚ) : Manager :=
  match manager.call id with
  | .probed request sessionId mode initial =>
      if manager.closing || (lookup sessionId manager.entries).isSome then
        manager.setCall id (.leaving false)
      else manager.enter id (newEntry request sessionId mode initial now)
  | _ => manager

/-- The watcher thread is made; `fails` is an exception at this point. -/
def attachWatcher (manager : Manager) (id : ℕ) (fails : Bool) : Manager :=
  match manager.call id with
  | .registered index =>
      if fails then manager.setCall id (.aborted index)
      else
        (manager.setEntry index { manager.entry index with watcher := true }).setCall id
          (.leaving true)
  | _ => manager

/-- The `except` block of a start that registered its entry. -/
def unregister (manager : Manager) (id : ℕ) : Manager :=
  match manager.call id with
  | .aborted index => (manager.pop (manager.entry index).sessionId).setCall id (.leaving true)
  | _ => manager

/-- The `finally` block. -/
def finishStart (manager : Manager) (id : ℕ) : Manager :=
  match manager.call id with
  | .leaving _ =>
      { manager.setCall id .done with
        starting := manager.starting - 1
        starts := manager.starts.erase id }
  | _ => manager

/-! ## Publish and abandon -/

/-- What the locked region of `publish` makes of the entry, and whether the call
announces the completion. -/
def publishEntry (entry : ManagedEntry) (observed : Bool) (now : ℚ) : Bool × ManagedEntry :=
  let exited := entry.lastSnapshot.isExited
  let completion := exited && !entry.completionEmitted
  let entry := if observed && exited then entry.markObserved now else entry
  (completion,
    { entry with
      published := true
      completionEmitted := entry.completionEmitted || completion })

def publish (manager : Manager) (sessionId : Text) (observed : Bool) (now : ℚ) : Manager :=
  match lookup sessionId manager.entries with
  | none => manager
  | some index =>
      let result := publishEntry (manager.entry index) observed now
      (manager.setEntry index result.2).spawn (.publishing index result.1)

def emitPublished (manager : Manager) (id : ℕ) : Manager :=
  match manager.call id with
  | .publishing index completion =>
      (manager.emit .published index (manager.entry index).lastSnapshot).setCall id
        (if completion then .completing index else .arming index)
  | _ => manager

def emitCompleted (manager : Manager) (id : ℕ) : Manager :=
  match manager.call id with
  | .completing index =>
      (manager.emit .completed index (manager.entry index).lastSnapshot).setCall id
        (.arming index)
  | _ => manager

def armWatcher (manager : Manager) (id : ℕ) : Manager :=
  match manager.call id with
  | .arming index => (manager.setCall id .done).ensureWatcherStarted index
  | _ => manager

def abandon (manager : Manager) (sessionId : Text) : Manager :=
  match lookup sessionId manager.entries with
  | none => manager
  | some index =>
      let entry := manager.entry index
      if entry.published then manager
      else
        let manager := manager.setEntry index { entry with abandoned := true }
        if entry.lastSnapshot.isExited then manager.pop sessionId
        else manager.ensureWatcherStarted index

/-! ## Poll -/

def openPoll (manager : Manager) (sessionId agentId : Text) (ownerSessionId : Option Text)
    (sessionGeneration : ℤ) (request : PollRequest) : Manager :=
  if request.retainOutputChars = some 0 then manager
  else
    match lookup sessionId manager.entries with
    | none => manager
    | some index =>
        if (manager.entry index).canAccess agentId ownerSessionId sessionGeneration then
          manager.spawn (.polling index request)
        else manager

/-- The consumer's lock is taken and the entry looked up again. -/
def lockPoll (manager : Manager) (id : ℕ) : Manager :=
  match manager.call id with
  | .polling index request =>
      if (index, request.consumer) ∈ manager.consumerLocks then manager
      else if manager.isCurrent index then
        let cursor := (lookup request.consumer (manager.entry index).cursors).getD {}
        { manager.setCall id (.reading index request cursor) with
          consumerLocks := (index, request.consumer) :: manager.consumerLocks }
      else manager.setCall id .done
  | _ => manager

def releaseConsumer (manager : Manager) (index : ℕ) (consumer : Text) : Manager :=
  { manager with consumerLocks := manager.consumerLocks.erase (index, consumer) }

def readPoll (manager : Manager) (id : ℕ) (result : Option ProcessSnapshot) : Manager :=
  match manager.call id with
  | .reading index request _ =>
      match result with
      | some snapshot => (manager.hear index snapshot).setCall id (.writing index request snapshot)
      | none => (manager.releaseConsumer index request.consumer).setCall id .done
  | _ => manager

/-- What the second locked region of `poll` makes of the entry, and the snapshot
it returns. -/
def pollEntry (entry : ManagedEntry) (request : PollRequest) (snapshot : ProcessSnapshot)
    (now : ℚ) : ProcessSnapshot × ManagedEntry :=
  let redacted := entry.redactSnapshot request.consumer snapshot
  let entry := redacted.2.recordSnapshot redacted.1 now
  let entry := if redacted.1.isExited && request.markObserved then entry.markObserved now
    else entry
  let entry := { entry with cursors := store request.consumer redacted.1.cursor entry.cursors }
  let tail := match request.retainOutputChars with
    | some limit => some { (lookup request.consumer entry.outputTails).getD { limit } with limit }
    | none => lookup request.consumer entry.outputTails
  match tail with
  | none => (redacted.1, entry)
  | some tail =>
      let tail := tail.append redacted.1
      ({ redacted.1 with stdout := tail.stdout, stderr := tail.stderr },
        { entry with outputTails := store request.consumer tail entry.outputTails })

def writePoll (manager : Manager) (id : ℕ) (now : ℚ) : Manager :=
  match manager.call id with
  | .writing index request snapshot =>
      let manager := manager.releaseConsumer index request.consumer
      if manager.isCurrent index then
        let result := pollEntry (manager.entry index) request snapshot now
        (manager.setEntry index result.2).setCall id (.polled result.1)
      else manager.setCall id .done
  | _ => manager

/-! ## The watcher -/

def readWatch (manager : Manager) (id : ℕ) (result : Option ProcessSnapshot) : Manager :=
  match manager.call id with
  | .watching index _ =>
      match result with
      | some snapshot => (manager.hear index snapshot).setCall id (.watched index snapshot)
      | none => manager.setCall id .done
  | _ => manager

/-- Whether the watcher reports the exit of a published process. -/
def completes (entry : ManagedEntry) (snapshot : ProcessSnapshot) : Bool :=
  entry.published && snapshot.isExited && !entry.completionEmitted

/-- The notification that the watcher sends for what it recorded. -/
def updateKind (entry : ManagedEntry) (snapshot : ProcessSnapshot) : Option UpdateKind :=
  if !entry.published then none
  else if snapshot.stdout ≠ [] ∨ snapshot.stderr ≠ [] then some .output
  else if snapshot.state ≠ entry.lastSnapshot.state then some .updated
  else none

def watchEntry (entry : ManagedEntry) (snapshot : ProcessSnapshot) (now : ℚ) : ManagedEntry :=
  let redacted := entry.redactSnapshot (lit "watcher") snapshot
  { redacted.2.recordSnapshot redacted.1 now with
    watcherCursor := snapshot.cursor
    completionEmitted := entry.completionEmitted || completes entry snapshot }

def writeWatch (manager : Manager) (id : ℕ) (now : ℚ) : Manager :=
  match manager.call id with
  | .watched index snapshot =>
      if manager.isCurrent index then
        let entry := manager.entry index
        let redacted := (entry.redactSnapshot (lit "watcher") snapshot).1
        let manager := manager.setEntry index (watchEntry entry snapshot now)
        if entry.abandoned && snapshot.isExited then
          (manager.pop entry.sessionId).setCall id .done
        else
          manager.setCall id (.updating index redacted (updateKind entry redacted)
            (completes entry snapshot))
      else manager.setCall id .done
  | _ => manager

def notify (manager : Manager) (kind : Option UpdateKind) (index : ℕ)
    (snapshot : ProcessSnapshot) : Manager :=
  match kind with
  | some kind => manager.emit kind.event index snapshot
  | none => manager

/-- How the watcher goes on after it recorded a snapshot. -/
def watchOn (index : ℕ) (snapshot : ProcessSnapshot) (completion : Bool) : Call :=
  if completion then .confirming index snapshot
  else if snapshot.isExited then .done
  else .watching index snapshot.cursor

def emitUpdate (manager : Manager) (id : ℕ) : Manager :=
  match manager.call id with
  | .updating index snapshot kind completion =>
      (manager.notify kind index snapshot).setCall id (watchOn index snapshot completion)
  | _ => manager

def emitCompletion (manager : Manager) (id : ℕ) : Manager :=
  match manager.call id with
  | .confirming index snapshot => (manager.emit .completed index snapshot).setCall id .done
  | _ => manager

/-! ## Stopping -/

def stopAll (manager : Manager) (agentId : Text) (ownerSessionId : Option Text)
    (sessionGeneration : ℤ) : Manager :=
  { manager with
    stopTargets := manager.stopTargets ++ (manager.entries.map Prod.snd).filter fun index =>
      (manager.entry index).canAccess agentId ownerSessionId sessionGeneration &&
        !(manager.entry index).lastSnapshot.isExited }

/-- The backend's answer to `terminate`, on a worker of its own. -/
def terminate (manager : Manager) (index : ℕ) (result : Option ProcessSnapshot) : Manager :=
  if index ∈ manager.stopTargets then
    let manager := { manager with stopTargets := manager.stopTargets.erase index }
    match result with
    | some snapshot => (manager.hear index snapshot).spawn (.stopped index snapshot)
    | none => manager
  else manager

def writeStop (manager : Manager) (id : ℕ) (now : ℚ) : Manager :=
  match manager.call id with
  | .stopped index snapshot =>
      if manager.isCurrent index then
        let redacted := (manager.entry index).redactSnapshot (lit "manager") snapshot
        (manager.setEntry index (redacted.2.recordSnapshot redacted.1 now)).setCall id .done
      else manager.setCall id .done
  | _ => manager

/-! ## Other calls -/

/-- `list` forgets expired entries; its views are not kept. -/
def list (config : ManagerConfig) (manager : Manager) (now : ℚ) : Manager :=
  manager.cleanupExpired config now

def rebindGeneration (manager : Manager) (ownerSessionId : Option Text) (previous next : ℤ) :
    Manager :=
  { manager with
    entry := fun index =>
      let entry := manager.entry index
      if index ∈ manager.entries.map Prod.snd ∧ entry.ownerSessionId = ownerSessionId ∧
          entry.sessionGeneration = previous ∧ entry.published then
        { entry with sessionGeneration := next }
      else entry }

/-- The locked region of `write_sensitive_line`. -/
def hideInput (manager : Manager) (sessionId agentId : Text) (ownerSessionId : Option Text)
    (sessionGeneration : ℤ) (value : Text) : Manager :=
  match lookup sessionId manager.entries with
  | none => manager
  | some index =>
      let entry := manager.entry index
      if entry.canAccess agentId ownerSessionId sessionGeneration && entry.streamMode = .pty &&
          entry.lastSnapshot.state = .running && value ∉ entry.sensitiveValues then
        manager.setEntry index { entry with sensitiveValues := entry.sensitiveValues ++ [value] }
      else manager

/-! ## Shutdown -/

def close (manager : Manager) : Manager :=
  { manager with closing := true }

/-- The end of the region that waited for starts: every watcher runs. -/
def captureEntries (manager : Manager) : Manager :=
  if manager.closing then
    let captured := manager.entries.map Prod.snd
    captured.foldl ensureWatcherStarted { manager with shutdownEntries := captured }
  else manager

/-- The backend's answer to the shutdown's `terminate`; an unconfirmed one may
carry a snapshot too. -/
def forceTerminate (manager : Manager) (index : ℕ) (result : Option (ProcessSnapshot × Bool)) :
    Manager :=
  if index ∈ manager.shutdownEntries ∧ !(manager.entry index).lastSnapshot.isExited then
    let manager :=
      { manager with shutdownEntries := manager.shutdownEntries.erase index }
    match result with
    | some (snapshot, confirmed) =>
        (manager.hear index snapshot).spawn (.forced index snapshot confirmed)
    | none => manager
  else manager

def writeForced (manager : Manager) (id : ℕ) (now : ℚ) : Manager :=
  match manager.call id with
  | .forced index snapshot confirmed =>
      if manager.isCurrent index then
        let entry := manager.entry index
        (manager.setEntry index
          (if confirmed then entry.recordSnapshot snapshot now
            else { entry with lastSnapshot := snapshot })).setCall id .done
      else manager.setCall id .done
  | _ => manager

def clear (manager : Manager) : Manager :=
  if manager.closing then { manager with entries := [] } else manager

/-! ## Steps -/

def step (config : ManagerConfig) (manager : Manager) : Action → Manager
  | .reserve request now => manager.reserve config request now
  | .portStart id result => manager.portStart id result
  | .portProbe id result => manager.portProbe id result
  | .register id now => manager.register id now
  | .attachWatcher id fails => manager.attachWatcher id fails
  | .unregister id => manager.unregister id
  | .finishStart id => manager.finishStart id
  | .publish sessionId observed now => manager.publish sessionId observed now
  | .emitPublished id => manager.emitPublished id
  | .emitCompleted id => manager.emitCompleted id
  | .armWatcher id => manager.armWatcher id
  | .abandon sessionId => manager.abandon sessionId
  | .openPoll sessionId agentId ownerSessionId sessionGeneration request =>
      manager.openPoll sessionId agentId ownerSessionId sessionGeneration request
  | .lockPoll id => manager.lockPoll id
  | .readPoll id result => manager.readPoll id result
  | .writePoll id now => manager.writePoll id now
  | .readWatch id result => manager.readWatch id result
  | .writeWatch id now => manager.writeWatch id now
  | .emitUpdate id => manager.emitUpdate id
  | .emitCompletion id => manager.emitCompletion id
  | .stopAll agentId ownerSessionId sessionGeneration =>
      manager.stopAll agentId ownerSessionId sessionGeneration
  | .terminate index result => manager.terminate index result
  | .writeStop id now => manager.writeStop id now
  | .list now => manager.list config now
  | .rebindGeneration ownerSessionId previous next =>
      manager.rebindGeneration ownerSessionId previous next
  | .hideInput sessionId agentId ownerSessionId sessionGeneration value =>
      manager.hideInput sessionId agentId ownerSessionId sessionGeneration value
  | .close => manager.close
  | .captureEntries => manager.captureEntries
  | .forceTerminate index result => manager.forceTerminate index result
  | .writeForced id now => manager.writeForced id now
  | .clear => manager.clear

end Manager

end ReuleauxCoder.Process
