import ReuleauxCoder.History.Ledger
import ReuleauxCoder.Library.Transition

/-!
# User steering

A user may direct a running turn.  Admission records the direction in the
ledger and queues it; the loop drains the queue at a safe boundary, committing
each entry to the history, and interrupts, failures and resets discard what is
still queued.  Each lock region of `Agent` is one atomic action here.  `reset`
takes the steering lock twice, once to discard the queue and once to clear it,
so its regions are separate actions that others may come between.  A ledger
append that raises leaves its event in memory and ends the action there.
-/

namespace ReuleauxCoder.Steering

open PyText PyJson Transition
open History (Attribution Dict MessageArguments Outcome Readings World optionalText)

structure PendingUserSteering where
  steeringId : Text
  content : Json
  generation : ℤ
  turnId : Text
  submissionId : Option Text := none
  deriving DecidableEq

structure Agent where
  agentId : Text
  sessionGeneration : ℤ := 0
  world : World
  pendingUserSteering : List PendingUserSteering := []
  acceptingUserSteering : Bool := false
  currentTurnId : Option Text := none
  imageTurnId : Option Text := none
  currentRound : ℕ := 0
  roundInterruptEpoch : ℕ := 0
  roundInterruptPending : Bool := false
  stopRequested : Bool := false
  messages : List Dict := []

/-- `Agent.history_ledger.append`, with the agent's identity and a turn. -/
def record (world : World) (readings : Readings) (kind : String) (payload : Dict)
    (attribution : Attribution) : World × Outcome :=
  History.append readings readings.first world (lit kind) payload attribution

/-- Go on with the ledger that a call returned, or keep the one it raised on. -/
def proceed (agent : Agent) (result : World × Outcome) (next : Agent → Agent × Outcome) :
    Agent × Outcome :=
  match result with
  | (world, .returned) => next { agent with world }
  | (world, outcome) => ({ agent with world }, outcome)

/-! ## Admission -/

/-- A typed line, or a chat input whose content has been built for the turn. -/
inductive SteeringInput where
  | typed (line : Text)
  | chat (content : Json) (submissionId : Option Text)
  deriving DecidableEq

def SteeringInput.content : SteeringInput → Json
  | .typed line => .str (strip line)
  | .chat content _ => content

def SteeringInput.submissionId : SteeringInput → Option Text
  | .typed _ => none
  | .chat _ submissionId => submissionId

def admissionPayload (item : PendingUserSteering) : Dict :=
  [(lit "steering_id", .str item.steeringId), (lit "turn_id", .str item.turnId),
    (lit "generation", .int item.generation), (lit "content", item.content),
    (lit "submission_id", optionalText item.submissionId)]

def admitUserSteering (agent : Agent) (input : SteeringInput) (uuid : Text)
    (readings : Readings) : Agent × Outcome :=
  if input.content.truthy = false then (agent, .returned)
  else
    match agent.acceptingUserSteering, agent.currentTurnId with
    | true, some turnId =>
        let item : PendingUserSteering := {
          steeringId := lit "steer_" ++ uuid
          content := input.content
          generation := agent.sessionGeneration
          turnId
          submissionId := input.submissionId }
        let recorded := record agent.world readings "steering_admitted" (admissionPayload item) {
          agentId := some agent.agentId
          turnId := some turnId
          apiRoundId := some (turnId ++ lit ":" ++ decimal agent.currentRound) }
        proceed agent recorded fun agent =>
          ({ agent with pendingUserSteering := agent.pendingUserSteering ++ [item] }, .returned)
    | _, _ => (agent, .returned)

/-! ## Discarding -/

def discardPayload (item : PendingUserSteering) (reason : Text) : Dict :=
  [(lit "steering_id", .str item.steeringId), (lit "reason", .str reason)]

def recordDiscard (agentId : Text) (reason : Text) (world : World) (readings : Readings)
    (item : PendingUserSteering) : World × Outcome :=
  record world readings "steering_discarded" (discardPayload item reason)
    { agentId := some agentId, turnId := some item.turnId }

def discardItems (agentId reason : Text) (readings : ℕ → Readings) :
    ℕ → List PendingUserSteering → World → World × Outcome
  | _, [], world => (world, .returned)
  | index, item :: rest, world =>
      match recordDiscard agentId reason world (readings index) item with
      | (world, .returned) => discardItems agentId reason readings (index + 1) rest world
      | failed => failed

/-- `_discard_pending_user_steering_locked`: the queue is emptied before the
first discard is recorded. -/
def discardPendingLocked (agent : Agent) (reason : Text) (readings : ℕ → Readings) :
    Agent × Outcome :=
  proceed { agent with pendingUserSteering := [] }
    (discardItems agent.agentId reason readings 0 agent.pendingUserSteering agent.world)
    fun agent => (agent, .returned)

def discardPendingUserSteering (agent : Agent) (reason : Text) (readings : ℕ → Readings) :
    Agent × Outcome :=
  match discardPendingLocked agent reason readings with
  | (agent, .returned) => ({ agent with roundInterruptPending := false }, .returned)
  | failed => failed

/-! ## Draining -/

def imageTurnKey : Text := lit "_rc_image_turn_id"

def steeringMessage (imageTurnId : Option Text) (content : Json) : Dict :=
  [(lit "role", .str (lit "user")), (lit "content", content)] ++
    match imageTurnId, content with
    | some turnId, .arr _ => [(imageTurnKey, .str turnId)]
    | _, _ => []

def appliedPayload (item : PendingUserSteering) (attemptId : Option Text) : Dict :=
  [(lit "steering_id", .str item.steeringId), (lit "attempt_id", optionalText attemptId)]

/-- What draining reads for one entry: the readings of its audit record and of
its message, and the session generation, which a reset may advance between two
entries. -/
structure ItemReadings where
  audit : Readings := {}
  message : Readings := {}
  generation : ℤ

def steeringArguments (agent : Agent) (item : PendingUserSteering) (attemptId : Option Text) :
    MessageArguments where
  message := steeringMessage agent.imageTurnId item.content
  source := lit "user_steering"
  agentId := some agent.agentId
  turnId := some item.turnId
  apiRoundId := attemptId
  metadata := appliedPayload item attemptId

/-- Commit one current entry: its audit record, then its message. -/
def applyItem (agent : Agent) (attemptId : Option Text) (readings : ItemReadings)
    (item : PendingUserSteering) (world : World) : World × Outcome :=
  match record world readings.audit "steering_applied" (appliedPayload item attemptId)
      { agentId := some agent.agentId, turnId := some item.turnId } with
  | (world, .returned) =>
      History.appendMessage readings.message world (steeringArguments agent item attemptId)
  | failed => failed

/-- One entry of the drain loop: a stale entry is discarded, a current one is
committed. -/
def drainItem (agent : Agent) (attemptId : Option Text) (readings : ItemReadings)
    (item : PendingUserSteering) (world : World) : World × Outcome :=
  if item.generation ≠ readings.generation then
    recordDiscard agent.agentId (lit "stale_generation") world readings.audit item
  else applyItem agent attemptId readings item world

def drainItems (agent : Agent) (attemptId : Option Text) (readings : ℕ → ItemReadings) :
    ℕ → List PendingUserSteering → World → World × Outcome
  | _, [], world => (world, .returned)
  | index, item :: rest, world =>
      match drainItem agent attemptId (readings index) item world with
      | (world, .returned) => drainItems agent attemptId readings (index + 1) rest world
      | failed => failed

/-- The entries the drain loop applies when it runs to its end. -/
def appliedItems (readings : ℕ → ItemReadings) :
    ℕ → List PendingUserSteering → List PendingUserSteering
  | _, [] => []
  | index, item :: rest =>
      if item.generation ≠ (readings index).generation then
        appliedItems readings (index + 1) rest
      else item :: appliedItems readings (index + 1) rest

def drainUserSteering (agent : Agent) (attemptId : Option Text)
    (readings : ℕ → ItemReadings) : Agent × Outcome :=
  let applied := appliedItems readings 0 agent.pendingUserSteering
  proceed { agent with pendingUserSteering := [] }
    (drainItems agent attemptId readings 0 agent.pendingUserSteering agent.world)
    fun agent =>
      ({ agent with
          messages := agent.messages ++
            applied.map fun item => steeringMessage agent.imageTurnId item.content
          roundInterruptPending := false }, .returned)

/-! ## Interrupts -/

inductive InterruptIntentOutcome where
  | alreadyStopping
  | alreadyPromoted
  | stopRequested
  | promoted
  | nothingPending
  deriving DecidableEq

structure InterruptIntentResult where
  outcome : InterruptIntentOutcome
  steeringIds : List Text := []
  discardedCount : ℕ := 0
  epoch : ℕ
  deriving DecidableEq

def currentSteeringIds (agent : Agent) : List Text :=
  (agent.pendingUserSteering.filter fun item =>
    item.generation = agent.sessionGeneration).map PendingUserSteering.steeringId

/-- The result is absent when a discard raises. -/
def requestInterruptIntent (agent : Agent) (steeringOnly : Bool) (readings : ℕ → Readings) :
    (Agent × Outcome) × Option InterruptIntentResult :=
  let epoch := agent.roundInterruptEpoch
  if agent.stopRequested then
    ((agent, .returned), some { outcome := .alreadyStopping, epoch })
  else if agent.roundInterruptPending then
    if steeringOnly then ((agent, .returned), some { outcome := .alreadyPromoted, epoch })
    else
      match discardPendingLocked agent (lit "turn_stop") readings with
      | (discarded, .returned) =>
          (({ discarded with roundInterruptPending := false, stopRequested := true }, .returned),
            some {
              outcome := .stopRequested
              discardedCount := agent.pendingUserSteering.length
              epoch })
      | failed => (failed, none)
  else if currentSteeringIds agent ≠ [] then
    (({ agent with roundInterruptEpoch := epoch + 1, roundInterruptPending := true }, .returned),
      some { outcome := .promoted, steeringIds := currentSteeringIds agent, epoch := epoch + 1 })
  else if steeringOnly then ((agent, .returned), some { outcome := .nothingPending, epoch })
  else (({ agent with stopRequested := true }, .returned), some { outcome := .stopRequested, epoch })

/-! ## Reset -/

/-- `session_generation += 1`, under a lock of its own. -/
def resetAdvance (agent : Agent) : Agent :=
  { agent with sessionGeneration := agent.sessionGeneration + 1 }

/-- The ledger records of a reset. -/
def resetRecord (agent : Agent) (historyVersion : ℤ) (reset lifecycle view : Readings) :
    Agent × Outcome :=
  proceed agent (record agent.world reset "runtime_reset"
    [(lit "next_generation", .int agent.sessionGeneration)] {}) fun agent =>
  proceed agent (record agent.world lifecycle "session_lifecycle"
    [(lit "action", .str (lit "runtime_reset")), (lit "generation", .int agent.sessionGeneration)]
    { agentId := some agent.agentId }) fun agent =>
  proceed agent (History.appendContextView view
      (History.advanceGeneration agent.world agent.sessionGeneration) {
        messages := []
        reason := lit "runtime reset"
        historyVersion }) fun agent =>
  ({ agent with messages := [] }, .returned)

def resetLeaveTurn (agent : Agent) : Agent :=
  { agent with currentTurnId := none, imageTurnId := none, currentRound := 0 }

/-- The second steering lock region of `reset`: the queue is emptied without a
record. -/
def resetClear (agent : Agent) : Agent :=
  { agent with
    pendingUserSteering := []
    acceptingUserSteering := false
    roundInterruptPending := false }

/-! ## Turns -/

def beginTurn (agent : Agent) (turnId : Text) (goalContinuation : Bool) (readings : Readings) :
    Agent × Outcome :=
  let agent := { agent with
    currentTurnId := some turnId
    imageTurnId := if goalContinuation then agent.imageTurnId else some turnId
    acceptingUserSteering := true
    roundInterruptPending := false }
  proceed agent (record agent.world readings "agent_lifecycle"
    [(lit "state", .str (lit "turn_started"))]
    { agentId := some agent.agentId, turnId := some turnId }) fun agent => (agent, .returned)

/-- The check after the loop returned: stop accepting unless current steering
is queued. -/
def finishLoop (agent : Agent) : Agent :=
  if currentSteeringIds agent = [] ∨ agent.stopRequested = true then
    { agent with acceptingUserSteering := false }
  else agent

def stopAccepting (agent : Agent) : Agent :=
  { agent with acceptingUserSteering := false }

def endTurn (agent : Agent) (readings : Readings) : Agent × Outcome :=
  proceed agent (record agent.world readings "agent_lifecycle"
    [(lit "state", .str (lit "turn_completed"))]
    { agentId := some agent.agentId, turnId := agent.currentTurnId }) fun agent =>
  ({ agent with currentTurnId := none }, .returned)

inductive Action where
  | admitUserSteering (input : SteeringInput) (uuid : Text) (readings : Readings)
  | drainUserSteering (attemptId : Option Text) (readings : ℕ → ItemReadings)
  | requestInterruptIntent (steeringOnly : Bool) (readings : ℕ → Readings)
  | discardPendingUserSteering (reason : Text) (readings : ℕ → Readings)
  | resetAdvance
  | resetRecord (historyVersion : ℤ) (reset lifecycle view : Readings)
  | resetLeaveTurn
  | resetClear
  | beginTurn (turnId : Text) (goalContinuation : Bool) (readings : Readings)
  | finishLoop
  | stopAccepting
  | endTurn (readings : Readings)
  | setStop (requested : Bool)

/-- The agent after an action, and whether a ledger call of it raised. -/
def perform (agent : Agent) : Action → Agent × Outcome
  | .admitUserSteering input uuid readings => admitUserSteering agent input uuid readings
  | .drainUserSteering attemptId readings => drainUserSteering agent attemptId readings
  | .requestInterruptIntent steeringOnly readings =>
      (requestInterruptIntent agent steeringOnly readings).1
  | .discardPendingUserSteering reason readings =>
      discardPendingUserSteering agent reason readings
  | .resetAdvance => (resetAdvance agent, .returned)
  | .resetRecord historyVersion reset lifecycle view =>
      resetRecord agent historyVersion reset lifecycle view
  | .resetLeaveTurn => (resetLeaveTurn agent, .returned)
  | .resetClear => (resetClear agent, .returned)
  | .beginTurn turnId goalContinuation readings =>
      beginTurn agent turnId goalContinuation readings
  | .finishLoop => (finishLoop agent, .returned)
  | .stopAccepting => (stopAccepting agent, .returned)
  | .endTurn readings => endTurn agent readings
  | .setStop requested => ({ agent with stopRequested := requested }, .returned)

def step (agent : Agent) (action : Action) : Agent :=
  (perform agent action).1

/-- The lock regions of one `reset`, in order. -/
def resetActions (historyVersion : ℤ) (discard : ℕ → Readings)
    (reset lifecycle view : Readings) : List Action :=
  [.discardPendingUserSteering (lit "session_reset") discard, .resetAdvance,
    .resetRecord historyVersion reset lifecycle view, .resetLeaveTurn, .resetClear]

end ReuleauxCoder.Steering
