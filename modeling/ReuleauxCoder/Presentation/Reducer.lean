import ReuleauxCoder.Library.Endings
import ReuleauxCoder.Presentation.Transcript

/-!
# The presentation reducer

Runtime events become cells of the transcript.  An event is passed over when it was seen before
or belongs to an older generation of its session; every other one changes at most two cells, and
the reducer returns the changes for the interfaces that show them.
-/

namespace ReuleauxCoder.Presentation

open PyText PyJson Tools

/-! ## Events -/

inductive RuntimePayload where
  | turnStarted (userInput : Text)
  | turnFinished (response : Text)
  | assistantContentDelta (text : Text)
  | reasoningDelta
  | assistantStreamInterrupted
  | chatStarted (userInput : Text)
  | chatCompleted (response : Text)
  | streamChunk (text : Text) (reasoning : Bool)
  | toolCallStarted (toolCallId toolName : Text) (arguments : List (Text × Json))
  | toolOutputDelta (toolCallId text : Text)
  | toolCallFinished (toolCallId toolName : Text) (outcome : ToolOutcome)
  | subagentJobChanged (jobId mode task status : Text) (result error : Option Text)
  | diagnosticsPublished (batchId filePath : Text) (documentVersion diagnosticGeneration : ℤ)
      (diagnostics : List RuntimeDiagnostic)
  | diagnosticsCleared (batchId filePath : Text) (documentVersion diagnosticGeneration : ℤ)
  | approvalRequested (requestId title : Text) (preview : Option Text)
  | approvalResolved (requestId : Text) (approved : Bool) (reason mode grantLabel : Option Text)
      (releasedCount : ℤ) (resolutionSource : Option Text)
  | errorOccurred (message : Text)
  | notificationRaised (message code severity : Text)
  | userSteeringApplied (userInput : Text)
  | sessionChanged (sessionId : Option Text)
  | runtimeStateChanged (state : Text)
  | operationPhaseChanged (status : Text)
  | planUpdated
  | progressReported
  | processSessionChanged (state : Text)
  | viewRequested (requestId viewType : Text)
  | viewRefreshed (requestId viewType : Text) (revision : ℤ)

structure RuntimeEvent where
  payload : RuntimePayload
  eventId : Text
  agentId : Option Text := none
  sessionGeneration : Option ℤ := none
  sessionId : Option Text := none
  turnId : Option Text := none

/-- `is_transient_runtime_payload`. -/
def RuntimePayload.isTransient : RuntimePayload → Bool
  | .operationPhaseChanged status => status = lit "running"
  | .processSessionChanged state => state = lit "running"
  | .assistantContentDelta _ | .reasoningDelta | .streamChunk .. | .toolOutputDelta .. => true
  | _ => false

/-! ## The state -/

structure AssistantRoute where
  agentId : Option Text
  sessionId : Option Text
  sessionGeneration : Option ℤ
  turnId : Option Text
  deriving DecidableEq

structure TurnRoute where
  agentId : Option Text
  sessionId : Option Text
  sessionGeneration : Option ℤ
  deriving DecidableEq

structure RuntimeViewState where
  transcript : TranscriptModel := {}
  seenEventIds : List Text := []
  sessionGenerations : Text × Option Text → Option ℤ := fun _ => none
  activeSessionId : Option Text := none
  runtimeState : Text := lit "idle"
  viewRevisions : Text × Text → Option ℤ := fun _ => none
  activeAssistantCells : AssistantRoute → Option Text := fun _ => none
  activeTurnGroups : TurnRoute → Option Text := fun _ => none

inductive PresentationChange where
  | append (cell : TranscriptCell)
  | update (cell previous : TranscriptCell)
  | evict (cell : TranscriptCell)
  | reset

/-- The state behind an event and the changes; `none` where the reducer raises. -/
abbrev Reduced := Option (RuntimeViewState × List PresentationChange)

/-! ## Identities -/

/-- `value or default`. -/
def orDefault (value : Option Text) (default : Text) : Text :=
  match value with
  | some (first :: rest) => first :: rest
  | some [] | none => default

namespace RuntimeEvent

variable (event : RuntimeEvent)

def hasAgent : Bool :=
  ToolOutcome.isFilled event.agentId

/-- `event.turn_id or event.event_id`. -/
def identity : Text :=
  orDefault event.turnId event.eventId

/-- `f"{kind}:{event.agent_id}:{identity}" if event.agent_id else f"{kind}:{identity}"`. -/
def scopedId (kind : Text) : Text :=
  if event.hasAgent then kind ++ lit ":" ++ event.agentId.getD [] ++ lit ":" ++ event.identity
  else kind ++ lit ":" ++ event.identity

/-- `_assistant_route`. -/
def assistantRoute : AssistantRoute :=
  ⟨event.agentId, event.sessionId, event.sessionGeneration, event.turnId⟩

/-- `_turn_route`. -/
def turnRoute : TurnRoute :=
  ⟨event.agentId, event.sessionId, event.sessionGeneration⟩

/-- `_group_identity`. -/
def groupIdentity (identity : Text) : Text :=
  List.intercalate (lit ":")
    [orDefault event.agentId (lit "agent"), orDefault event.sessionId (lit "session"),
      intText (event.sessionGeneration.getD 0), identity]

end RuntimeEvent

/-! ## Texts -/

def behindBlankLine : Text → Text
  | [] => []
  | c :: rest =>
      if (lit "\n\n").isPrefixOf (c :: rest) then rest.drop 1 else behindBlankLine rest

/-- `_visible_user_input`. -/
def visibleUserInput (text : Text) : Text :=
  if (lit "[SESSION_RESUME]").isPrefixOf text || (lit "[SESSION_EXIT]").isPrefixOf text then
    behindBlankLine text
  else text

/-- `text[-count:]`. -/
def sliceFromEnd {Value : Type*} (values : List Value) (count : ℤ) : List Value :=
  if 0 < count then values.drop (values.length - count.toNat) else values.drop (-count).toNat

/-- `_tool_output_tail`. -/
def toolOutputTail (maxChars : ℤ) (text : Text) : Text :=
  sliceFromEnd ((sliceFromEnd (segments text) 5).flatMap Segment.text) maxChars

namespace RuntimeViewState

variable (state : RuntimeViewState) (event : RuntimeEvent)

/-! ## Changes of the transcript -/

/-- `_append`. -/
def append (cell : TranscriptCell) : Reduced :=
  (state.transcript.append cell).map fun (kept, evicted) =>
    ({ state with transcript := kept }, .append cell :: evicted.map .evict)

/-- `_replace`. -/
def replace (cell : TranscriptCell) : Reduced :=
  (state.transcript.replace cell).map fun (kept, previous) =>
    ({ state with transcript := kept }, [.update cell previous])

/-- `_event_group`. -/
def eventGroup : Option Text :=
  match event.turnId with
  | some (first :: rest) => some (event.groupIdentity (first :: rest))
  | some [] | none => state.activeTurnGroups event.turnRoute

/-- `_start_turn_group`. -/
def startTurnGroup : Text × RuntimeViewState :=
  let groupId := event.groupIdentity event.identity
  (groupId,
    { state with
      activeTurnGroups :=
        Function.update state.activeTurnGroups event.turnRoute (some groupId) })

/-! ## Assistant cells -/

/-- An assistant cell that is not complete. -/
structure OpenAssistant where
  cell : TranscriptCell
  text : Text
  interrupted : Bool

/-- `existing`, where it is an `AssistantCell` and not complete. -/
def openAssistant : Option OpenAssistant :=
  match state.activeAssistantCells event.assistantRoute with
  | none | some [] => none
  | some cellId =>
      match state.transcript.get cellId with
      | some cell =>
          match cell.body with
          | .assistant text false interrupted => some ⟨cell, text, interrupted⟩
          | _ => none
      | none => none

/-- `active_assistant_cells.pop(route, None)`. -/
def popAssistant : RuntimeViewState :=
  { state with
    activeAssistantCells :=
      Function.update state.activeAssistantCells event.assistantRoute none }

/-- `_next_assistant_cell_id`. -/
def nextAssistantCellId : Text :=
  let cellId := event.scopedId (lit "assistant")
  if (state.transcript.get cellId).isSome then cellId ++ lit ":" ++ event.eventId else cellId

/-- `_append_stream`. -/
def appendStream (text : Text) : Reduced :=
  match state.openAssistant event with
  | none =>
      let cellId := state.nextAssistantCellId event
      append
        { state with
          activeAssistantCells :=
            Function.update state.activeAssistantCells event.assistantRoute (some cellId) }
        { id := cellId
          body := .assistant text false false
          groupId := state.eventGroup event }
  | some opened =>
      state.replace
        (nextRevision opened.cell (.assistant (opened.text ++ text) false opened.interrupted))

/-- `_complete_chat`. -/
def completeChat (response : Text) : Reduced :=
  match state.openAssistant event with
  | some opened =>
      (state.popAssistant event).replace
        (nextRevision opened.cell (.assistant response true opened.interrupted))
  | none =>
      if response = [] then some (state.popAssistant event, [])
      else
        (state.popAssistant event).append
          { id := state.nextAssistantCellId event
            body := .assistant response true false
            groupId := state.eventGroup event }

/-- `_complete_active_assistant`, which returns no change. -/
def completeActiveAssistant : Option RuntimeViewState :=
  match state.openAssistant event with
  | some opened =>
      (state.transcript.replace
        (nextRevision opened.cell (.assistant opened.text true opened.interrupted))).map
          fun (kept, _) => { state.popAssistant event with transcript := kept }
  | none => some (state.popAssistant event)

/-- `_interrupt_active_assistant`. -/
def interruptActiveAssistant : Reduced :=
  match state.openAssistant event with
  | some opened =>
      (state.popAssistant event).replace
        (nextRevision opened.cell (.assistant opened.text true true))
  | none => some (state.popAssistant event, [])

/-! ## Turns and tool calls -/

/-- The start of a turn. -/
def startTurn (userInput : Text) : Reduced := do
  let completed ← state.completeActiveAssistant event
  let (groupId, started) := completed.startTurnGroup event
  if userInput = [] then some (started, [])
  else
    started.append
      { id := event.scopedId (lit "user")
        body := .user (visibleUserInput userInput)
        groupId := some groupId }

/-- The end of a turn. -/
def finishTurn (response : Text) : Reduced :=
  (state.completeChat event response).map fun (finished, changes) =>
    ({ finished with
        activeTurnGroups := Function.update finished.activeTurnGroups event.turnRoute none },
      changes)

def startTool (toolCallId toolName : Text) (arguments : List (Text × Json)) : Reduced := do
  let completed ← state.completeActiveAssistant event
  completed.append
    { id := lit "tool:" ++ toolCallId
      body := .tool toolCallId toolName (some arguments) [] .running none false
      groupId := completed.eventGroup event }

/-- `_record_diff`. -/
def recordDiff (toolCallId : Text) (outcome : ToolOutcome) : Reduced :=
  if (field outcome.metadata "diff_reviewed").truthy then some (state, [])
  else
    match outcome.diff with
    | none => some (state, [])
    | some diff =>
        if diff.unified = [] then some (state, [])
        else
          let cellId := lit "diff:" ++ toolCallId
          let shown : CellBody := .diff (some diff.path) diff.unified
          match state.transcript.get cellId with
          | some ⟨id, .diff path before, revision, groupId⟩ =>
              state.replace (nextRevision ⟨id, .diff path before, revision, groupId⟩ shown)
          | _ => state.append { id := cellId, body := shown, groupId := state.eventGroup event }

/-- The cell for an outcome whose tool call was not shown. -/
def orphanedTool (toolCallId toolName : Text) (outcome : ToolOutcome) : TranscriptCell where
  id := lit "tool:" ++ toolCallId
  body := .tool toolCallId toolName none [] (if outcome.success then .succeeded else .failed)
    (some outcome) true
  groupId := state.eventGroup event

/-- `_finish_tool` up to its diff. -/
def showOutcome (toolCallId toolName : Text) (outcome : ToolOutcome) : Reduced :=
  let cellId := lit "tool:" ++ toolCallId
  let status := if outcome.success then ToolCellStatus.succeeded else .failed
  match state.transcript.get cellId with
  | some ⟨id, .tool callId name arguments output before earlier orphaned, revision, groupId⟩ =>
      state.replace
        (nextRevision
          ⟨id, .tool callId name arguments output before earlier orphaned, revision, groupId⟩
          (.tool callId name arguments output status (some outcome) orphaned))
  | _ => state.append (state.orphanedTool event toolCallId toolName outcome)

/-- `_finish_tool`. -/
def finishTool (toolCallId toolName : Text) (outcome : ToolOutcome) : Reduced := do
  let (shown, changes) ← state.showOutcome event toolCallId toolName outcome
  let (recorded, more) ← shown.recordDiff event toolCallId outcome
  some (recorded, changes ++ more)

/-- `_append_tool_output`. -/
def appendToolOutput (maxChars : ℤ) (toolCallId text : Text) : Reduced :=
  let cellId := lit "tool:" ++ toolCallId
  match state.transcript.get cellId with
  | some ⟨id, .tool callId name arguments output status outcome orphaned, revision, groupId⟩ =>
      state.replace
        (nextRevision
          ⟨id, .tool callId name arguments output status outcome orphaned, revision, groupId⟩
          (.tool callId name arguments (toolOutputTail maxChars (output ++ text)) status outcome
            orphaned))
  | _ =>
      state.append
        { id := cellId
          body := .tool toolCallId (lit "unknown_tool") none (toolOutputTail maxChars text)
            .running none true
          groupId := state.eventGroup event }

/-! ## Other cells -/

def changeSubagent (jobId mode task status : Text) (result error : Option Text) : Reduced :=
  let cellId := lit "subagent:" ++ jobId
  match state.transcript.get cellId with
  | some ⟨id, .subagent shownId _ _ _ _ _, revision, groupId⟩ =>
      state.replace
        { id, groupId
          body := .subagent shownId mode task status result error
          revision := revision + 1 }
  | _ =>
      state.append
        { id := cellId
          body := .subagent jobId mode task status result error
          groupId := state.eventGroup event }

def notice (message level category : Text) : Reduced :=
  state.append
    { id := lit "notice:" ++ event.eventId
      body := .notice message level category
      groupId := state.eventGroup event }

/-- `_publish_diagnostics`. -/
def publishDiagnostics (batchId filePath : Text) (documentVersion diagnosticGeneration : ℤ)
    (diagnostics : List RuntimeDiagnostic) : Reduced :=
  let cellId := lit "diagnostic:" ++ orDefault event.agentId (lit "unknown") ++ lit ":" ++ filePath
  match state.transcript.get cellId with
  | some ⟨id, .diagnostic path _ _ _ _, revision, groupId⟩ =>
      state.replace
        { id, groupId
          body := .diagnostic path batchId documentVersion diagnosticGeneration diagnostics
          revision := revision + 1 }
  | _ =>
      state.append
        { id := cellId
          body := .diagnostic filePath batchId documentVersion diagnosticGeneration diagnostics
          groupId := state.eventGroup event }

/-- `_request_approval`. -/
def requestApproval (requestId title : Text) (preview : Option Text) : Reduced :=
  let cellId := lit "approval:" ++ requestId
  match state.transcript.get cellId with
  | some ⟨id, .approval shownId _ _ _ _ mode grantLabel releasedCount source, revision, groupId⟩ =>
      state.replace
        { id
          body := .approval shownId title (lit "pending") preview none mode grantLabel
            releasedCount source
          revision := revision + 1
          groupId := if ToolOutcome.isFilled groupId then groupId else state.eventGroup event }
  | _ =>
      state.append
        { id := cellId
          body := .approval requestId title (lit "pending") preview none none none 0 none
          groupId := state.eventGroup event }

/-- `_resolve_approval`. -/
def resolveApproval (requestId : Text) (approved : Bool) (reason mode grantLabel : Option Text)
    (releasedCount : ℤ) (resolutionSource : Option Text) : Reduced :=
  let cellId := lit "approval:" ++ requestId
  let status := if approved then lit "approved" else lit "denied"
  match state.transcript.get cellId with
  | some ⟨id, .approval shownId title _ preview _ _ _ _ _, revision, groupId⟩ =>
      state.replace
        { id, groupId
          body := .approval shownId title status preview reason mode grantLabel releasedCount
            resolutionSource
          revision := revision + 1 }
  | _ =>
      state.append
        { id := cellId
          body := .approval requestId (lit "Approval") status none reason mode grantLabel
            releasedCount resolutionSource
          groupId := state.eventGroup event }

/-! ## The reducer -/

/-- `apply` behind its checks; `maxChars` is the policy's `tool_preview_chars`. -/
def reduce (maxChars : ℤ) : Reduced :=
  match event.payload with
  | .turnStarted userInput | .chatStarted userInput => state.startTurn event userInput
  | .userSteeringApplied userInput =>
      state.append
        { id := lit "user-steer:" ++ event.eventId
          body := .user (visibleUserInput userInput)
          groupId := state.eventGroup event }
  | .assistantContentDelta text => state.appendStream event text
  | .assistantStreamInterrupted => state.interruptActiveAssistant event
  | .reasoningDelta => some (state, [])
  | .streamChunk text reasoning =>
      if reasoning then some (state, []) else state.appendStream event text
  | .turnFinished response | .chatCompleted response => state.finishTurn event response
  | .toolCallStarted toolCallId toolName arguments =>
      state.startTool event toolCallId toolName arguments
  | .toolCallFinished toolCallId toolName outcome =>
      state.finishTool event toolCallId toolName outcome
  | .toolOutputDelta toolCallId text => state.appendToolOutput event maxChars toolCallId text
  | .subagentJobChanged jobId mode task status result error =>
      state.changeSubagent event jobId mode task status result error
  | .errorOccurred message => state.notice event message (lit "error") (lit "agent")
  | .notificationRaised message code severity => state.notice event message severity code
  | .diagnosticsPublished batchId filePath documentVersion diagnosticGeneration diagnostics =>
      state.publishDiagnostics event batchId filePath documentVersion diagnosticGeneration
        diagnostics
  | .diagnosticsCleared batchId filePath documentVersion diagnosticGeneration =>
      state.publishDiagnostics event batchId filePath documentVersion diagnosticGeneration []
  | .approvalRequested requestId title preview =>
      state.requestApproval event requestId title preview
  | .approvalResolved requestId approved reason mode grantLabel releasedCount source =>
      state.resolveApproval event requestId approved reason mode grantLabel releasedCount source
  | .sessionChanged sessionId => some ({ state with activeSessionId := sessionId }, [])
  | .runtimeStateChanged runtimeState => some ({ state with runtimeState }, [])
  | .operationPhaseChanged _ | .planUpdated | .progressReported | .processSessionChanged _ =>
      some (state, [])
  | .viewRequested requestId viewType =>
      some ({ state with
        viewRevisions := Function.update state.viewRevisions (requestId, viewType) (some 0) }, [])
  | .viewRefreshed requestId viewType revision =>
      some ({ state with
        viewRevisions :=
          Function.update state.viewRevisions (requestId, viewType) (some revision) }, [])

/-- An event that was not seen before is noted; `none` for one that was. -/
def noteSeen : Option RuntimeViewState :=
  if event.payload.isTransient then some state
  else if event.eventId ∈ state.seenEventIds then none
  else some { state with seenEventIds := event.eventId :: state.seenEventIds }

/-- `_is_stale_generation`. -/
def isStaleGeneration : Bool × RuntimeViewState :=
  match event.agentId, event.sessionGeneration with
  | some agentId, some generation =>
      let newest :=
        { state with
          sessionGenerations :=
            Function.update state.sessionGenerations (agentId, event.sessionId)
              (some generation) }
      match state.sessionGenerations (agentId, event.sessionId) with
      | some current =>
          if generation < current then (true, state)
          else if current < generation then (false, newest)
          else (false, state)
      | none => (false, newest)
  | _, _ => (false, state)

/-- `apply`. -/
def apply (maxChars : ℤ) : Reduced :=
  match state.noteSeen event with
  | none => some (state, [])
  | some noted =>
      match noted.isStaleGeneration event with
      | (true, stale) => some (stale, [])
      | (false, current) => current.reduce event maxChars

/-- A step of a run; `none` where an event has raised. -/
def next (maxChars : ℤ) (found : Option RuntimeViewState) (event : RuntimeEvent) :
    Option RuntimeViewState := do
  let state ← found
  let (later, _) ← state.apply event maxChars
  some later

/-- A run over events. -/
def run (maxChars : ℤ) (start : RuntimeViewState) (events : List RuntimeEvent) :
    Option RuntimeViewState :=
  events.foldl (next maxChars) (some start)

end RuntimeViewState

end ReuleauxCoder.Presentation
