import ReuleauxCoder.Library.Transition
import ReuleauxCoder.Presentation.ReducerSteps

/-!
# Streams of events

Over a whole stream the transcript stays consistent: the index and the total are those of the
cells, and the limits hold.  No event raises as long as none adds a cell under an id that is
taken, and a recorded outcome stays as long as no tool call ends twice.
-/

namespace ReuleauxCoder.Presentation

open PyText PyJson Tools List

namespace RuntimeViewState

variable {state later : RuntimeViewState} {event : RuntimeEvent}
  {changes : List PresentationChange}

/-! ## Events that are not passed over -/

/-- The state in which an event is reduced; `none` where it is passed over. -/
def admitted (state : RuntimeViewState) (event : RuntimeEvent) : Option RuntimeViewState :=
  match state.noteSeen event with
  | none => none
  | some noted =>
      match noted.isStaleGeneration event with
      | (true, _) => none
      | (false, current) => some current

theorem isStaleGeneration_spec (noted : RuntimeViewState) (event : RuntimeEvent) :
    ∃ generations, (noted.isStaleGeneration event).2 =
      { noted with sessionGenerations := generations } := by
  rw [isStaleGeneration]
  split
  · dsimp only
    split
    · split
      · exact ⟨noted.sessionGenerations, rfl⟩
      · split
        · exact ⟨_, rfl⟩
        · exact ⟨noted.sessionGenerations, rfl⟩
    · exact ⟨_, rfl⟩
  · exact ⟨noted.sessionGenerations, rfl⟩

theorem noteSeen_spec {noted : RuntimeViewState} (hnoted : state.noteSeen event = some noted) :
    ∃ seen, noted = { state with seenEventIds := seen } ∧ state.seenEventIds ⊆ seen ∧
      (event.payload.isTransient = false →
        event.eventId ∉ state.seenEventIds ∧ event.eventId ∈ seen) := by
  rw [noteSeen] at hnoted
  split at hnoted
  next htransient =>
    cases hnoted
    refine ⟨state.seenEventIds, rfl, List.Subset.refl _, fun hcontrol => ?_⟩
    rw [htransient] at hcontrol
    cases hcontrol
  next =>
    split at hnoted
    next => cases hnoted
    next hnew =>
      cases hnoted
      exact ⟨_, rfl, subset_cons_self _ _, fun _ => ⟨hnew, mem_cons_self⟩⟩

variable {current : RuntimeViewState}

/-- An event that is reduced finds the state before it, but for the events seen and the
generations. -/
theorem admitted_spec (hadmitted : state.admitted event = some current) :
    ∃ seen generations,
      current = { state with seenEventIds := seen, sessionGenerations := generations } ∧
      state.seenEventIds ⊆ seen ∧
      (event.payload.isTransient = false →
        event.eventId ∉ state.seenEventIds ∧ event.eventId ∈ seen) := by
  rw [admitted] at hadmitted
  split at hadmitted
  next => cases hadmitted
  next noted hnoted =>
    obtain ⟨seen, rfl, hseen, hcontrol⟩ := noteSeen_spec hnoted
    split at hadmitted
    next => cases hadmitted
    next found hstale =>
      cases hadmitted
      obtain ⟨generations, hgenerations⟩ :=
        isStaleGeneration_spec { state with seenEventIds := seen } event
      rw [hstale] at hgenerations
      exact ⟨seen, generations, hgenerations, hseen, hcontrol⟩

variable {maxChars : ℤ}

theorem apply_admitted (hadmitted : state.admitted event = some current) :
    state.apply event maxChars = current.reduce event maxChars := by
  cases hnoted : state.noteSeen event with
  | none =>
      rw [admitted, hnoted] at hadmitted
      cases hadmitted
  | some noted =>
      rw [admitted, hnoted] at hadmitted
      rw [apply, hnoted]
      cases hstale : noted.isStaleGeneration event with
      | mk stale found =>
          dsimp only at hadmitted ⊢
          rw [hstale] at hadmitted ⊢
          cases stale with
          | true => cases hadmitted
          | false =>
              cases hadmitted
              rfl

/-- An event that is passed over changes nothing that is shown. -/
theorem apply_passedOver (maxChars : ℤ) (hpassed : state.admitted event = none) :
    ∃ seen generations, state.seenEventIds ⊆ seen ∧ state.apply event maxChars =
      some ({ state with seenEventIds := seen, sessionGenerations := generations }, []) := by
  cases hnoted : state.noteSeen event with
  | none =>
      rw [apply, hnoted]
      exact ⟨state.seenEventIds, state.sessionGenerations, List.Subset.refl _, rfl⟩
  | some noted =>
      rw [admitted, hnoted] at hpassed
      rw [apply, hnoted]
      obtain ⟨seen, hseenNoted, hseen, -⟩ := noteSeen_spec hnoted
      obtain ⟨generations, hgenerations⟩ := isStaleGeneration_spec noted event
      cases hstale : noted.isStaleGeneration event with
      | mk stale found =>
          dsimp only at hpassed ⊢
          rw [hstale] at hpassed hgenerations ⊢
          cases stale with
          | false => cases hpassed
          | true =>
              refine ⟨seen, generations, hseen, ?_⟩
              dsimp only at hgenerations ⊢
              rw [hgenerations, hseenNoted]

/-! ## What the events that are reduced leave alone -/

/-- The fields by which events are passed over. -/
def gate (state : RuntimeViewState) : List Text × (Text × Option Text → Option ℤ) :=
  (state.seenEventIds, state.sessionGenerations)

variable {cell : TranscriptCell} {toolCallId toolName : Text} {outcome : ToolOutcome}

theorem append_gate (happend : state.append cell = some (later, changes)) :
    later.gate = state.gate := by
  obtain ⟨found, -, hsame⟩ := Option.map_eq_some_iff.mp happend
  cases hsame
  rfl

theorem replace_gate (hreplace : state.replace cell = some (later, changes)) :
    later.gate = state.gate := by
  obtain ⟨found, -, hsame⟩ := Option.map_eq_some_iff.mp hreplace
  cases hsame
  rfl

variable {text response : Text}

theorem appendStream_gate (hreduce : state.appendStream event text = some (later, changes)) :
    later.gate = state.gate := by
  rw [appendStream] at hreduce
  split at hreduce
  next => exact (append_gate hreduce).trans rfl
  next => exact (replace_gate hreduce).trans rfl

theorem completeChat_gate (hreduce : state.completeChat event response = some (later, changes)) :
    later.gate = state.gate := by
  rw [completeChat] at hreduce
  split at hreduce
  next => exact (replace_gate hreduce).trans rfl
  next =>
    split at hreduce
    next =>
      cases hreduce
      rfl
    next => exact (append_gate hreduce).trans rfl

theorem completeActiveAssistant_gate {completed : RuntimeViewState}
    (hcomplete : state.completeActiveAssistant event = some completed) :
    completed.gate = state.gate := by
  rw [completeActiveAssistant] at hcomplete
  split at hcomplete
  next =>
    obtain ⟨found, -, hsame⟩ := Option.map_eq_some_iff.mp hcomplete
    cases hsame
    rfl
  next =>
    cases hcomplete
    rfl

theorem interrupt_gate
    (hreduce : state.interruptActiveAssistant event = some (later, changes)) :
    later.gate = state.gate := by
  rw [interruptActiveAssistant] at hreduce
  split at hreduce
  next => exact (replace_gate hreduce).trans rfl
  next =>
    cases hreduce
    rfl

theorem startTurn_gate {userInput : Text}
    (hreduce : state.startTurn event userInput = some (later, changes)) :
    later.gate = state.gate := by
  obtain ⟨completed, hcomplete, hrest⟩ := Option.bind_eq_some_iff.mp hreduce
  rw [← completeActiveAssistant_gate hcomplete]
  dsimp only [startTurnGroup] at hrest
  split at hrest
  next =>
    cases hrest
    rfl
  next => exact (append_gate hrest).trans rfl

theorem finishTurn_gate (hreduce : state.finishTurn event response = some (later, changes)) :
    later.gate = state.gate := by
  obtain ⟨⟨finished, shown⟩, hfinished, hsame⟩ := Option.map_eq_some_iff.mp hreduce
  cases hsame
  have hgate := completeChat_gate hfinished
  exact hgate

theorem startTool_gate {arguments : List (Text × Json)}
    (hreduce : state.startTool event toolCallId toolName arguments = some (later, changes)) :
    later.gate = state.gate := by
  obtain ⟨completed, hcomplete, hrest⟩ := Option.bind_eq_some_iff.mp hreduce
  rw [← completeActiveAssistant_gate hcomplete]
  exact append_gate hrest

theorem recordDiff_gate
    (hreduce : state.recordDiff event toolCallId outcome = some (later, changes)) :
    later.gate = state.gate := by
  rw [recordDiff] at hreduce
  split at hreduce
  next =>
    cases hreduce
    rfl
  next =>
    split at hreduce
    next =>
      cases hreduce
      rfl
    next =>
      split at hreduce
      next =>
        cases hreduce
        rfl
      next =>
        dsimp only at hreduce
        split at hreduce
        next => exact replace_gate hreduce
        next => exact append_gate hreduce

theorem showOutcome_gate
    (hreduce : state.showOutcome event toolCallId toolName outcome = some (later, changes)) :
    later.gate = state.gate := by
  rw [showOutcome] at hreduce
  split at hreduce
  next => exact replace_gate hreduce
  next => exact append_gate hreduce

theorem finishTool_gate
    (hreduce : state.finishTool event toolCallId toolName outcome = some (later, changes)) :
    later.gate = state.gate := by
  obtain ⟨⟨shown, earlier⟩, hshown, hrest⟩ := Option.bind_eq_some_iff.mp hreduce
  obtain ⟨⟨recorded, more⟩, hrecorded, hsame⟩ := Option.bind_eq_some_iff.mp hrest
  cases hsame
  exact (recordDiff_gate hrecorded).trans (showOutcome_gate hshown)

theorem reduce_gate (hreduce : state.reduce event maxChars = some (later, changes)) :
    later.gate = state.gate := by
  rw [reduce] at hreduce
  split at hreduce
  next => exact startTurn_gate hreduce
  next => exact startTurn_gate hreduce
  next => exact append_gate hreduce
  next => exact appendStream_gate hreduce
  next => exact interrupt_gate hreduce
  next =>
    cases hreduce
    rfl
  next =>
    split at hreduce
    next =>
      cases hreduce
      rfl
    next => exact appendStream_gate hreduce
  next => exact finishTurn_gate hreduce
  next => exact finishTurn_gate hreduce
  next => exact startTool_gate hreduce
  next => exact finishTool_gate hreduce
  next =>
    rw [appendToolOutput] at hreduce
    split at hreduce
    next => exact replace_gate hreduce
    next => exact append_gate hreduce
  next =>
    rw [changeSubagent] at hreduce
    split at hreduce
    next => exact replace_gate hreduce
    next => exact append_gate hreduce
  next => exact append_gate hreduce
  next => exact append_gate hreduce
  next =>
    rw [publishDiagnostics] at hreduce
    split at hreduce
    next => exact replace_gate hreduce
    next => exact append_gate hreduce
  next =>
    rw [publishDiagnostics] at hreduce
    split at hreduce
    next => exact replace_gate hreduce
    next => exact append_gate hreduce
  next =>
    rw [requestApproval] at hreduce
    split at hreduce
    next => exact replace_gate hreduce
    next => exact append_gate hreduce
  next =>
    rw [resolveApproval] at hreduce
    split at hreduce
    next => exact replace_gate hreduce
    next => exact append_gate hreduce
  all_goals
    cases hreduce
    rfl

/-! ## Consistent states -/

/-- The transcript is sound, its ids are of the kinds of the cells, and the ids that events made
of their own ids are those of events that were seen. -/
structure Consistent (state : RuntimeViewState) : Prop where
  sound : state.transcript.Sound
  named : ∀ cell ∈ state.transcript.cells, cell.Named
  eventIds : ∀ cell ∈ state.transcript.cells, ∀ word ∈ eventWords, HasWord word cell.id →
    ∃ eventId ∈ state.seenEventIds, cell.id = word ++ lit ":" ++ eventId

/-- A view with an empty transcript. -/
structure IsNew (state : RuntimeViewState) : Prop where
  cells : state.transcript.cells = []
  indexes : state.transcript.indexes = fun _ => none
  total : state.transcript.textCharsTotal = 0

theorem IsNew.consistent (hnew : state.IsNew) : state.Consistent where
  sound := TranscriptModel.sound_empty hnew.cells hnew.indexes hnew.total
  named := by
    rw [hnew.cells]
    exact forall_mem_nil _
  eventIds := by
    rw [hnew.cells]
    exact forall_mem_nil _

/-- The steps of an event that is not passed over. -/
theorem apply_steps {told : Prop} (hsound : state.transcript.Sound)
    (hadmitted : state.admitted event = some current) (htells : told → state.Tells event)
    (happly : state.apply event maxChars = some (later, changes)) :
    Steps event state.transcript told state.transcript changes later.transcript := by
  rw [apply_admitted hadmitted] at happly
  obtain ⟨seen, generations, hcurrent, -, -⟩ := admitted_spec hadmitted
  have hsafe : current.transcript.Sound := by
    rw [hcurrent]
    exact hsound
  have htold : told → current.Tells event := by
    rw [hcurrent]
    exact htells
  have hsteps := reduce_steps hsafe htold happly
  rw [hcurrent] at hsteps
  exact hsteps

/-- No event makes a consistent state inconsistent. -/
theorem Consistent.apply (hconsistent : state.Consistent)
    (happly : state.apply event maxChars = some (later, changes)) :
    later.Consistent ∧ later.transcript.maxCells = state.transcript.maxCells ∧
      later.transcript.maxTextChars = state.transcript.maxTextChars := by
  cases hadmitted : state.admitted event with
  | none =>
      obtain ⟨seen, generations, hseen, hpassed⟩ := apply_passedOver maxChars hadmitted
      rw [hpassed] at happly
      cases happly
      refine ⟨⟨hconsistent.sound, hconsistent.named, ?_⟩, rfl, rfl⟩
      intro cell hcell word hword hshared
      obtain ⟨eventId, heventId, hid⟩ := hconsistent.eventIds cell hcell word hword hshared
      exact ⟨eventId, hseen heventId, hid⟩
  | some current =>
      have hsteps : Steps event state.transcript False state.transcript changes later.transcript :=
        apply_steps hconsistent.sound hadmitted False.elim happly
      obtain ⟨seen, generations, hcurrent, hseen, hcontrol⟩ := admitted_spec hadmitted
      rw [apply_admitted hadmitted] at happly
      have hlater : later.seenEventIds = seen := by
        have hgate := congrArg Prod.fst (reduce_gate happly)
        rw [hcurrent] at hgate
        exact hgate
      refine ⟨⟨hsteps.sound hconsistent.sound,
        hsteps.named hconsistent.sound hconsistent.named, ?_⟩, hsteps.limits hconsistent.sound⟩
      · rw [hlater]
        apply Steps.forall_cells
          (fun cell => ∀ word ∈ eventWords, HasWord word cell.id →
            ∃ eventId ∈ seen, cell.id = word ++ lit ":" ++ eventId) _ _ hsteps hconsistent.sound
        · intro cell hcell word hword hshared
          obtain ⟨eventId, heventId, hid⟩ := hconsistent.eventIds cell hcell word hword hshared
          exact ⟨eventId, hseen heventId, hid⟩
        · intro cell hadds word hword hshared
          obtain ⟨hid, htransient⟩ := hadds.eventId word hword hshared
          exact ⟨event.eventId, (hcontrol htransient).2, hid⟩
        · intro previous cell hrevises hprevious
          rw [hrevises.id]
          exact hprevious

/-! ## Events that raise nothing -/

/-- The cells that an event adds whatever is shown have ids that are not taken, and a tool call
ends that has no outcome. -/
def Accepts (state : RuntimeViewState) (event : RuntimeEvent) : Prop :=
  let taken := cellIds state.transcript.cells
  match event.payload with
  | .turnStarted userInput | .chatStarted userInput =>
      userInput ≠ [] → event.scopedId (lit "user") ∉ taken
  | .toolCallStarted toolCallId _ _ => lit "tool:" ++ toolCallId ∉ taken
  | .assistantContentDelta _ | .streamChunk _ false =>
      state.openAssistant event = none → state.nextAssistantCellId event ∉ taken
  | .turnFinished response | .chatCompleted response =>
      state.openAssistant event = none → response ≠ [] →
        state.nextAssistantCellId event ∉ taken
  | .toolCallFinished toolCallId _ _ =>
      ∀ cell, state.transcript.get (lit "tool:" ++ toolCallId) = some cell →
        cell.body.outcome = none
  | _ => True

variable {generation : ℤ}

section Success

variable (hsound : state.transcript.Sound) (hnamed : ∀ cell ∈ state.transcript.cells, cell.Named)

include hsound

theorem append_isSome (hfresh : cell.id ∉ cellIds state.transcript.cells) :
    (state.append cell).isSome = true := by
  obtain ⟨kept, hkept, -⟩ := hsound.append_eq_some hfresh
  rw [append, hkept]
  rfl

theorem replace_isSome {previous : TranscriptCell} {cellId : Text}
    (hget : state.transcript.get cellId = some previous) (hid : cell.id = cellId) :
    (state.replace cell).isSome = true := by
  rw [← hid] at hget
  obtain ⟨index, kept, -, -, hkept, -⟩ := hsound.replace_eq_some hget
  rw [replace, hkept]
  rfl

theorem completeActiveAssistant_isSome (event : RuntimeEvent) :
    (state.completeActiveAssistant event).isSome = true := by
  rw [completeActiveAssistant]
  split
  next opened hopen =>
    obtain ⟨-, hget, -⟩ := openAssistant_eq_some hsound hopen
    let closed := nextRevision opened.cell (.assistant opened.text true opened.interrupted)
    have hclosed : state.transcript.get closed.id = some opened.cell := hget
    obtain ⟨index, kept, -, -, hkept, -⟩ := hsound.replace_eq_some hclosed
    rw [hkept]
    rfl
  next => rfl

theorem startTurn_isSome {userInput : Text}
    (hfresh : userInput ≠ [] → event.scopedId (lit "user") ∉ cellIds state.transcript.cells) :
    (state.startTurn event userInput).isSome = true := by
  obtain ⟨completed, hcompleted⟩ :=
    Option.isSome_iff_exists.mp (completeActiveAssistant_isSome hsound event)
  obtain ⟨hsafe, hids, -⟩ := completeActiveAssistant_spec state.transcript False hsound
    hcompleted
  rw [startTurn, hcompleted, Option.bind_eq_bind, Option.bind_some]
  dsimp only [startTurnGroup]
  split
  next => rfl
  next hinput =>
    have hnew := hfresh hinput
    rw [← hids] at hnew
    apply append_isSome
    · exact hsafe
    · exact hnew

theorem startTool_isSome {arguments : List (Text × Json)}
    (hfresh : lit "tool:" ++ toolCallId ∉ cellIds state.transcript.cells) :
    (state.startTool event toolCallId toolName arguments).isSome = true := by
  obtain ⟨completed, hcompleted⟩ :=
    Option.isSome_iff_exists.mp (completeActiveAssistant_isSome hsound event)
  obtain ⟨hsafe, hids, -⟩ := completeActiveAssistant_spec state.transcript False hsound
    hcompleted
  rw [startTool, hcompleted, Option.bind_eq_bind, Option.bind_some]
  rw [← hids] at hfresh
  exact append_isSome hsafe hfresh

theorem appendStream_isSome (hfresh : state.openAssistant event = none →
      state.nextAssistantCellId event ∉ cellIds state.transcript.cells) :
    (state.appendStream event text).isSome = true := by
  rw [appendStream]
  split
  next hopen =>
    apply append_isSome
    · exact hsound
    · exact hfresh hopen
  next opened hopen =>
    obtain ⟨-, hget, -⟩ := openAssistant_eq_some hsound hopen
    exact replace_isSome hsound hget rfl

theorem completeChat_isSome (hfresh : state.openAssistant event = none → response ≠ [] →
      state.nextAssistantCellId event ∉ cellIds state.transcript.cells) :
    (state.completeChat event response).isSome = true := by
  rw [completeChat]
  split
  next opened hopen =>
    obtain ⟨-, hget, -⟩ := openAssistant_eq_some hsound hopen
    apply replace_isSome
    · exact hsound
    · exact hget
    · rfl
  next hopen =>
    split
    next => rfl
    next hresponse =>
      apply append_isSome
      · exact hsound
      · exact hfresh hopen hresponse

theorem interrupt_isSome : (state.interruptActiveAssistant event).isSome = true := by
  rw [interruptActiveAssistant]
  split
  next opened hopen =>
    obtain ⟨-, hget, -⟩ := openAssistant_eq_some hsound hopen
    apply replace_isSome
    · exact hsound
    · exact hget
    · rfl
  next => rfl

include hnamed

/-- An id of some kind under which there is no cell of that kind is not taken. -/
theorem fresh_of_kind (kind : CellKind) {word cellId : Text} (hkind : word ∈ kind.words)
    (hword : HasWord word cellId)
    (hnone : ∀ cell, state.transcript.get cellId = some cell → cell.body.kind ≠ kind) :
    cellId ∉ cellIds state.transcript.cells := by
  intro htaken
  obtain ⟨cell, hcell, hid⟩ := mem_map.mp htaken
  apply hnone cell (hsound.get_eq_some.mpr ⟨hcell, hid⟩)
  apply (hnamed cell hcell).kind_eq hkind
  rwa [hid]

theorem toolOutput_isSome :
    (state.appendToolOutput event maxChars toolCallId text).isSome = true := by
  rw [appendToolOutput]
  split
  next hget => exact replace_isSome hsound hget (hsound.get_eq_some.mp hget).2
  next hother =>
    apply append_isSome hsound
    apply fresh_of_kind hsound hnamed .tool mem_cons_self ⟨toolCallId, rfl⟩
    intro cell hget hkind
    obtain ⟨id, body, revision, groupId⟩ := cell
    cases body with
    | tool => exact hother _ _ _ _ _ _ _ _ _ _ hget
    | _ => cases hkind

theorem subagent_isSome {jobId mode task status : Text} {result error : Option Text} :
    (state.changeSubagent event jobId mode task status result error).isSome = true := by
  rw [changeSubagent]
  split
  next hget => exact replace_isSome hsound hget (hsound.get_eq_some.mp hget).2
  next hother =>
    apply append_isSome hsound
    apply fresh_of_kind hsound hnamed .subagent mem_cons_self ⟨jobId, rfl⟩
    intro cell hget hkind
    obtain ⟨id, body, revision, groupId⟩ := cell
    cases body with
    | subagent => exact hother _ _ _ _ _ _ _ _ _ hget
    | _ => cases hkind

theorem requestApproval_isSome {requestId title : Text} {preview : Option Text} :
    (state.requestApproval event requestId title preview).isSome = true := by
  rw [requestApproval]
  split
  next hget => exact replace_isSome hsound hget (hsound.get_eq_some.mp hget).2
  next hother =>
    apply append_isSome hsound
    apply fresh_of_kind hsound hnamed .approval mem_cons_self ⟨requestId, rfl⟩
    intro cell hget hkind
    obtain ⟨id, body, revision, groupId⟩ := cell
    cases body with
    | approval => exact hother _ _ _ _ _ _ _ _ _ _ _ _ hget
    | _ => cases hkind

theorem resolveApproval_isSome {requestId : Text} {approved : Bool}
    {reason mode grantLabel : Option Text} {releasedCount : ℤ} {source : Option Text} :
    (state.resolveApproval event requestId approved reason mode grantLabel releasedCount
      source).isSome = true := by
  rw [resolveApproval]
  split
  next hget => exact replace_isSome hsound hget (hsound.get_eq_some.mp hget).2
  next hother =>
    apply append_isSome hsound
    apply fresh_of_kind hsound hnamed .approval mem_cons_self ⟨requestId, rfl⟩
    intro cell hget hkind
    obtain ⟨id, body, revision, groupId⟩ := cell
    cases body with
    | approval => exact hother _ _ _ _ _ _ _ _ _ _ _ _ hget
    | _ => cases hkind

theorem showOutcome_isSome (event : RuntimeEvent) (toolCallId toolName : Text)
    (outcome : ToolOutcome) :
    (state.showOutcome event toolCallId toolName outcome).isSome = true := by
  rw [showOutcome]
  split
  next hget => exact replace_isSome hsound hget (hsound.get_eq_some.mp hget).2
  next hother =>
    apply append_isSome hsound
    apply fresh_of_kind hsound hnamed .tool mem_cons_self ⟨toolCallId, rfl⟩
    intro cell hget hkind
    obtain ⟨id, body, revision, groupId⟩ := cell
    cases body with
    | tool => exact hother _ _ _ _ _ _ _ _ _ _ hget
    | _ => cases hkind

theorem diagnostics_isSome {batchId filePath : Text} {documentVersion : ℤ}
    {diagnostics : List RuntimeDiagnostic} :
    (state.publishDiagnostics event batchId filePath documentVersion generation
      diagnostics).isSome = true := by
  rw [publishDiagnostics]
  split
  next hget => exact replace_isSome hsound hget (hsound.get_eq_some.mp hget).2
  next hother =>
    apply append_isSome hsound
    have hword : HasWord (lit "diagnostic")
        (lit "diagnostic:" ++ orDefault event.agentId (lit "unknown") ++ lit ":" ++ filePath) := by
      refine ⟨orDefault event.agentId (lit "unknown") ++ lit ":" ++ filePath, ?_⟩
      rw [← append_assoc, ← append_assoc]
      rfl
    apply fresh_of_kind hsound hnamed .diagnostic mem_cons_self hword
    intro cell hget hkind
    obtain ⟨id, body, revision, groupId⟩ := cell
    cases body with
    | diagnostic => exact hother _ _ _ _ _ _ _ _ hget
    | _ => cases hkind

theorem recordDiff_isSome (event : RuntimeEvent) (toolCallId : Text) (outcome : ToolOutcome) :
    (state.recordDiff event toolCallId outcome).isSome = true := by
  rw [recordDiff]
  split
  next => rfl
  next =>
    split
    next => rfl
    next =>
      split
      next => rfl
      next =>
        dsimp only
        split
        next hget => exact replace_isSome hsound hget (hsound.get_eq_some.mp hget).2
        next hother =>
          apply append_isSome hsound
          apply fresh_of_kind hsound hnamed .diff mem_cons_self ⟨toolCallId, rfl⟩
          intro cell hget hkind
          obtain ⟨id, body, revision, groupId⟩ := cell
          cases body with
          | diff => exact hother _ _ _ _ _ hget
          | _ => cases hkind

theorem finishTool_isSome
    (hpayload : event.payload = .toolCallFinished toolCallId toolName outcome) :
    (state.finishTool event toolCallId toolName outcome).isSome = true := by
  obtain ⟨⟨shown, earlier⟩, hshown⟩ := Option.isSome_iff_exists.mp
    (showOutcome_isSome hsound hnamed event toolCallId toolName outcome)
  have hsteps : Steps event state.transcript False state.transcript earlier shown.transcript :=
    steps_showOutcome hpayload hsound False.elim hshown
  have hshownNamed : ∀ cell ∈ shown.transcript.cells, cell.Named := hsteps.named hsound hnamed
  obtain ⟨⟨recorded, more⟩, hrecorded⟩ := Option.isSome_iff_exists.mp
    (recordDiff_isSome (hsteps.sound hsound) hshownNamed event toolCallId outcome)
  rw [finishTool, hshown, Option.bind_eq_bind, Option.bind_some]
  dsimp only
  rw [hrecorded]
  rfl

end Success

/-- An event that the transcript accepts raises nothing. -/
theorem reduce_isSome (hsound : state.transcript.Sound)
    (hnamed : ∀ cell ∈ state.transcript.cells, cell.Named)
    (hnew : event.payload.isTransient = false → ∀ word ∈ eventWords,
      word ++ lit ":" ++ event.eventId ∉ cellIds state.transcript.cells)
    (haccepts : state.Accepts event) : (state.reduce event maxChars).isSome = true := by
  rw [reduce]
  unfold Accepts at haccepts
  split
  next hpayload =>
    rw [hpayload] at haccepts
    exact startTurn_isSome hsound haccepts
  next hpayload =>
    rw [hpayload] at haccepts
    exact startTurn_isSome hsound haccepts
  next hpayload =>
    exact append_isSome hsound (hnew (by rw [hpayload]; rfl) (lit "user-steer") (by decide))
  next hpayload =>
    rw [hpayload] at haccepts
    exact appendStream_isSome hsound haccepts
  next => exact interrupt_isSome hsound
  next => rfl
  next hpayload =>
    split
    next => rfl
    next hreasoning =>
      rw [Bool.not_eq_true] at hreasoning
      rw [hpayload, hreasoning] at haccepts
      exact appendStream_isSome hsound haccepts
  next hpayload =>
    rw [hpayload] at haccepts
    rw [finishTurn, Option.isSome_map]
    exact completeChat_isSome hsound haccepts
  next hpayload =>
    rw [hpayload] at haccepts
    rw [finishTurn, Option.isSome_map]
    exact completeChat_isSome hsound haccepts
  next hpayload =>
    rw [hpayload] at haccepts
    exact startTool_isSome hsound haccepts
  next hpayload => exact finishTool_isSome hsound hnamed hpayload
  next => exact toolOutput_isSome hsound hnamed
  next => exact subagent_isSome hsound hnamed
  next hpayload =>
    exact append_isSome hsound (hnew (by rw [hpayload]; rfl) (lit "notice") (by decide))
  next hpayload =>
    exact append_isSome hsound (hnew (by rw [hpayload]; rfl) (lit "notice") (by decide))
  next => exact diagnostics_isSome hsound hnamed
  next => exact diagnostics_isSome hsound hnamed
  next => exact requestApproval_isSome hsound hnamed
  next => exact resolveApproval_isSome hsound hnamed
  all_goals rfl

/-- A stream's event is accepted, or it is passed over. -/
def AcceptsNext (state : RuntimeViewState) (event : RuntimeEvent) : Prop :=
  (state.admitted event).isSome = true → state.Accepts event

theorem Consistent.apply_isSome (maxChars : ℤ) (hconsistent : state.Consistent)
    (haccepts : state.AcceptsNext event) : (state.apply event maxChars).isSome = true := by
  cases hadmitted : state.admitted event with
  | none =>
      obtain ⟨seen, generations, -, hpassed⟩ := apply_passedOver maxChars hadmitted
      rw [hpassed]
      rfl
  | some current =>
      have haccepted := haccepts (Option.isSome_of_eq_some hadmitted)
      rw [apply_admitted hadmitted]
      obtain ⟨seen, generations, rfl, -, hcontrol⟩ := admitted_spec hadmitted
      apply reduce_isSome
      · exact hconsistent.sound
      · exact hconsistent.named
      · intro htransient word hword htaken
        obtain ⟨cell, hcell, hid⟩ := mem_map.mp htaken
        have hshared : HasWord word cell.id := ⟨event.eventId, hid⟩
        obtain ⟨eventId, hseen, hsame⟩ := hconsistent.eventIds cell hcell word hword hshared
        have heventId : eventId = event.eventId :=
          append_cancel_left (hsame.symm.trans hid)
        rw [heventId] at hseen
        exact (hcontrol htransient).1 hseen
      · exact haccepted

/-! ## Outcomes -/

/-- Whatever outcome a cell had, it has as long as it is shown. -/
def KeepsOutcomes (first last : TranscriptModel) : Prop :=
  ∀ earlier ∈ first.cells, ∀ cell ∈ last.cells, cell.id = earlier.id →
    earlier.body.outcome.isSome = true → cell.body.outcome = earlier.body.outcome

theorem outcome_kind {body : CellBody} (houtcome : body.outcome.isSome = true) :
    body.kind = .tool := by
  cases body with
  | tool => rfl
  | _ => cases houtcome

theorem Consistent.apply_outcomes (hconsistent : state.Consistent)
    (haccepts : state.AcceptsNext event)
    (happly : state.apply event maxChars = some (later, changes)) :
    KeepsOutcomes state.transcript later.transcript := by
  have hunique : ∀ earlier ∈ state.transcript.cells, ∀ cell ∈ state.transcript.cells,
      cell.id = earlier.id → cell = earlier := by
    intro earlier hearlier cell hcell hid
    exact inj_on_of_nodup_map hconsistent.sound.ids hcell hearlier hid
  cases hadmitted : state.admitted event with
  | none =>
      obtain ⟨seen, generations, -, hpassed⟩ := apply_passedOver maxChars hadmitted
      rw [hpassed] at happly
      cases happly
      intro earlier hearlier cell hcell hid _
      rw [hunique earlier hearlier cell hcell hid]
  | some current =>
      have haccepted := haccepts (Option.isSome_of_eq_some hadmitted)
      have hsteps : Steps event state.transcript False state.transcript changes later.transcript :=
        apply_steps hconsistent.sound hadmitted False.elim happly
      intro earlier hearlier
      apply Steps.forall_cells
        (fun cell => cell.id = earlier.id → earlier.body.outcome.isSome = true →
          cell.body.outcome = earlier.body.outcome) _ _ hsteps hconsistent.sound
      · intro cell hcell hid _
        rw [hunique earlier hearlier cell hcell hid]
      · intro cell hadds hid houtcome
        exfalso
        have hkind : cell.body.kind = .tool := by
          obtain ⟨word, hword, hshared⟩ := hconsistent.named earlier hearlier
          rw [outcome_kind houtcome] at hword
          rw [← hid] at hshared
          exact hadds.named.kind_eq hword hshared
        apply hadds.fresh hkind
        rw [hid]
        exact mem_map_of_mem hearlier
      · intro previous cell hrevises hprevious hid houtcome
        have hearlierId : previous.id = earlier.id := hrevises.id.symm.trans hid
        cases hrevises.outcome with
        | inl hsame => exact hsame.trans (hprevious hearlierId houtcome)
        | inr hfinished =>
            exfalso
            obtain ⟨toolCallId, toolName, outcome, hpayload, hcallId⟩ := hfinished
            rw [Accepts, hpayload] at haccepted
            have hget : state.transcript.get (lit "tool:" ++ toolCallId) = some earlier :=
              hconsistent.sound.get_eq_some.mpr ⟨hearlier, hearlierId.symm.trans hcallId⟩
            rw [haccepted earlier hget] at houtcome
            cases houtcome

/-! ## Runs -/

/-- A run that has not raised is in a consistent state with the limits it began with. -/
def Runs (start : RuntimeViewState) (found : Option RuntimeViewState) : Prop :=
  ∃ state, found = some state ∧ state.Consistent ∧
    state.transcript.maxCells = start.transcript.maxCells ∧
    state.transcript.maxTextChars = start.transcript.maxTextChars

theorem Runs.next {start : RuntimeViewState} {found : Option RuntimeViewState}
    (hruns : Runs start found) (haccepts : ∀ state, found = some state → state.AcceptsNext event) :
    Runs start (next maxChars found event) := by
  obtain ⟨state, rfl, hconsistent, hcells, htext⟩ := hruns
  obtain ⟨⟨later, changes⟩, happly⟩ := Option.isSome_iff_exists.mp
    (hconsistent.apply_isSome maxChars (haccepts state rfl))
  obtain ⟨hlater, hlaterCells, hlaterText⟩ := hconsistent.apply happly
  refine ⟨later, ?_, hlater, hlaterCells.trans hcells, hlaterText.trans htext⟩
  rw [RuntimeViewState.next, Option.bind_eq_bind, Option.bind_some, happly]
  rfl

/-- A stream whose events are accepted raises nowhere, the transcript stays sound, and no
recorded outcome changes. -/
theorem streams_accepted (maxChars : ℤ) (start : RuntimeViewState) (hstart : start.IsNew)
    (events : List RuntimeEvent)
    (hmeets : Transition.Meets (next maxChars)
      (fun found event => ∀ state, found = some state → state.AcceptsNext event)
      (some start) events) :
    ∀ before after, events = before ++ after →
      ∃ state, run maxChars start before = some state ∧ state.transcript.Sound ∧
        state.transcript.maxCells = start.transcript.maxCells ∧
        state.transcript.maxTextChars = start.transcript.maxTextChars ∧
        ∀ event rest, after = event :: rest →
          ∃ later changes, state.apply event maxChars = some (later, changes) ∧
            run maxChars start (before ++ [event]) = some later ∧
            KeepsOutcomes state.transcript later.transcript := by
  intro before after hevents
  rw [hevents, Transition.meets_append] at hmeets
  obtain ⟨hbefore, hafter⟩ := hmeets
  have hruns : Runs start (run maxChars start before) :=
    Transition.invariant_foldl (Runs start) (fun _ _ hruns haccepts => hruns.next haccepts)
      ⟨start, rfl, hstart.consistent, rfl, rfl⟩ hbefore
  obtain ⟨state, hstate, hconsistent, hcells, htext⟩ := hruns
  refine ⟨state, hstate, hconsistent.sound, hcells, htext, ?_⟩
  intro event rest hrest
  rw [hrest] at hafter
  have haccepts : state.AcceptsNext event := hafter.1 state hstate
  obtain ⟨⟨later, changes⟩, happly⟩ := Option.isSome_iff_exists.mp
    (hconsistent.apply_isSome maxChars haccepts)
  refine ⟨later, changes, happly, ?_, hconsistent.apply_outcomes haccepts happly⟩
  rw [run, foldl_append, ← run, hstate, foldl_cons, foldl_nil, next,
    Option.bind_eq_bind, Option.bind_some, happly]
  rfl

/-- A tool call that starts and ends. -/
theorem streams_accepted_call :
    let started : RuntimeEvent := ⟨.toolCallStarted (lit "a") (lit "shell") [], lit "1",
      none, none, none, none⟩
    let finished : RuntimeEvent := ⟨.toolCallFinished (lit "a") (lit "shell") {}, lit "2",
      none, none, none, none⟩
    ∃ state, run 1200 {} [started, finished] = some state ∧ state.transcript.Sound := by
  intro started finished
  have hmeets : Transition.Meets (next 1200)
      (fun found event => ∀ state, found = some state → state.AcceptsNext event)
      (some {}) [started, finished] := by
    refine ⟨?_, ?_, trivial⟩
    · intro state hstate _
      cases hstate
      exact not_mem_nil
    · intro state hstate _ cell hget
      cases hstate
      cases hget
      rfl
  obtain ⟨state, hstate, hsound, -⟩ :=
    streams_accepted 1200 {} ⟨rfl, rfl, rfl⟩ [started, finished] hmeets [started, finished] [] rfl
  exact ⟨state, hstate, hsound⟩

/-- Output before the start of its tool call: the start raises. -/
theorem run_outputFirst :
    ¬∀ events, (run 1200 {} events).isSome = true := by
  intro hall
  have houtput := hall
    [⟨.toolOutputDelta (lit "a") (lit "x"), lit "1", none, none, none, none⟩,
      ⟨.toolCallStarted (lit "a") (lit "shell") [], lit "2", none, none, none, none⟩]
  revert houtput
  decide

/-! ## Whatever the events -/

theorem meets_true (maxChars : ℤ) (found : Option RuntimeViewState) (events : List RuntimeEvent) :
    Transition.Meets (next maxChars) (fun _ _ => True) found events :=
  Transition.meets_of_forall_mem (fun _ _ => trivial) found

/-- What a step of a run is, where it raises nothing. -/
theorem next_eq_some {found : Option RuntimeViewState}
    (hnext : next maxChars found event = some later) :
    ∃ earlier changes, found = some earlier ∧
      earlier.apply event maxChars = some (later, changes) := by
  obtain ⟨earlier, hearlier, hrest⟩ := Option.bind_eq_some_iff.mp hnext
  obtain ⟨⟨reached, changes⟩, happly, hsame⟩ := Option.bind_eq_some_iff.mp hrest
  cases hsame
  exact ⟨earlier, changes, hearlier, happly⟩

/-- Whatever its events are, a stream that has raised nowhere leaves the transcript sound and
within the limits it began with. -/
theorem streams_sound (maxChars : ℤ) (start : RuntimeViewState) (hstart : start.IsNew)
    (events : List RuntimeEvent) (reached : RuntimeViewState)
    (hrun : run maxChars start events = some reached) :
    reached.transcript.Sound ∧
      reached.transcript.maxCells = start.transcript.maxCells ∧
      reached.transcript.maxTextChars = start.transcript.maxTextChars := by
  have hinvariant : ∀ state, run maxChars start events = some state →
      Runs start (some state) := by
    apply Transition.invariant_foldl
      (fun found => ∀ state, found = some state → Runs start (some state)) ?_ ?_
      (meets_true maxChars _ events)
    · intro found event hfound _ later hnext
      obtain ⟨earlier, changes, hearlier, happly⟩ := next_eq_some hnext
      obtain ⟨state, hstate, hconsistent, hcells, htext⟩ := hfound earlier hearlier
      cases hstate
      obtain ⟨hlater, hlaterCells, hlaterText⟩ := hconsistent.apply happly
      exact ⟨later, rfl, hlater, hlaterCells.trans hcells, hlaterText.trans htext⟩
    · intro state hstate
      cases hstate
      exact ⟨start, rfl, hstart.consistent, rfl, rfl⟩
  obtain ⟨state, hstate, hconsistent, hlimits⟩ := hinvariant reached hrun
  cases hstate
  exact ⟨hconsistent.sound, hlimits⟩

/-- A streamed answer. -/
theorem streams_sound_delta :
    let delta : RuntimeEvent := ⟨.assistantContentDelta (lit "a"), lit "1", none, none, none, none⟩
    ∃ reached, run 1200 {} [delta, delta] = some reached ∧ reached.transcript.Sound := by
  intro delta
  exact ⟨_, rfl, (streams_sound 1200 {} ⟨rfl, rfl, rfl⟩ [delta, delta] _ rfl).1⟩

/-- The events that were seen stay seen, and this one is. -/
theorem apply_seen (happly : state.apply event maxChars = some (later, changes)) :
    state.seenEventIds ⊆ later.seenEventIds ∧
      (event.payload.isTransient = false → event.eventId ∈ later.seenEventIds) := by
  cases hnoted : state.noteSeen event with
  | none =>
      rw [RuntimeViewState.apply, hnoted] at happly
      cases happly
      refine ⟨List.Subset.refl _, fun hcontrol => ?_⟩
      rw [noteSeen, hcontrol, if_neg Bool.false_ne_true] at hnoted
      by_contra hnew
      rw [if_neg hnew] at hnoted
      cases hnoted
  | some noted =>
      obtain ⟨seen, hseenNoted, hseen, hcontrol⟩ := noteSeen_spec hnoted
      obtain ⟨generations, hgenerations⟩ := isStaleGeneration_spec noted event
      have hlater : later.seenEventIds = seen := by
        rw [RuntimeViewState.apply, hnoted] at happly
        dsimp only at happly
        cases hstale : noted.isStaleGeneration event with
        | mk stale found =>
            rw [hstale] at happly hgenerations
            dsimp only at hgenerations
            have hfound : found.seenEventIds = seen := by rw [hgenerations, hseenNoted]
            cases stale with
            | true =>
                cases happly
                exact hfound
            | false => exact (congrArg Prod.fst (reduce_gate happly)).trans hfound
      rw [hlater]
      exact ⟨hseen, fun htransient => (hcontrol htransient).2⟩

/-- An event that is not transient has its effect once: behind it, wherever in a stream, an
event with its id that is not transient either changes nothing. -/
theorem streams_repeated (maxChars : ℤ) (start reached : RuntimeViewState)
    (before after : List RuntimeEvent) (event again : RuntimeEvent)
    (hcontrol : event.payload.isTransient = false)
    (hagain : again.payload.isTransient = false) (hsame : again.eventId = event.eventId)
    (hrun : run maxChars start (before ++ event :: after) = some reached) :
    reached.apply again maxChars = some (reached, []) := by
  have hseen : event.eventId ∈ reached.seenEventIds := by
    rw [run, foldl_append, foldl_cons] at hrun
    apply Transition.invariant_foldl
      (fun found => ∀ state, found = some state → event.eventId ∈ state.seenEventIds) ?_ ?_
      (meets_true maxChars _ after) reached hrun
    · intro found other hfound _ later hnext
      obtain ⟨earlier, changes, hearlier, happly⟩ := next_eq_some hnext
      exact (apply_seen happly).1 (hfound earlier hearlier)
    · intro later hnext
      obtain ⟨earlier, changes, -, happly⟩ := next_eq_some hnext
      exact (apply_seen happly).2 hcontrol
  have hnone : reached.noteSeen again = none := by
    rw [noteSeen, hagain, if_neg Bool.false_ne_true, hsame, if_pos hseen]
  rw [RuntimeViewState.apply, hnone]

/-- An error that is told again after the answer went on and a notice came in. -/
theorem streams_repeated_error :
    let error : RuntimeEvent := ⟨.errorOccurred (lit "x"), lit "1", none, none, none, none⟩
    let again : RuntimeEvent := ⟨.errorOccurred (lit "y"), lit "1", some (lit "m"), none, none, none⟩
    let before : List RuntimeEvent :=
      [⟨.assistantContentDelta (lit "a"), lit "2", some (lit "m"), none, none, none⟩]
    let after : List RuntimeEvent :=
      [⟨.assistantContentDelta (lit "b"), lit "3", some (lit "m"), none, none, none⟩,
        ⟨.userSteeringApplied (lit "go on"), lit "4", some (lit "m"), none, none, none⟩]
    ∃ reached, run 1200 {} (before ++ error :: after) = some reached ∧
      reached.apply again 1200 = some (reached, []) := by
  intro error again before after
  exact ⟨_, rfl, streams_repeated 1200 {} _ before after error again rfl rfl rfl rfl⟩

/-! ## Generations -/

/-- The view has seen a generation of the agent's session that is not below this one. -/
def Newest (state : RuntimeViewState) (session : Text × Option Text) (generation : ℤ) : Prop :=
  ∃ current, state.sessionGenerations session = some current ∧ generation ≤ current

variable {session : Text × Option Text}

theorem isStaleGeneration_newest (hnewest : state.Newest session generation)
    (event : RuntimeEvent) : (state.isStaleGeneration event).2.Newest session generation := by
  obtain ⟨current, hcurrent, hle⟩ := hnewest
  rw [isStaleGeneration]
  split
  next agentId found _ _ =>
    dsimp only
    split
    next newest hsession =>
      split
      next => exact ⟨current, hcurrent, hle⟩
      next =>
        split
        next hlater =>
          by_cases hsame : session = (agentId, event.sessionId)
          · rw [hsame, hsession] at hcurrent
            cases hcurrent
            rw [hsame]
            exact ⟨found, Function.update_self .., hle.trans hlater.le⟩
          · refine ⟨current, ?_, hle⟩
            exact (Function.update_of_ne hsame _ _).trans hcurrent
        next => exact ⟨current, hcurrent, hle⟩
    next hsession =>
      have hother : session ≠ (agentId, event.sessionId) := by
        intro hsame
        rw [hsame, hsession] at hcurrent
        cases hcurrent
      exact ⟨current, (Function.update_of_ne hother _ _).trans hcurrent, hle⟩
  next => exact ⟨current, hcurrent, hle⟩

/-- An event that is looked at leaves its own generation seen. -/
theorem isStaleGeneration_reaches {agentId : Text} (hagent : event.agentId = some agentId)
    (hgeneration : event.sessionGeneration = some generation) (state : RuntimeViewState) :
    (state.isStaleGeneration event).2.Newest (agentId, event.sessionId) generation := by
  rw [isStaleGeneration, hagent, hgeneration]
  dsimp only
  split
  next newest hsession =>
    split
    next holder => exact ⟨newest, hsession, holder.le⟩
    next hcurrent =>
      split
      next => exact ⟨generation, Function.update_self .., le_refl generation⟩
      next hsame => exact ⟨newest, hsession, not_lt.mp hsame⟩
  next => exact ⟨generation, Function.update_self .., le_refl generation⟩

/-- An event of an older generation is stale. -/
theorem isStaleGeneration_older {agentId : Text} {older : ℤ} (hagent : event.agentId = some agentId)
    (holder : event.sessionGeneration = some older)
    (hnewest : state.Newest (agentId, event.sessionId) generation) (hless : older < generation) :
    state.isStaleGeneration event = (true, state) := by
  obtain ⟨current, hcurrent, hle⟩ := hnewest
  rw [isStaleGeneration, hagent, holder]
  dsimp only
  rw [hcurrent]
  dsimp only
  rw [if_pos (hless.trans_le hle)]

/-- What an event that was not seen before makes of the generations. -/
theorem apply_newest {noted : RuntimeViewState} (hnoted : state.noteSeen event = some noted)
    (hnewest : (noted.isStaleGeneration event).2.Newest session generation)
    (happly : state.apply event maxChars = some (later, changes)) :
    later.Newest session generation := by
  rw [RuntimeViewState.apply, hnoted] at happly
  dsimp only at happly
  cases hstale : noted.isStaleGeneration event with
  | mk stale found =>
      rw [hstale] at happly hnewest
      cases stale with
      | true =>
          cases happly
          exact hnewest
      | false =>
          have hgate := congrArg Prod.snd (reduce_gate happly)
          rw [Newest]
          change ∃ current, later.gate.2 session = some current ∧ _
          rw [show later.gate.2 = found.gate.2 from hgate]
          exact hnewest

/-- The generations that were seen stay seen. -/
theorem Newest.apply (hnewest : state.Newest session generation)
    (happly : state.apply event maxChars = some (later, changes)) :
    later.Newest session generation := by
  cases hnoted : state.noteSeen event with
  | none =>
      rw [RuntimeViewState.apply, hnoted] at happly
      cases happly
      exact hnewest
  | some noted =>
      have hkept : noted.Newest session generation := by
        obtain ⟨seen, rfl, -, -⟩ := noteSeen_spec hnoted
        exact hnewest
      exact apply_newest hnoted (isStaleGeneration_newest hkept event) happly

/-- Once an event of a generation was not passed over as seen, no event of an older generation
of that agent's session changes what is shown, wherever in a stream it comes. -/
theorem streams_stale (maxChars : ℤ) (start reached : RuntimeViewState)
    (before after : List RuntimeEvent) (event stale : RuntimeEvent) (agentId : Text)
    (generation older : ℤ) (hagent : event.agentId = some agentId)
    (hgeneration : event.sessionGeneration = some generation)
    (hnew : ∀ state, run maxChars start before = some state →
      (state.noteSeen event).isSome = true)
    (hstaleAgent : stale.agentId = some agentId) (hsession : stale.sessionId = event.sessionId)
    (hstale : stale.sessionGeneration = some older) (holder : older < generation)
    (hrun : run maxChars start (before ++ event :: after) = some reached) :
    ∃ seen, reached.apply stale maxChars = some ({ reached with seenEventIds := seen }, []) := by
  have hnewest : reached.Newest (agentId, event.sessionId) generation := by
    rw [run, foldl_append, foldl_cons] at hrun
    apply Transition.invariant_foldl
      (fun found => ∀ state, found = some state →
        state.Newest (agentId, event.sessionId) generation) ?_ ?_
      (meets_true maxChars _ after) reached hrun
    · intro found other hfound _ later hnext
      obtain ⟨earlier, changes, hearlier, happly⟩ := next_eq_some hnext
      exact (hfound earlier hearlier).apply happly
    · intro later hnext
      obtain ⟨earlier, changes, hearlier, happly⟩ := next_eq_some hnext
      obtain ⟨noted, hnoted⟩ := Option.isSome_iff_exists.mp (hnew earlier hearlier)
      exact apply_newest hnoted (isStaleGeneration_reaches hagent hgeneration noted) happly
  rw [RuntimeViewState.apply]
  cases hnoted : reached.noteSeen stale with
  | none => exact ⟨reached.seenEventIds, rfl⟩
  | some noted =>
      obtain ⟨seen, rfl, -, -⟩ := noteSeen_spec hnoted
      have hpassed : RuntimeViewState.isStaleGeneration { reached with seenEventIds := seen } stale
          = (true, { reached with seenEventIds := seen }) := by
        apply isStaleGeneration_older hstaleAgent hstale _ holder
        rw [hsession]
        exact hnewest
      dsimp only
      rw [hpassed]
      exact ⟨seen, rfl⟩

/-- A delta of the generation before, told when the newer generation has gone on. -/
theorem streams_stale_delta :
    let delta (text id : String) (generation : ℤ) : RuntimeEvent :=
      ⟨.assistantContentDelta (lit text), lit id, some (lit "m"), some generation, none, none⟩
    let before := [delta "a" "1" 1]
    let after : List RuntimeEvent := [delta "c" "3" 2, ⟨.errorOccurred (lit "x"), lit "4", none,
      none, none, none⟩]
    ∃ reached seen, run 1200 {} (before ++ delta "b" "2" 2 :: after) = some reached ∧
      reached.apply (delta "d" "5" 1) 1200 = some ({ reached with seenEventIds := seen }, []) := by
  intro delta before after
  have hnew : ∀ state, run 1200 {} before = some state →
      (state.noteSeen (delta "b" "2" 2)).isSome = true := by
    intro state _
    rfl
  obtain ⟨seen, hseen⟩ := streams_stale 1200 {} _ before after (delta "b" "2" 2)
    (delta "d" "5" 1) (lit "m") 2 1 rfl rfl hnew rfl rfl rfl (by decide) rfl
  exact ⟨_, seen, rfl, hseen⟩

end RuntimeViewState

end ReuleauxCoder.Presentation
