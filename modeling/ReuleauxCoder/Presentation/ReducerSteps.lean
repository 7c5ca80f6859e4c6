import ReuleauxCoder.Presentation.Reducer

/-!
# What an event does to the transcript

An event adds cells and changes cells, each at its place.  The id of a cell begins with a word
for its kind, so that a cell that is found under an id of some kind is of that kind.
-/

namespace ReuleauxCoder.Presentation

open PyText PyJson Tools List

/-! ## Kinds of cells -/

inductive CellKind where
  | user
  | assistant
  | tool
  | diff
  | diagnostic
  | subagent
  | notice
  | approval
  deriving DecidableEq

def CellBody.kind : CellBody → CellKind
  | .user _ => .user
  | .assistant .. => .assistant
  | .tool .. => .tool
  | .diff .. => .diff
  | .diagnostic .. => .diagnostic
  | .subagent .. => .subagent
  | .notice .. => .notice
  | .approval .. => .approval

/-- The words with which the ids of a kind begin. -/
def CellKind.words : CellKind → List Text
  | .user => [lit "user", lit "user-steer"]
  | .assistant => [lit "assistant"]
  | .tool => [lit "tool"]
  | .diff => [lit "diff"]
  | .diagnostic => [lit "diagnostic"]
  | .subagent => [lit "subagent"]
  | .notice => [lit "notice"]
  | .approval => [lit "approval"]

def HasWord (word id : Text) : Prop :=
  ∃ rest, id = word ++ lit ":" ++ rest

/-- The id of a cell begins with a word for its kind. -/
def TranscriptCell.Named (cell : TranscriptCell) : Prop :=
  ∃ word ∈ cell.body.kind.words, HasWord word cell.id

def isWordPart (c : CodePoint) : Bool :=
  c ≠ ofChar ':'

def idWord (id : Text) : Text :=
  id.takeWhile isWordPart

theorem idWord_words : ∀ kind : CellKind, ∀ word ∈ kind.words,
    idWord word = word ∧ word ≠ [] := by
  intro kind word hword
  cases kind <;> revert word <;> decide

variable {word : Text}

theorem HasWord.idWord_eq {kind : CellKind} {id : Text} (hkind : word ∈ kind.words)
    (hword : HasWord word id) : idWord id = word := by
  obtain ⟨rest, rfl⟩ := hword
  have hclean := (idWord_words kind word hkind).1
  rw [append_assoc, idWord, takeWhile_append_of_pos]
  · simp [lit, isWordPart]
  · intro c hc
    rw [← hclean, idWord] at hc
    exact mem_takeWhile_imp hc

/-- No two kinds have a word in common. -/
theorem kind_of_words : ∀ first second : CellKind, ∀ word ∈ first.words,
    word ∈ second.words → first = second := by
  intro first second
  cases first <;> cases second <;> decide

theorem TranscriptCell.Named.kind_eq {cell : TranscriptCell} (hnamed : cell.Named) {kind : CellKind}
    (hkind : word ∈ kind.words) (hword : HasWord word cell.id) : cell.body.kind = kind := by
  obtain ⟨other, hother, hshared⟩ := hnamed
  have hsame : other = word := (hshared.idWord_eq hother).symm.trans (hword.idWord_eq hkind)
  rw [hsame] at hother
  exact kind_of_words _ _ word hother hkind

theorem HasWord.word_eq {first second : CellKind} {other id : Text} (hfirst : word ∈ first.words)
    (hsecond : other ∈ second.words) (hword : HasWord word id) (hother : HasWord other id) :
    word = other :=
  (hword.idWord_eq hfirst).symm.trans (hother.idWord_eq hsecond)

/-! ## Steps -/

def CellBody.outcome : CellBody → Option ToolOutcome
  | .tool _ _ _ _ _ outcome _ => outcome
  | _ => none

/-- The ids that an event makes from its own id. -/
def eventWords : List Text :=
  [lit "notice", lit "user-steer"]

/-- A cell that an event adds, with an id of its kind; the cell of a tool call was not in the
transcript before the event. -/
structure Adds (event : RuntimeEvent) (before : TranscriptModel) (cell : TranscriptCell) :
    Prop where
  named : cell.Named
  eventId : ∀ word ∈ eventWords, HasWord word cell.id →
    cell.id = word ++ lit ":" ++ event.eventId ∧ event.payload.isTransient = false
  fresh : cell.body.kind = .tool → cell.id ∉ cellIds before.cells

/-- A cell that an event puts in the place of another one; only the end of a tool call changes
an outcome. -/
structure Revises (event : RuntimeEvent) (previous cell : TranscriptCell) : Prop where
  id : cell.id = previous.id
  kind : cell.body.kind = previous.body.kind
  outcome : cell.body.outcome = previous.body.outcome ∨
    ∃ toolCallId toolName outcome,
      event.payload = .toolCallFinished toolCallId toolName outcome ∧
        previous.id = lit "tool:" ++ toolCallId

/-- The cells that an event adds and changes, one after the other, and the changes that the
reducer returns: all of them but those that complete an assistant cell.  Where everything is
told, there are none of these, and no cell is dropped for one that changes. -/
inductive Steps (event : RuntimeEvent) (before : TranscriptModel) (told : Prop) :
    TranscriptModel → List PresentationChange → TranscriptModel → Prop
  | done (transcript : TranscriptModel) : Steps event before told transcript [] transcript
  | append {transcript kept last : TranscriptModel} {cell : TranscriptCell}
      {evicted : List TranscriptCell} {changes : List PresentationChange}
      (hadds : Adds event before cell) (happend : transcript.append cell = some (kept, evicted))
      (hrest : Steps event before told kept changes last) :
      Steps event before told transcript (.append cell :: evicted.map .evict ++ changes) last
  | update {transcript kept last : TranscriptModel} {previous cell : TranscriptCell}
      {changes : List PresentationChange} (hget : transcript.get cell.id = some previous)
      (hrevises : Revises event previous cell) (hfits : told → transcript.Fits previous cell)
      (hreplace : transcript.replace cell = some (kept, previous))
      (hrest : Steps event before told kept changes last) :
      Steps event before told transcript (.update cell previous :: changes) last
  | complete {transcript kept last : TranscriptModel} {previous : TranscriptCell} {text : Text}
      {interrupted : Bool} {changes : List PresentationChange} (hsilent : ¬told)
      (hopen : previous.body = .assistant text false interrupted)
      (hget : transcript.get previous.id = some previous)
      (hreplace : transcript.replace (nextRevision previous (.assistant text true interrupted)) =
        some (kept, previous))
      (hrest : Steps event before told kept changes last) :
      Steps event before told transcript changes last

theorem eventWords_kinds : ∀ word ∈ eventWords,
    word ∈ CellKind.notice.words ∨ word ∈ CellKind.user.words := by
  decide

theorem Adds.of_word {event : RuntimeEvent} {before : TranscriptModel} {cell : TranscriptCell}
    (word : Text) (hword : word ∈ cell.body.kind.words) (hid : HasWord word cell.id)
    (hother : word ∉ eventWords)
    (hfresh : cell.body.kind = .tool → cell.id ∉ cellIds before.cells) :
    Adds event before cell where
  fresh := hfresh
  named := ⟨word, hword, hid⟩
  eventId := by
    intro other hevent hshared
    exfalso
    apply hother
    cases eventWords_kinds other hevent with
    | inl hnotice => exact HasWord.word_eq hword hnotice hid hshared ▸ hevent
    | inr huser => exact HasWord.word_eq hword huser hid hshared ▸ hevent

variable {previous : TranscriptCell}

variable {complete interrupted : Bool} {text : Text}

theorem revises_assistant (event : RuntimeEvent) {shown : Text} {earlier : Bool}
    (hbody : previous.body = .assistant text false earlier) :
    Revises event previous (nextRevision previous (.assistant shown complete interrupted)) where
  id := rfl
  kind := by
    rw [hbody]
    rfl
  outcome := by
    rw [hbody]
    exact .inl rfl

namespace Steps

variable {event : RuntimeEvent} {before first second last : TranscriptModel} {told : Prop}
  {changes more : List PresentationChange}

theorem trans (hsteps : Steps event before told first changes second)
    (hmore : Steps event before told second more last) :
    Steps event before told first (changes ++ more) last := by
  induction hsteps with
  | done => exact hmore
  | append hadds happend _ ih =>
      rw [append_assoc]
      exact .append hadds happend (ih hmore)
  | update hget hrevises hfits hreplace _ ih =>
      exact .update hget hrevises hfits hreplace (ih hmore)
  | complete hsilent hopen hget hreplace _ ih =>
      exact .complete hsilent hopen hget hreplace (ih hmore)

theorem sound (hsteps : Steps event before told first changes second)
    (hsound : first.Sound) : second.Sound := by
  induction hsteps with
  | done => exact hsound
  | append _ happend _ ih =>
      obtain ⟨-, -, -, -, hkept⟩ := hsound.append_spec happend
      exact ih hkept
  | update hget _ _ hreplace _ ih =>
      obtain ⟨-, -, -, -, -, -, -, hkept⟩ := hsound.replace_spec hget hreplace rfl
      exact ih hkept
  | complete _ _ hget hreplace _ ih =>
      obtain ⟨-, -, -, -, -, -, -, hkept⟩ := hsound.replace_spec hget hreplace rfl
      exact ih hkept

/-- What holds of the cells that an event adds, and is kept where it changes one, holds of all
cells. -/
theorem forall_cells (property : TranscriptCell → Prop)
    (hadds : ∀ cell, Adds event before cell → property cell)
    (hrevises : ∀ previous cell, Revises event previous cell → property previous → property cell)
    (hsteps : Steps event before told first changes second) (hsound : first.Sound)
    (hfirst : ∀ cell ∈ first.cells, property cell) : ∀ cell ∈ second.cells, property cell := by
  induction hsteps with
  | done => exact hfirst
  | append hnew happend _ ih =>
      obtain ⟨-, -, -, -, hkept⟩ := hsound.append_spec happend
      apply ih hkept
      intro other hother
      cases hsound.mem_of_append happend hother with
      | inl hbefore => exact hfirst other hbefore
      | inr hlast => exact hlast ▸ hadds _ hnew
  | update hget hchanged _ hreplace _ ih =>
      obtain ⟨-, -, -, -, -, -, -, hkept⟩ := hsound.replace_spec hget hreplace rfl
      apply ih hkept
      intro other hother
      cases hsound.mem_of_replace hget hreplace rfl hother with
      | inl hbefore => exact hfirst other hbefore
      | inr hnew =>
          exact hnew ▸ hrevises _ _ hchanged (hfirst _ (hsound.get_eq_some.mp hget).1)
  | complete _ hopen hget hreplace _ ih =>
      obtain ⟨-, -, -, -, -, -, -, hkept⟩ := hsound.replace_spec hget hreplace rfl
      apply ih hkept
      intro other hother
      cases hsound.mem_of_replace hget hreplace rfl hother with
      | inl hbefore => exact hfirst other hbefore
      | inr hnew =>
          exact hnew ▸ hrevises _ _ (revises_assistant event hopen)
            (hfirst _ (hsound.get_eq_some.mp hget).1)

theorem named (hsteps : Steps event before told first changes second) (hsound : first.Sound)
    (hfirst : ∀ cell ∈ first.cells, cell.Named) : ∀ cell ∈ second.cells, cell.Named := by
  apply forall_cells TranscriptCell.Named _ _ hsteps hsound hfirst
  · intro cell hadds
    exact hadds.named
  · intro previous cell hrevises hnamed
    rw [TranscriptCell.Named, hrevises.kind, hrevises.id]
    exact hnamed

theorem limits (hsteps : Steps event before told first changes second) (hsound : first.Sound) :
    second.maxCells = first.maxCells ∧ second.maxTextChars = first.maxTextChars := by
  induction hsteps with
  | done => exact ⟨rfl, rfl⟩
  | append _ happend _ ih =>
      obtain ⟨-, -, hcells, htext, hkept⟩ := hsound.append_spec happend
      rw [← hcells, ← htext]
      exact ih hkept
  | update hget _ _ hreplace _ ih =>
      obtain ⟨-, -, -, -, -, hcells, htext, hkept⟩ := hsound.replace_spec hget hreplace rfl
      rw [← hcells, ← htext]
      exact ih hkept
  | complete _ _ hget hreplace _ ih =>
      obtain ⟨-, -, -, -, -, hcells, htext, hkept⟩ := hsound.replace_spec hget hreplace rfl
      rw [← hcells, ← htext]
      exact ih hkept

end Steps

namespace RuntimeViewState

variable {state later : RuntimeViewState} {event : RuntimeEvent} {before : TranscriptModel}
  {told : Prop} {changes : List PresentationChange} {cell : TranscriptCell}

theorem append_fresh (hsound : state.transcript.Sound)
    (happend : state.append cell = some (later, changes)) :
    cell.id ∉ cellIds state.transcript.cells := by
  obtain ⟨⟨kept, evicted⟩, hkept, -⟩ := Option.map_eq_some_iff.mp happend
  exact (hsound.append_spec hkept).1

theorem steps_append (before : TranscriptModel) (told : Prop)
    (happend : state.append cell = some (later, changes))
    (hadds : Adds event before cell) :
    Steps event before told state.transcript changes later.transcript := by
  obtain ⟨⟨kept, evicted⟩, hkept, hsame⟩ := Option.map_eq_some_iff.mp happend
  cases hsame
  have hsteps : Steps event before told state.transcript
      (.append cell :: evicted.map .evict ++ []) kept :=
    .append hadds hkept (.done kept)
  rwa [append_nil] at hsteps

theorem steps_replace (before : TranscriptModel) (told : Prop) {cellId : Text}
    (hsound : state.transcript.Sound) (hreplace : state.replace cell = some (later, changes))
    (hget : state.transcript.get cellId = some previous) (hrevises : Revises event previous cell)
    (hfits : told → state.transcript.Fits previous cell) :
    Steps event before told state.transcript changes later.transcript := by
  obtain ⟨⟨kept, replaced⟩, hkept, hsame⟩ := Option.map_eq_some_iff.mp hreplace
  cases hsame
  have hid : cell.id = cellId := hrevises.id.trans (hsound.get_eq_some.mp hget).2
  rw [← hid] at hget
  obtain ⟨index, other, -, -, hother, -⟩ := hsound.replace_eq_some hget
  have hpair := hkept.symm.trans hother
  cases hpair
  exact .update hget hrevises hfits hkept (.done kept)

/-- A cell whose text is as long as before fits. -/
theorem fits_of_eq {transcript : TranscriptModel} {cell : TranscriptCell}
    (hsound : transcript.Sound) (hsame : cellTextChars cell = cellTextChars previous) :
    transcript.Fits previous cell := by
  have hwithin : Retained.total cellTextChars transcript.cells ≤ transcript.maxTextChars :=
    hsound.within.2
  rw [TranscriptModel.Fits, hsound.total, hsame]
  omega

/-! ## What is told -/

/-- The diff that `recordDiff` shows. -/
def shownDiff (outcome : ToolOutcome) : Option ToolDiff :=
  if (field outcome.metadata "diff_reviewed").truthy then none
  else outcome.diff.filter fun diff => diff.unified ≠ []

/-- The text of an outcome and of its diff has room in the place of the text before. -/
def TellsOutcome (state : RuntimeViewState) (event : RuntimeEvent) (toolCallId toolName : Text)
    (outcome : ToolOutcome) : Prop :=
  let transcript := state.transcript
  match transcript.get (lit "tool:" ++ toolCallId) with
  | some previous =>
      transcript.textCharsTotal + outcome.detailedText.length ≤
          transcript.maxTextChars + cellTextChars previous ∧
        ∀ diff earlier, shownDiff outcome = some diff →
          transcript.get (lit "diff:" ++ toolCallId) = some earlier →
          transcript.textCharsTotal + outcome.detailedText.length + diff.unified.length ≤
            transcript.maxTextChars + cellTextChars previous + cellTextChars earlier
  | none =>
      let kept := (Retained.trim cellTextChars transcript.maxCells transcript.maxTextChars
        (transcript.cells ++ [state.orphanedTool event toolCallId toolName outcome])).2
      ∀ diff earlier, shownDiff outcome = some diff → earlier ∈ kept →
        earlier.id = lit "diff:" ++ toolCallId →
        Retained.total cellTextChars kept + diff.unified.length ≤
          transcript.maxTextChars + cellTextChars earlier

/-- An event changes no cell silently: it starts no turn and no tool call while an assistant cell
is open, and the text that it puts in the place of other text has room. -/
def Tells (state : RuntimeViewState) (event : RuntimeEvent) : Prop :=
  let transcript := state.transcript
  match event.payload with
  | .turnStarted _ | .chatStarted _ | .toolCallStarted .. => state.openAssistant event = none
  | .assistantContentDelta text | .streamChunk text false =>
      ∀ opened, state.openAssistant event = some opened →
        transcript.textCharsTotal + text.length ≤ transcript.maxTextChars
  | .turnFinished response | .chatCompleted response =>
      ∀ opened, state.openAssistant event = some opened →
        transcript.textCharsTotal + response.length ≤
          transcript.maxTextChars + opened.text.length
  | .subagentJobChanged jobId _ _ _ result error =>
      ∀ previous, transcript.get (lit "subagent:" ++ jobId) = some previous →
        transcript.textCharsTotal + ((result.getD []).length + (error.getD []).length) ≤
          transcript.maxTextChars + cellTextChars previous
  | .toolCallFinished toolCallId toolName outcome =>
      state.TellsOutcome event toolCallId toolName outcome
  | _ => True

/-! ## Handlers -/

variable {groupId : Option Text} {toolName : Text}

theorem adds_ofEvent {body : CellBody} (hkind : word ∈ body.kind.words) (htool : body.kind ≠ .tool)
    (hcontrol : event.payload.isTransient = false) :
    Adds event before { id := word ++ lit ":" ++ event.eventId, body, groupId } where
  named := ⟨word, hkind, event.eventId, rfl⟩
  fresh := fun hsame => absurd hsame htool
  eventId := by
    intro other hother hshared
    have hid : HasWord word (word ++ lit ":" ++ event.eventId) := ⟨event.eventId, rfl⟩
    have hsame : other = word := by
      cases eventWords_kinds other hother with
      | inl hnotice => exact HasWord.word_eq hnotice hkind hshared hid
      | inr huser => exact HasWord.word_eq huser hkind hshared hid
    rw [hsame]
    exact ⟨rfl, hcontrol⟩

theorem steps_notice {message level category : Text}
    (hreduce : state.notice event message level category = some (later, changes))
    (hcontrol : event.payload.isTransient = false) :
    Steps event before told state.transcript changes later.transcript := by
  have hadds : Adds event before
      { id := lit "notice" ++ lit ":" ++ event.eventId
        body := .notice message level category
        groupId := state.eventGroup event } :=
    adds_ofEvent mem_cons_self (by simp [CellBody.kind]) hcontrol
  exact steps_append _ told hreduce hadds

theorem steps_steering {userInput : Text}
    (hreduce : state.append
      { id := lit "user-steer:" ++ event.eventId
        body := .user (visibleUserInput userInput)
        groupId } = some (later, changes))
    (hcontrol : event.payload.isTransient = false) :
    Steps event before told state.transcript changes later.transcript := by
  have hword : lit "user-steer" ∈ CellKind.user.words := by decide
  have hadds : Adds event before
      { id := lit "user-steer" ++ lit ":" ++ event.eventId
        body := .user (visibleUserInput userInput)
        groupId } :=
    adds_ofEvent hword (by simp [CellBody.kind]) hcontrol
  exact steps_append _ told hreduce hadds

theorem steps_subagent {jobId mode task status : Text} {result error : Option Text}
    (hsound : state.transcript.Sound)
    (hfits : told → ∀ previous, state.transcript.get (lit "subagent:" ++ jobId) = some previous →
      state.transcript.textCharsTotal + ((result.getD []).length + (error.getD []).length) ≤
        state.transcript.maxTextChars + cellTextChars previous)
    (hreduce : state.changeSubagent event jobId mode task status result error =
      some (later, changes)) :
    Steps event before told state.transcript changes later.transcript := by
  rw [changeSubagent] at hreduce
  split at hreduce
  next hget =>
    have hroom := fun htold => hfits htold _ hget
    exact steps_replace _ told hsound hreduce hget ⟨rfl, rfl, .inl rfl⟩ hroom
  next =>
    exact steps_append _ told hreduce
      (.of_word (lit "subagent") mem_cons_self ⟨jobId, rfl⟩ (by decide)
        (by simp [CellBody.kind]))

theorem steps_diagnostics {batchId filePath : Text} {documentVersion generation : ℤ}
    {diagnostics : List RuntimeDiagnostic} (hsound : state.transcript.Sound)
    (hreduce : state.publishDiagnostics event batchId filePath documentVersion generation
      diagnostics = some (later, changes)) :
    Steps event before told state.transcript changes later.transcript := by
  rw [publishDiagnostics] at hreduce
  split at hreduce
  next hget =>
    exact steps_replace _ told hsound hreduce hget ⟨rfl, rfl, .inl rfl⟩
      fun _ => fits_of_eq hsound rfl
  next =>
    refine steps_append _ told hreduce
      (.of_word (lit "diagnostic") mem_cons_self ?_ (by decide) (by simp [CellBody.kind]))
    refine ⟨orDefault event.agentId (lit "unknown") ++ lit ":" ++ filePath, ?_⟩
    dsimp only
    rw [← append_assoc, ← append_assoc]
    rfl

theorem steps_requestApproval {requestId title : Text} {preview : Option Text}
    (hsound : state.transcript.Sound)
    (hreduce : state.requestApproval event requestId title preview = some (later, changes)) :
    Steps event before told state.transcript changes later.transcript := by
  rw [requestApproval] at hreduce
  split at hreduce
  next hget =>
    exact steps_replace _ told hsound hreduce hget ⟨rfl, rfl, .inl rfl⟩
      fun _ => fits_of_eq hsound rfl
  next =>
    exact steps_append _ told hreduce
      (.of_word (lit "approval") mem_cons_self ⟨requestId, rfl⟩ (by decide)
        (by simp [CellBody.kind]))

theorem steps_resolveApproval {requestId : Text} {approved : Bool}
    {reason mode grantLabel : Option Text} {releasedCount : ℤ} {source : Option Text}
    (hsound : state.transcript.Sound)
    (hreduce : state.resolveApproval event requestId approved reason mode grantLabel releasedCount
      source = some (later, changes)) :
    Steps event before told state.transcript changes later.transcript := by
  rw [resolveApproval] at hreduce
  split at hreduce
  next hget =>
    exact steps_replace _ told hsound hreduce hget ⟨rfl, rfl, .inl rfl⟩
      fun _ => fits_of_eq hsound rfl
  next =>
    exact steps_append _ told hreduce
      (.of_word (lit "approval") mem_cons_self ⟨requestId, rfl⟩ (by decide)
        (by simp [CellBody.kind]))

variable {toolCallId : Text} {outcome : ToolOutcome}

theorem steps_toolOutput {maxChars : ℤ} (hsound : state.transcript.Sound)
    (hreduce : state.appendToolOutput event maxChars toolCallId text = some (later, changes)) :
    Steps event state.transcript told state.transcript changes later.transcript := by
  rw [appendToolOutput] at hreduce
  split at hreduce
  next hget =>
    exact steps_replace _ told hsound hreduce hget ⟨rfl, rfl, .inl rfl⟩
      fun _ => fits_of_eq hsound rfl
  next =>
    have hfresh := append_fresh hsound hreduce
    exact steps_append _ told hreduce
      (.of_word (lit "tool") mem_cons_self ⟨toolCallId, rfl⟩ (by decide) fun _ => hfresh)

/-! ## Assistant cells -/

/-- An open assistant cell is in the transcript, under its id. -/
theorem openAssistant_eq_some {opened : OpenAssistant} (hsound : state.transcript.Sound)
    (hopen : state.openAssistant event = some opened) :
    state.activeAssistantCells event.assistantRoute = some opened.cell.id ∧
      state.transcript.get opened.cell.id = some opened.cell ∧
      opened.cell.body = .assistant opened.text false opened.interrupted := by
  rw [openAssistant] at hopen
  split at hopen
  next => cases hopen
  next => cases hopen
  next cellId _ hactive =>
    split at hopen
    next found hget =>
      split at hopen
      next text interrupted hbody =>
        cases hopen
        have hid := (hsound.get_eq_some.mp hget).2
        rw [hid]
        exact ⟨hactive, hget, hbody⟩
      next => cases hopen
    next => cases hopen

theorem scopedId_word (event : RuntimeEvent) (word : Text) :
    HasWord word (event.scopedId word) := by
  rw [RuntimeEvent.scopedId]
  split
  · refine ⟨event.agentId.getD [] ++ lit ":" ++ event.identity, ?_⟩
    simp only [append_assoc]
  · exact ⟨event.identity, rfl⟩

/-- `nextAssistantCellId` is an id for an assistant cell. -/
theorem nextAssistantCellId_word :
    HasWord (lit "assistant") (state.nextAssistantCellId event) := by
  have hscoped := scopedId_word event (lit "assistant")
  rw [nextAssistantCellId]
  split
  · obtain ⟨rest, hrest⟩ := hscoped
    refine ⟨rest ++ lit ":" ++ event.eventId, ?_⟩
    rw [hrest]
    simp only [append_assoc]
  · exact hscoped

theorem adds_assistant :
    Adds event before
      { id := state.nextAssistantCellId event
        body := .assistant text complete interrupted
        groupId } :=
  .of_word (lit "assistant") mem_cons_self nextAssistantCellId_word (by decide)
    (by simp [CellBody.kind])

theorem cellTextChars_assistant (hbody : previous.body = .assistant text complete interrupted) :
    cellTextChars previous = text.length := by
  rw [cellTextChars, hbody]

theorem steps_appendStream (hsound : state.transcript.Sound)
    (hfits : told → ∀ opened, state.openAssistant event = some opened →
      state.transcript.textCharsTotal + text.length ≤ state.transcript.maxTextChars)
    (hreduce : state.appendStream event text = some (later, changes)) :
    Steps event before told state.transcript changes later.transcript := by
  rw [appendStream] at hreduce
  split at hreduce
  next =>
    have hsteps := steps_append before told hreduce adds_assistant
    exact hsteps
  next opened hopen =>
    obtain ⟨-, hget, hbody⟩ := openAssistant_eq_some hsound hopen
    refine steps_replace _ told hsound hreduce hget (revises_assistant event hbody) fun htold => ?_
    have hroom := hfits htold opened hopen
    rw [TranscriptModel.Fits, cellTextChars_assistant hbody]
    change _ + ((opened.text ++ text).length : ℤ) ≤ _
    rw [length_append]
    omega

theorem steps_completeChat {response : Text} (hsound : state.transcript.Sound)
    (hfits : told → ∀ opened, state.openAssistant event = some opened →
      state.transcript.textCharsTotal + response.length ≤
        state.transcript.maxTextChars + opened.text.length)
    (hreduce : state.completeChat event response = some (later, changes)) :
    Steps event before told state.transcript changes later.transcript := by
  rw [completeChat] at hreduce
  split at hreduce
  next opened hopen =>
    obtain ⟨-, hget, hbody⟩ := openAssistant_eq_some hsound hopen
    have hpopped : (state.popAssistant event).transcript.Sound := hsound
    have hroom (htold : told) : state.transcript.Fits opened.cell
        (nextRevision opened.cell (.assistant response true opened.interrupted)) := by
      rw [TranscriptModel.Fits, cellTextChars_assistant hbody]
      exact hfits htold opened hopen
    have hsteps := steps_replace before told hpopped hreduce hget
      (revises_assistant event hbody) hroom
    exact hsteps
  next =>
    split at hreduce
    next =>
      cases hreduce
      exact .done _
    next =>
      have hsteps := steps_append before told hreduce adds_assistant
      exact hsteps

theorem steps_interrupt (hsound : state.transcript.Sound)
    (hreduce : state.interruptActiveAssistant event = some (later, changes)) :
    Steps event before told state.transcript changes later.transcript := by
  rw [interruptActiveAssistant] at hreduce
  split at hreduce
  next opened hopen =>
    obtain ⟨-, hget, hbody⟩ := openAssistant_eq_some hsound hopen
    have hpopped : (state.popAssistant event).transcript.Sound := hsound
    have hroom (_ : told) : state.transcript.Fits opened.cell
        (nextRevision opened.cell (.assistant opened.text true true)) :=
      fits_of_eq hsound (cellTextChars_assistant hbody).symm
    have hsteps := steps_replace before told hpopped hreduce hget
      (revises_assistant event hbody) hroom
    exact hsteps
  next =>
    cases hreduce
    exact .done _

/-- The assistant cell that a start completes, and with it the transcript's ids. -/
theorem completeActiveAssistant_spec (before : TranscriptModel) (told : Prop)
    {completed : RuntimeViewState}
    (hsound : state.transcript.Sound)
    (hcomplete : state.completeActiveAssistant event = some completed) :
    completed.transcript.Sound ∧
      cellIds completed.transcript.cells = cellIds state.transcript.cells ∧
      ((told → state.openAssistant event = none) →
        Steps event before told state.transcript [] completed.transcript) := by
  rw [completeActiveAssistant] at hcomplete
  split at hcomplete
  next opened hopen =>
    obtain ⟨-, hget, hbody⟩ := openAssistant_eq_some hsound hopen
    obtain ⟨⟨kept, replaced⟩, hkept, hsame⟩ := Option.map_eq_some_iff.mp hcomplete
    cases hsame
    obtain ⟨-, -, -, -, hids, -⟩ := hsound.replace_fits hget hkept rfl
      (fits_of_eq hsound (cellTextChars_assistant hbody).symm)
    obtain ⟨-, -, -, rfl, -, -, -, hsafe⟩ := hsound.replace_spec hget hkept rfl
    refine ⟨hsafe, hids, fun hsilent => .complete (fun htold => ?_) hbody hget hkept (.done _)⟩
    have hnone := hsilent htold
    rw [hopen] at hnone
    cases hnone
  next =>
    cases hcomplete
    exact ⟨hsound, rfl, fun _ => .done _⟩

/-! ## Turns and tool calls -/

theorem steps_startTurn {userInput : Text} (hsound : state.transcript.Sound)
    (hsilent : told → state.openAssistant event = none)
    (hreduce : state.startTurn event userInput = some (later, changes)) :
    Steps event before told state.transcript changes later.transcript := by
  obtain ⟨completed, hcomplete, hrest⟩ := Option.bind_eq_some_iff.mp hreduce
  obtain ⟨-, -, hsteps⟩ := completeActiveAssistant_spec before told hsound hcomplete
  have hfirst := hsteps hsilent
  dsimp only [startTurnGroup] at hrest
  split at hrest
  next =>
    cases hrest
    exact hfirst
  next =>
    have hadds : Adds event before
        { id := event.scopedId (lit "user")
          body := .user (visibleUserInput userInput)
          groupId := some (event.groupIdentity event.identity) } :=
      .of_word (lit "user") mem_cons_self (scopedId_word event _) (by decide)
        (by simp [CellBody.kind])
    have hsecond := steps_append before told hrest hadds
    exact hfirst.trans hsecond

theorem steps_finishTurn {response : Text} (hsound : state.transcript.Sound)
    (hfits : told → ∀ opened, state.openAssistant event = some opened →
      state.transcript.textCharsTotal + response.length ≤
        state.transcript.maxTextChars + opened.text.length)
    (hreduce : state.finishTurn event response = some (later, changes)) :
    Steps event before told state.transcript changes later.transcript := by
  obtain ⟨⟨finished, shown⟩, hfinished, hsame⟩ := Option.map_eq_some_iff.mp hreduce
  cases hsame
  have hsteps : Steps event before told state.transcript changes finished.transcript :=
    steps_completeChat hsound hfits hfinished
  exact hsteps

theorem steps_startTool {arguments : List (Text × Json)} (hsound : state.transcript.Sound)
    (hsilent : told → state.openAssistant event = none)
    (hreduce : state.startTool event toolCallId toolName arguments = some (later, changes)) :
    Steps event state.transcript told state.transcript changes later.transcript := by
  obtain ⟨completed, hcomplete, hrest⟩ := Option.bind_eq_some_iff.mp hreduce
  obtain ⟨hsafe, hids, hsteps⟩ := completeActiveAssistant_spec state.transcript told hsound
    hcomplete
  have hfresh := append_fresh hsafe hrest
  rw [hids] at hfresh
  have hadds : Adds event state.transcript
      { id := lit "tool:" ++ toolCallId
        body := .tool toolCallId toolName (some arguments) [] .running none false
        groupId := completed.eventGroup event } :=
    .of_word (lit "tool") mem_cons_self ⟨toolCallId, rfl⟩ (by decide) fun _ => hfresh
  exact (hsteps hsilent).trans (steps_append _ told hrest hadds)

theorem cellTextChars_tool {shown : TranscriptCell} {callId name output : Text}
    {arguments : Option (List (Text × Json))} {status : ToolCellStatus} {orphaned : Bool}
    (hbody : shown.body = .tool callId name arguments output status (some outcome) orphaned) :
    cellTextChars shown = outcome.detailedText.length := by
  rw [cellTextChars, hbody]
  dsimp only
  rw [Option.map_some, Option.getD_some]

theorem steps_showOutcome (hpayload : event.payload = .toolCallFinished toolCallId toolName outcome)
    (hsound : state.transcript.Sound)
    (htells : told → state.TellsOutcome event toolCallId toolName outcome)
    (hreduce : state.showOutcome event toolCallId toolName outcome = some (later, changes)) :
    Steps event state.transcript told state.transcript changes later.transcript := by
  rw [showOutcome] at hreduce
  split at hreduce
  next hget =>
    have hroom := htells
    simp only [TellsOutcome, hget] at hroom
    have hid := (hsound.get_eq_some.mp hget).2
    refine steps_replace _ told hsound hreduce hget
      ⟨rfl, rfl, .inr ⟨_, _, _, hpayload, hid⟩⟩ fun htold => ?_
    rw [TranscriptModel.Fits, cellTextChars_tool rfl]
    exact (hroom htold).1
  next =>
    have hfresh := append_fresh hsound hreduce
    exact steps_append _ told hreduce
      (.of_word (lit "tool") mem_cons_self ⟨toolCallId, rfl⟩ (by decide) fun _ => hfresh)

theorem diff_ne_tool (first second : Text) : lit "diff:" ++ first ≠ lit "tool:" ++ second := by
  simp [lit]

/-- Behind the cell of an outcome there is room for the diff. -/
theorem showOutcome_room (hsound : state.transcript.Sound)
    (htells : state.TellsOutcome event toolCallId toolName outcome)
    (hreduce : state.showOutcome event toolCallId toolName outcome = some (later, changes))
    {diff : ToolDiff} {earlier : TranscriptCell} (hdiff : shownDiff outcome = some diff)
    (hearlier : later.transcript.get (lit "diff:" ++ toolCallId) = some earlier) :
    later.transcript.textCharsTotal + diff.unified.length ≤
      later.transcript.maxTextChars + cellTextChars earlier := by
  rw [TellsOutcome] at htells
  rw [showOutcome] at hreduce
  split at hreduce
  next hget =>
    rw [hget] at htells
    obtain ⟨hroom, hbehind⟩ := htells
    obtain ⟨⟨kept, replaced⟩, hkept, hsame⟩ := Option.map_eq_some_iff.mp hreduce
    cases hsame
    have hid := (hsound.get_eq_some.mp hget).2
    obtain ⟨index, -, -, hcells, -, htotal⟩ := hsound.replace_fits hget hkept hid (by
      rw [TranscriptModel.Fits, cellTextChars_tool rfl]
      exact hroom)
    obtain ⟨-, -, -, -, -, -, hlimit, hsafe⟩ := hsound.replace_spec hget hkept hid
    obtain ⟨hmem, hdiffId⟩ := hsafe.get_eq_some.mp hearlier
    rw [hcells] at hmem
    cases mem_or_eq_of_mem_set hmem with
    | inl hbefore =>
        have hroomDiff := hbehind diff earlier hdiff
          (hsound.get_eq_some.mpr ⟨hbefore, hdiffId⟩)
        rw [cellTextChars_tool rfl] at htotal
        dsimp only
        rw [hlimit]
        omega
    | inr hnew =>
        rw [hnew] at hdiffId
        exact absurd (hid.symm.trans hdiffId).symm (diff_ne_tool _ _)
  next hother =>
    obtain ⟨⟨kept, evicted⟩, hkept, hsame⟩ := Option.map_eq_some_iff.mp hreduce
    cases hsame
    obtain ⟨hfresh, htrim, -, hlimit, hsafe⟩ := hsound.append_spec hkept
    have hnone : state.transcript.get (lit "tool:" ++ toolCallId) = none := by
      rw [Option.eq_none_iff_forall_ne_some]
      intro found hfound
      obtain ⟨hmem, hid⟩ := hsound.get_eq_some.mp hfound
      apply hfresh
      change lit "tool:" ++ toolCallId ∈ _
      rw [← hid]
      exact mem_map_of_mem hmem
    rw [hnone] at htells
    obtain ⟨hmem, hdiffId⟩ := hsafe.get_eq_some.mp hearlier
    dsimp only at htells ⊢
    rw [htrim] at htells
    rw [hsafe.total, hlimit]
    exact_mod_cast htells diff earlier hdiff hmem hdiffId

theorem steps_recordDiff (hsound : state.transcript.Sound)
    (hfits : told → ∀ diff earlier, shownDiff outcome = some diff →
      state.transcript.get (lit "diff:" ++ toolCallId) = some earlier →
      state.transcript.textCharsTotal + diff.unified.length ≤
        state.transcript.maxTextChars + cellTextChars earlier)
    (hreduce : state.recordDiff event toolCallId outcome = some (later, changes)) :
    Steps event before told state.transcript changes later.transcript := by
  rw [recordDiff] at hreduce
  split at hreduce
  next =>
    cases hreduce
    exact .done _
  next hreviewed =>
    split at hreduce
    next =>
      cases hreduce
      exact .done _
    next diff hdiff =>
      split at hreduce
      next =>
        cases hreduce
        exact .done _
      next hunified =>
        have hshown : shownDiff outcome = some diff := by
          rw [shownDiff, if_neg hreviewed, hdiff]
          exact Option.filter_some_pos (by simpa using hunified)
        dsimp only at hreduce
        split at hreduce
        next hget =>
          have hroom (htold : told) := hfits htold diff _ hshown hget
          exact steps_replace _ told hsound hreduce hget ⟨rfl, rfl, .inl rfl⟩ hroom
        next =>
          exact steps_append _ told hreduce
            (.of_word (lit "diff") mem_cons_self ⟨toolCallId, rfl⟩ (by decide)
              (by simp [CellBody.kind]))

theorem steps_finishTool (hpayload : event.payload = .toolCallFinished toolCallId toolName outcome)
    (hsound : state.transcript.Sound)
    (htells : told → state.TellsOutcome event toolCallId toolName outcome)
    (hreduce : state.finishTool event toolCallId toolName outcome = some (later, changes)) :
    Steps event state.transcript told state.transcript changes later.transcript := by
  obtain ⟨⟨shown, earlier⟩, hshown, hrest⟩ := Option.bind_eq_some_iff.mp hreduce
  obtain ⟨⟨recorded, more⟩, hrecorded, hsame⟩ := Option.bind_eq_some_iff.mp hrest
  cases hsame
  have hfirst : Steps event state.transcript told state.transcript earlier shown.transcript :=
    steps_showOutcome hpayload hsound htells hshown
  refine hfirst.trans (steps_recordDiff (hfirst.sound hsound) (fun htold => ?_) hrecorded)
  intro diff found hdiff hfound
  exact showOutcome_room hsound (htells htold) hshown hdiff hfound

/-- What an event does to the transcript, where it raises nothing. -/
theorem reduce_steps {maxChars : ℤ} (hsound : state.transcript.Sound)
    (htells : told → state.Tells event)
    (hreduce : state.reduce event maxChars = some (later, changes)) :
    Steps event state.transcript told state.transcript changes later.transcript := by
  rw [reduce] at hreduce
  unfold Tells at htells
  split at hreduce
  next hpayload =>
    rw [hpayload] at htells
    exact steps_startTurn hsound htells hreduce
  next hpayload =>
    rw [hpayload] at htells
    exact steps_startTurn hsound htells hreduce
  next hpayload => exact steps_steering hreduce (by rw [hpayload]; rfl)
  next hpayload =>
    rw [hpayload] at htells
    exact steps_appendStream hsound htells hreduce
  next => exact steps_interrupt hsound hreduce
  next =>
    cases hreduce
    exact .done _
  next hpayload =>
    split at hreduce
    next =>
      cases hreduce
      exact .done _
    next hreasoning =>
      rw [Bool.not_eq_true] at hreasoning
      rw [hpayload, hreasoning] at htells
      exact steps_appendStream hsound htells hreduce
  next hpayload =>
    rw [hpayload] at htells
    exact steps_finishTurn hsound htells hreduce
  next hpayload =>
    rw [hpayload] at htells
    exact steps_finishTurn hsound htells hreduce
  next hpayload =>
    rw [hpayload] at htells
    exact steps_startTool hsound htells hreduce
  next hpayload =>
    rw [hpayload] at htells
    exact steps_finishTool hpayload hsound htells hreduce
  next => exact steps_toolOutput hsound hreduce
  next hpayload =>
    rw [hpayload] at htells
    exact steps_subagent hsound htells hreduce
  next hpayload => exact steps_notice hreduce (by rw [hpayload]; rfl)
  next hpayload => exact steps_notice hreduce (by rw [hpayload]; rfl)
  next => exact steps_diagnostics hsound hreduce
  next => exact steps_diagnostics hsound hreduce
  next => exact steps_requestApproval hsound hreduce
  next => exact steps_resolveApproval hsound hreduce
  all_goals
    cases hreduce
    exact .done _

end RuntimeViewState

end ReuleauxCoder.Presentation
