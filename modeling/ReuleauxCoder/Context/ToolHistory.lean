import ReuleauxCoder.Context.Replay
import ReuleauxCoder.Library.AdjacencyLaws
import ReuleauxCoder.Library.AdjacencyRelated

/-!
# Tool calls and their results

`reconcile_tool_call_adjacency` as the source computes it: the results are first
collected by identifier, each with its index in the input, and the messages are
then copied one by one, with the results of each assistant message behind it.
The loop is an instance of the generic repair on numbered messages; the counters
of the loop count the outcomes of that repair.
-/

namespace ReuleauxCoder.ToolHistory

open PyText PyJson Adjacency Context
open List hiding take

def isTool (message : Dict) : Bool :=
  field message "role" = .str (lit "tool")

def isAssistant (message : Dict) : Bool :=
  field message "role" = .str (lit "assistant")

/-- `str(value or "").strip()`. -/
def cleanId (builtins : Builtins) (value : Json) : Text :=
  strip (builtins.strOr value [])

/-- An identifier that is not blank. -/
def filledId (id : Text) : Option Text :=
  if id = [] then none else some id

/-- One element of `tool_calls`: no call when its identifier is blank, and `none`
where an attribute lookup raises. -/
def toolCall (builtins : Builtins) : Json → Option (Option (Text × Text))
  | .obj call =>
      match filledId (cleanId builtins (field call "id")) with
      | none => some none
      | some id =>
          match orEmpty (field call "function") with
          | .obj function =>
              some (some (id, builtins.strOr (field function "name") (lit "unknown_tool")))
          | _ => none
  | _ => none

/-- The calls a message makes; `none` when reading them raises. -/
def toolCalls (builtins : Builtins) (message : Dict) : Option (List (Text × Text)) :=
  if isAssistant message ∧ (field message "tool_calls").truthy then do
    let items ← listOf (field message "tool_calls")
    let calls ← items.mapM (toolCall builtins)
    return calls.reduceOption
  else some []

/-- `content is None or not str(content).strip()`: the text of a value that is no
string is never blank. -/
def isBlankContent : Json → Bool
  | .null => true
  | .str content => strip content = []
  | _ => false

def outputMissing (name : Text) : Text :=
  lit "Tool '" ++ name ++ lit "' output missing."

/-- `missing_content`, a function from an identifier and a tool name. -/
abbrev MissingToolContent := Option (Text → Text → Text)

def missingText (missing : MissingToolContent) (id name : Text) : Text :=
  match missing with
  | some content => content id name
  | none => outputMissing name

def synthesizedMessage (missing : MissingToolContent) (id name : Text) : Dict :=
  [(lit "role", .str (lit "tool")), (lit "tool_call_id", .str id),
    (lit "content", .str (missingText missing id name))]

def fillContent (name : Text) (response : Dict) : Dict :=
  store (lit "content") (.str (outputMissing name)) response

/-! ## The loop -/

/-- The variables of the loop; `responses` lists what the source keeps by
identifier, in the order of arrival. -/
structure Reconciliation where
  repaired : List Dict := []
  responses : List (Text × Dict × ℕ) := []
  synthesized : ℕ := 0
  consumed : ℕ := 0
  reordered : ℕ := 0
  filledContent : ℕ := 0
  deriving DecidableEq

section Loop

variable (builtins : Builtins) (missing : MissingToolContent)

/-- The first loop. -/
def collectResponses (messages : List Dict) : List (Text × Dict × ℕ) :=
  messages.zipIdx.filterMap fun message =>
    if isTool message.1 then
      (filledId (cleanId builtins (field message.1 "tool_call_id"))).map fun id => (id, message)
    else none

def answerCall (state : Reconciliation) (call : Text × Text) : Reconciliation :=
  match take call.1 state.responses with
  | some ((response, index), rest) =>
      let blank := isBlankContent (field response "content")
      { state with
        repaired := state.repaired ++ [if blank then fillContent call.2 response else response]
        responses := rest
        consumed := state.consumed + 1
        reordered := state.reordered + if index ≠ state.repaired.length then 1 else 0
        filledContent := state.filledContent + if blank then 1 else 0 }
  | none =>
      { state with
        repaired := state.repaired ++ [synthesizedMessage missing call.1 call.2]
        synthesized := state.synthesized + 1 }

def reconcileMessage (state : Reconciliation) (message : Dict) : Option Reconciliation :=
  if isTool message then some state
  else do
    let calls ← toolCalls builtins message
    return calls.foldl (answerCall missing)
      { state with repaired := state.repaired ++ [message] }

/-- The repaired messages and the mutation counts. -/
structure Reconciled where
  repaired : List Dict
  synthesized : ℕ
  reordered : ℕ
  discarded : ℤ
  filledContent : ℕ
  deriving DecidableEq

/-- `none` when a tool call is malformed, where the source raises. -/
def reconcileToolCallAdjacency (messages : List Dict) : Option Reconciled := do
  let state ← messages.foldlM (reconcileMessage builtins missing)
    { responses := collectResponses builtins messages }
  return {
    repaired := state.repaired
    synthesized := state.synthesized
    reordered := state.reordered
    discarded := (messages.countP isTool : ℤ) - state.consumed
    filledContent := state.filledContent }

end Loop

/-! ## The protocol of the loop -/

def protocol (builtins : Builtins) (missing : MissingToolContent) : Protocol Text Text Dict where
  isResponse := isTool
  responseId message := filledId (cleanId builtins (field message "tool_call_id"))
  calls message := (toolCalls builtins message).getD []
  isBlank message := isBlankContent (field message "content")
  fill := fillContent
  synthesize := synthesizedMessage missing

/-- Messages whose tool calls can be read. -/
def WellFormed (builtins : Builtins) (messages : List Dict) : Prop :=
  ∀ message ∈ messages, (toolCalls builtins message).isSome = true

instance (builtins : Builtins) (messages : List Dict) : Decidable (WellFormed builtins messages) :=
  inferInstanceAs (Decidable (∀ message ∈ messages, _))

abbrev Outcomes := List ((Dict × ℕ) × Origin)

/-- A response that stands elsewhere than its index in the input says. -/
def isReordered (entry : ((Dict × ℕ) × Origin) × ℕ) : Bool :=
  match entry.1.2 with
  | .answered _ => entry.1.1.2 ≠ entry.2
  | _ => false

def isAnswered (result : (Dict × ℕ) × Origin) : Bool :=
  match result.2 with
  | .answered _ => true
  | _ => false

/-- What a list of outcomes adds to the variables of the loop. -/
def Reconciliation.settle (state : Reconciliation) (outcomes : Outcomes)
    (responses : List (Text × Dict × ℕ)) : Reconciliation where
  repaired := state.repaired ++ outcomes.map fun result => result.1.1
  responses
  synthesized := state.synthesized + outcomes.countP fun result => result.2 = .synthesized
  consumed := state.consumed + outcomes.countP isAnswered
  reordered := state.reordered + (outcomes.zipIdx state.repaired.length).countP isReordered
  filledContent := state.filledContent + outcomes.countP fun result => result.2 = .answered true

theorem settle_settle (state : Reconciliation) (front back : Outcomes)
    (between responses : List (Text × Dict × ℕ)) :
    (state.settle front between).settle back responses = state.settle (front ++ back) responses := by
  simp [Reconciliation.settle, zipIdx_append, add_assoc]

theorem settle_nil (state : Reconciliation) : state.settle [] state.responses = state := by
  simp [Reconciliation.settle]

section Link

variable (builtins : Builtins) (missing : MissingToolContent)

theorem collectResponses_eq_pool (messages : List Dict) :
    collectResponses builtins messages =
      (protocol builtins missing).numbered.pool messages.zipIdx := by
  rw [collectResponses]
  generalize messages.zipIdx = numbered
  induction numbered with
  | nil => rfl
  | cons message rest ih =>
      rw [filterMap_cons, Protocol.pool, ih]
      simp only [Protocol.numbered, protocol]
      cases isTool message.1 with
      | false => rfl
      | true =>
          cases filledId (cleanId builtins (field message.1 "tool_call_id")) with
          | none => rfl
          | some id => rfl

theorem answerCall_eq_settle (state : Reconciliation) (call : Text × Text) :
    answerCall missing state call =
      state.settle [((protocol builtins missing).numbered.answer call state.responses).1]
        ((protocol builtins missing).numbered.answer call state.responses).2 := by
  rw [answerCall, Protocol.answer]
  cases take call.1 state.responses with
  | none => simp [Reconciliation.settle, Protocol.outcome, Protocol.numbered, protocol,
      isAnswered, isReordered]
  | some found =>
      obtain ⟨⟨response, index⟩, rest⟩ := found
      by_cases hblank : isBlankContent (field response "content") = true
      · simp [Reconciliation.settle, Protocol.outcome, Protocol.numbered, protocol, hblank,
          isAnswered, isReordered, countP_cons]
      · simp [Reconciliation.settle, Protocol.outcome, Protocol.numbered, protocol, hblank,
          isAnswered, isReordered, countP_cons]

theorem foldl_answerCall (state : Reconciliation) (calls : List (Text × Text)) :
    calls.foldl (answerCall missing) state =
      state.settle ((protocol builtins missing).numbered.answers calls state.responses).1
        ((protocol builtins missing).numbered.answers calls state.responses).2 := by
  induction calls generalizing state with
  | nil => exact (settle_nil state).symm
  | cons call calls ih =>
      rw [foldl_cons, ih, answerCall_eq_settle builtins, settle_settle]
      rfl

theorem foldlM_reconcileMessage {messages : List Dict} (hformed : WellFormed builtins messages)
    (state : Reconciliation) (start : ℕ) :
    messages.foldlM (reconcileMessage builtins missing) state =
      some (state.settle
        ((protocol builtins missing).numbered.repairFrom (messages.zipIdx start)
          state.responses).1
        ((protocol builtins missing).numbered.repairFrom (messages.zipIdx start)
          state.responses).2) := by
  induction messages generalizing state start with
  | nil => exact congrArg some (settle_nil state).symm
  | cons message rest ih =>
      have hrest := fun state =>
        ih (fun other hother => hformed other (mem_cons_of_mem _ hother)) state (start + 1)
      obtain ⟨calls, hcalls⟩ := Option.isSome_iff_exists.mp (hformed message mem_cons_self)
      have hresponse : (protocol builtins missing).numbered.isResponse (message, start) =
          isTool message := rfl
      have hsame : (protocol builtins missing).numbered.calls (message, start) = calls := by
        change (toolCalls builtins message).getD [] = calls
        rw [hcalls, Option.getD_some]
      rw [foldlM_cons, zipIdx_cons, Protocol.repairFrom, reconcileMessage, hresponse,
        hsame]
      by_cases htool : isTool message = true
      · rw [if_pos htool, if_pos htool]
        exact hrest state
      · have hkept : ({ state with repaired := state.repaired ++ [message] } : Reconciliation) =
            state.settle [((message, start), .kept)] state.responses := by
          simp [Reconciliation.settle, isAnswered, isReordered]
        rw [if_neg htool, if_neg htool, hcalls]
        simp only [Option.bind_eq_bind, Option.bind_some, Option.pure_def]
        rw [hkept, foldl_answerCall builtins, hrest, settle_settle, settle_settle]
        rfl

theorem wellFormed_of_foldlM {messages : List Dict} {state result : Reconciliation}
    (hfold : messages.foldlM (reconcileMessage builtins missing) state = some result) :
    WellFormed builtins messages := by
  induction messages generalizing state with
  | nil => simp [WellFormed]
  | cons message rest ih =>
      rw [foldlM_cons] at hfold
      obtain ⟨next, hnext, hrest⟩ := Option.bind_eq_some_iff.mp hfold
      refine forall_mem_cons.mpr ⟨?_, ih hrest⟩
      rw [reconcileMessage] at hnext
      split at hnext
      · rename_i htool
        simp only [isTool, decide_eq_true_eq] at htool
        simp [toolCalls, isAssistant, htool]
      · obtain ⟨calls, hcalls, -⟩ := Option.bind_eq_some_iff.mp hnext
        rw [hcalls]
        rfl

end Link

/-- The outcome of every message of the repaired list. -/
def outcomes (builtins : Builtins) (missing : MissingToolContent) (messages : List Dict) :
    Outcomes :=
  ((protocol builtins missing).numbered.repair messages.zipIdx).1

/-- What the loop returns, counted on the outcomes. -/
def counted (messages : List Dict) (outcomes : Outcomes) : Reconciled where
  repaired := outcomes.map fun result => result.1.1
  synthesized := outcomes.countP fun result => result.2 = .synthesized
  reordered := outcomes.zipIdx.countP isReordered
  discarded := (messages.countP isTool : ℤ) - outcomes.countP isAnswered
  filledContent := outcomes.countP fun result => result.2 = .answered true

/-- The loop is the generic repair of the numbered messages. -/
theorem reconcile_eq_counted (builtins : Builtins) (missing : MissingToolContent)
    {messages : List Dict} (hformed : WellFormed builtins messages) :
    reconcileToolCallAdjacency builtins missing messages =
      some (counted messages (outcomes builtins missing messages)) := by
  rw [reconcileToolCallAdjacency, foldlM_reconcileMessage builtins missing hformed _ 0,
    collectResponses_eq_pool builtins missing]
  simp [Reconciliation.settle, counted, outcomes, Protocol.repair]

theorem wellFormed_of_reconcile {builtins : Builtins} {missing : MissingToolContent}
    {messages : List Dict} {result : Reconciled}
    (hresult : reconcileToolCallAdjacency builtins missing messages = some result) :
    WellFormed builtins messages := by
  obtain ⟨state, hstate, -⟩ := Option.bind_eq_some_iff.mp hresult
  exact wellFormed_of_foldlM builtins missing hstate

theorem counted_repaired (builtins : Builtins) (missing : MissingToolContent)
    (messages : List Dict) :
    (counted messages (outcomes builtins missing messages)).repaired =
      (protocol builtins missing).repaired messages := by
  have hplain := (protocol builtins missing).repaired_numbered messages.zipIdx
  rw [zipIdx_map_fst, Protocol.repaired, map_map] at hplain
  exact hplain

end ReuleauxCoder.ToolHistory
