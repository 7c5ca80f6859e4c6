import ReuleauxCoder.Library.Converting
import ReuleauxCoder.Context.Compaction

/-!
# What a summary keeps

A summary takes the place of whole rounds.  The rounds behind it stay as they are: the first of
them starts with a response of the model, so that every result there still has its call, and they
hold the turns of the user that are to be kept.
-/

namespace ReuleauxCoder.Context

open PyText PyJson Adjacency ToolHistory
open List hiding take

/-! ## Valid histories -/

/-- `validate_protocol`: reconciling the calls and results of a history changes nothing. -/
def AdjacencyValid (builtins : Builtins) (messages : List Dict) : Prop :=
  ∃ result, reconcileToolCallAdjacency builtins none messages = some result ∧
    result.repaired = messages

instance (builtins : Builtins) (messages : List Dict) :
    Decidable (AdjacencyValid builtins messages) :=
  match hreconciled : reconcileToolCallAdjacency builtins none messages with
  | none => .isFalse (by simp [AdjacencyValid, hreconciled])
  | some result =>
      decidable_of_iff (result.repaired = messages) (by simp [AdjacencyValid, hreconciled])

/-- Every result that a list holds has a text. -/
def Filled (messages : List Dict) : Prop :=
  ∀ message ∈ messages, isTool message = true → isBlankContent (field message "content") = false

section Valid

variable {builtins : Builtins} {messages : List Dict}

theorem repaired_of_reconcile {missing : MissingToolContent} {result : Reconciled}
    (hresult : reconcileToolCallAdjacency builtins missing messages = some result) :
    result.repaired = (protocol builtins missing).repaired messages := by
  rw [reconcile_eq_counted builtins missing (wellFormed_of_reconcile hresult)] at hresult
  rw [← Option.some.inj hresult, counted_repaired]

theorem adjacencyValid_iff : AdjacencyValid builtins messages ↔
    WellFormed builtins messages ∧ (protocol builtins none).Adjacent messages ∧
      Filled messages := by
  have htelling : Telling none := by simp [Telling]
  constructor
  · rintro ⟨result, hresult, hsame⟩
    obtain ⟨hadjacent, hfilled⟩ :=
      Protocol.repaired_adjacent (lawful_protocol builtins htelling) messages
    rw [← repaired_of_reconcile hresult, hsame] at hadjacent hfilled
    exact ⟨wellFormed_of_reconcile hresult, hadjacent, hfilled⟩
  · rintro ⟨hformed, hadjacent, hfilled⟩
    refine ⟨_, reconcile_eq_counted builtins none hformed, ?_⟩
    rw [counted_of_adjacent hadjacent hfilled]

theorem AdjacencyValid.normalizeHistory (hvalid : AdjacencyValid builtins messages)
    (reason : String) : normalizeHistory builtins messages reason = some messages := by
  obtain ⟨hformed, hadjacent, hfilled⟩ := adjacencyValid_iff.mp hvalid
  have hagain : ∀ missing, (protocol builtins missing).Adjacent messages :=
    fun _ => hadjacent.congr rfl rfl rfl
  have hcounted := fun missing => counted_of_adjacent (hagain missing) hfilled
  rw [Context.normalizeHistory, reconcile_eq_counted builtins _ hformed, hcounted]
  rfl

/-- A part of a valid history that starts with no result is valid, and so is the part before. -/
theorem AdjacencyValid.of_append {front back : List Dict}
    (hvalid : AdjacencyValid builtins (front ++ back))
    (hback : ∀ message ∈ back.head?, isTool message = false) :
    AdjacencyValid builtins front ∧ AdjacencyValid builtins back := by
  obtain ⟨hformed, hadjacent, hfilled⟩ := adjacencyValid_iff.mp hvalid
  obtain ⟨hfront, hbehind⟩ := hadjacent.of_append hback
  exact ⟨adjacencyValid_iff.mpr ⟨fun message hmem => hformed message (mem_append_left _ hmem),
      hfront, fun message hmem => hfilled message (mem_append_left _ hmem)⟩,
    adjacencyValid_iff.mpr ⟨fun message hmem => hformed message (mem_append_right _ hmem),
      hbehind, fun message hmem => hfilled message (mem_append_right _ hmem)⟩⟩

theorem isTool_summaryMessage (kind : CheckpointKind) (summary : Text) :
    isTool (summaryMessage kind summary) = false := by
  cases kind <;> rfl

theorem toolCalls_summaryMessage (kind : CheckpointKind) (summary : Text) :
    toolCalls builtins (summaryMessage kind summary) = some [] := by
  cases kind <;> rfl

/-- A summary in front of a valid history makes no call and answers none. -/
theorem AdjacencyValid.summarized (hvalid : AdjacencyValid builtins messages)
    (kind : CheckpointKind) (summary : Text) :
    AdjacencyValid builtins (summaryMessage kind summary :: messages) := by
  obtain ⟨hformed, hadjacent, hfilled⟩ := adjacencyValid_iff.mp hvalid
  have hcalls : (protocol builtins none).calls (summaryMessage kind summary) = [] := by
    change (toolCalls builtins (summaryMessage kind summary)).getD [] = []
    rw [toolCalls_summaryMessage, Option.getD_some]
  refine adjacencyValid_iff.mpr ⟨?_, ?_, ?_⟩
  · exact forall_mem_cons.mpr ⟨by rw [toolCalls_summaryMessage]; rfl, hformed⟩
  · have hanswers : List.Forall₂ (protocol builtins none).Answers
        ((protocol builtins none).calls (summaryMessage kind summary)) [] := by
      rw [hcalls]
      exact .nil
    exact .block (isTool_summaryMessage kind summary) hanswers hadjacent
  · exact forall_mem_cons.mpr
      ⟨fun htool => by simp [isTool_summaryMessage] at htool, hfilled⟩

end Valid

/-! ## The kept rounds -/

/-- One summary stands for the first rounds of a history, and the others are kept. -/
structure Summarized (builtins : Builtins) (messages : List Dict) (keepRecentUserTurns : ℤ)
    (kind : CheckpointKind) (result : List Dict) (summary : Text) (rounds : ℕ) : Prop where
  inside : 0 < rounds ∧ rounds < (groupApiRounds messages).length
  split : messages = ((groupApiRounds messages).take rounds).flatten ++
    ((groupApiRounds messages).drop rounds).flatten
  result_eq : result =
    summaryMessage kind summary :: ((groupApiRounds messages).drop rounds).flatten
  turns : ∃ marks, (((groupApiRounds messages).drop rounds).flatten).mapM isUserTurn? =
    some marks ∧ keepRecentUserTurns ≤ (marks.count true : ℤ)
  paired : AdjacencyValid builtins ((groupApiRounds messages).take rounds).flatten ∧
    AdjacencyValid builtins result

/-- What a committed summary puts in place of the messages. -/
theorem summarizeOld_eq_some {environment : Environment} {manager : ContextManager}
    {messages result : List Dict} {keepRecentUserTurns : ℤ} {kind : CheckpointKind}
    (hcommits : (environment.summarizeOld manager messages keepRecentUserTurns kind).1 =
      some (some result)) :
    ∃ boundary summary, findRecentUserTurnBoundary messages keepRecentUserTurns = some boundary ∧
      0 < safeRoundBoundaryAtOrBefore messages boundary ∧
      safeRoundBoundaryAtOrBefore messages boundary < messages.length ∧
      normalizeHistory environment.builtins (summaryMessage kind summary ::
        messages.drop (safeRoundBoundaryAtOrBefore messages boundary)) "context compaction" =
          some result := by
  rw [Environment.summarizeOld] at hcommits
  cases hboundary : findRecentUserTurnBoundary messages keepRecentUserTurns with
  | none => simp [hboundary] at hcommits
  | some boundary =>
      rw [hboundary] at hcommits
      dsimp only at hcommits
      split at hcommits
      · cases hcommits
      · rename_i hinside
        rw [not_or, not_le] at hinside
        obtain ⟨summary, -, hresult⟩ := Option.bind_eq_some_iff.mp hcommits
        obtain ⟨normalized, hnormalized, hsame⟩ := Option.map_eq_some_iff.mp hresult
        cases hsame
        exact ⟨boundary, summary, rfl, Nat.pos_of_ne_zero hinside.1, hinside.2, hnormalized⟩

theorem safeRoundBoundary_of_length_le {messages : List Dict} {splitIndex : ℕ}
    (hbehind : messages.length ≤ splitIndex) :
    safeRoundBoundaryAtOrBefore messages splitIndex = messages.length := by
  have hrounds : ∀ (offset : ℕ) (rounds : List (List Dict)),
      messages.length = offset + rounds.flatten.length →
        roundBoundary messages.length splitIndex offset rounds = messages.length := by
    intro offset rounds
    induction rounds generalizing offset with
    | nil => exact fun _ => Nat.min_eq_right hbehind
    | cons round rest ih =>
        intro hlength
        rw [flatten_cons, length_append, ← Nat.add_assoc] at hlength
        rw [roundBoundary, if_neg (by omega)]
        exact ih _ hlength
  exact hrounds 0 _ (by rw [flatten_groupApiRounds, Nat.zero_add])

/-- One summary takes the place of the first rounds, and the others are kept as they are; they
hold the user turns that were asked for, and no call loses its answer. -/
theorem summarizeOld_keepsTail {environment : Environment} {manager : ContextManager}
    {messages result : List Dict} {keepRecentUserTurns : ℤ} {kind : CheckpointKind}
    (hvalid : AdjacencyValid environment.builtins messages)
    (hcommits : (environment.summarizeOld manager messages keepRecentUserTurns kind).1 =
      some (some result)) :
    ∃ summary rounds, Summarized environment.builtins messages keepRecentUserTurns kind result
      summary rounds := by
  obtain ⟨boundary, summary, hboundary, hpositive, hbefore, hnormalized⟩ :=
    summarizeOld_eq_some hcommits
  have hinside : boundary < messages.length := by
    by_contra hbehind
    rw [safeRoundBoundary_of_length_le (not_lt.mp hbehind)] at hbefore
    exact lt_irrefl _ hbefore
  obtain ⟨rounds, hrounds, hplace, hle⟩ := safeRoundBoundary_eq hinside
  have hsplit : messages = ((groupApiRounds messages).take rounds).flatten ++
      ((groupApiRounds messages).drop rounds).flatten := by
    rw [← flatten_append, take_append_drop, flatten_groupApiRounds]
  have htail : messages.drop (safeRoundBoundaryAtOrBefore messages boundary) =
      ((groupApiRounds messages).drop rounds).flatten := by
    have hdrop := congrArg (List.drop ((groupApiRounds messages).take rounds).flatten.length) hsplit
    rwa [drop_left, ← hplace] at hdrop
  have hsome : 0 < rounds := by
    by_contra hzero
    simp [hplace, Nat.eq_zero_of_not_pos hzero] at hpositive
  have hstart : ∀ message ∈ ((groupApiRounds messages).drop rounds).flatten.head?,
      isTool message = false := by
    intro message hmessage
    have hmem : (groupApiRounds messages)[rounds] ∈ (groupApiRounds messages).tail := by
      rw [mem_iff_getElem]
      exact ⟨rounds - 1, by rw [length_tail]; omega, by simp [Nat.sub_add_cancel hsome]⟩
    obtain ⟨first, others, hround, hassistant⟩ := groupApiRounds_roundsBehind messages _ hmem
    rw [drop_eq_getElem_cons hrounds] at hmessage
    rw [hround] at hmessage
    cases hmessage
    exact isTool_of_isAssistant hassistant
  have hparts := hvalid
  rw [hsplit] at hparts
  obtain ⟨hfront, hback⟩ := hparts.of_append hstart
  have hkept := hback.summarized kind summary
  rw [htail, hkept.normalizeHistory] at hnormalized
  cases hnormalized
  obtain ⟨marks, hmarks, hcount⟩ := count_of_boundary hboundary
    ⟨lt_of_lt_of_le hpositive hle, hinside⟩
  refine ⟨summary, rounds, ⟨hsome, hrounds⟩, hsplit, rfl, ?_, hfront, hkept⟩
  rw [← htail]
  refine ⟨_, Converting.mapM_drop hmarks _, ?_⟩
  rw [← hcount]
  exact_mod_cast ((drop_sublist_drop_left marks hle).count_le true)

/-! ## A summary of one round -/

def spoken (role content : String) : Dict :=
  [(lit "role", .str (lit role)), (lit "content", .str (lit content))]

/-- A summarizer that answers every request with one text. -/
def replying (summary : String) : Environment where
  builtins := ReplayEnvelope.noBuiltins
  estimate _ := some 1
  forecast _ tokens := tokens
  caption _ := none
  generate _ _ _ _ := .text (lit summary)
  extract _ := none
  newId := []
  now := 0

def unbounded : ContextManager where
  snipWall := 0
  semanticWall := 0
  snipMinGain := 0
  emergencyAt := 0

def exchange : List Dict :=
  [spoken "user" "first", spoken "assistant" "done", spoken "user" "second",
    callMessage "call_1", resultMessage "call_1" "output", spoken "user" "third"]

theorem summarizeOld_keepsTail_exchange :
    ∃ result, ∃ summary rounds, Summarized ReplayEnvelope.noBuiltins exchange 1 .partialPrefix
      result summary rounds := by
  have hvalid : AdjacencyValid (replying "earlier").builtins exchange := by decide +kernel
  have hcommits : ((replying "earlier").summarizeOld unbounded exchange 1 .partialPrefix).1 =
      some (some (summaryMessage .partialPrefix (lit "earlier") :: exchange.drop 3)) := by
    decide +kernel
  exact ⟨_, summarizeOld_keepsTail hvalid hcommits⟩

end ReuleauxCoder.Context
