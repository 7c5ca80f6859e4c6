import ReuleauxCoder.Providers.AnthropicTurns
import ReuleauxCoder.Providers.ChatHistory
import ReuleauxCoder.Providers.ResponsesHistory

/-!
# Conversion keeps a history

The three converters rearrange a history, each in its own way.  A valid history comes out
valid in the terms of each provider, with everything it says in order.
-/

namespace ReuleauxCoder.Providers

open Check PyText PyJson Context Exchanges

/-- Whatever converter takes a valid history without an error keeps it: its pieces, their order
and the answers of its calls. -/
theorem conversion_keeps_history {builtins : Builtins} {strays : Prop} {source : List Json}
    (hvalid : ValidHistory builtins strays source) :
    (∀ system messages, anthropicMessages builtins source = .ok (system, messages) →
      AnthropicKeeps builtins strays source system messages) ∧
    (∀ volatileTailCount cacheMode items, (∀ message ∈ source, isReplayed message = false) →
      responsesInput builtins (.arr source) volatileTailCount cacheMode = .ok items →
        ResponsesKeeps builtins strays source items) ∧
    (∀ messages, chatMessages builtins source = .ok messages →
      ChatKeeps builtins strays source messages) :=
  ⟨fun _ _ hmessages => anthropicMessages_keeps hvalid hmessages,
    fun _ _ _ hreplay hitems => responsesInput_keeps hvalid hreplay hitems,
    fun _ hmessages => chatMessages_keeps hvalid hmessages⟩

def listCall : Json :=
  .obj [(lit "role", .str (lit "assistant")), (lit "content", .null),
    (lit "tool_calls", .arr [.obj [(lit "id", .str (lit "0")),
      (lit "function", .obj [(lit "name", .str (lit "ls")),
        (lit "arguments", .str (lit "\x7b\x7d"))])]])]

def listResult : Json :=
  .obj [(lit "role", .str (lit "tool")), (lit "tool_call_id", .str (lit "0")),
    (lit "content", .str (lit "done"))]

/-- A question, a call and its result. -/
def shortHistory : List Json :=
  [userMessage "look", listCall, listResult]

theorem shortHistory_valid : ValidHistory plainBuiltins False shortHistory where
  callers := by
    rw [shortHistory, List.forall_mem_cons, List.forall_mem_cons, List.forall_mem_singleton]
    exact ⟨fun hcalls => absurd rfl hcalls, fun _ => rfl, fun hcalls => absurd rfl hcalls⟩
  answered := by
    have hexchange : Answered (messageProtocol plainBuiltins) False False
        ([listCall] ++ [listResult] ++ []) := by
      apply Answered.exchange (List.cons_ne_nil _ _) (.inl rfl)
      · exact List.forall_mem_singleton.mpr ⟨List.cons_ne_nil _ _, rfl⟩
      · exact List.forall_mem_singleton.mpr rfl
      · exact List.Perm.refl _
      · exact .nil
    exact .quiet ⟨rfl, rfl⟩ hexchange

theorem conversion_keeps_short_history :
    (∃ system messages, anthropicMessages plainBuiltins shortHistory = .ok (system, messages) ∧
      AnthropicKeeps plainBuiltins False shortHistory system messages) ∧
    (∃ items, responsesInput plainBuiltins (.arr shortHistory) 0 (lit "explicit") = .ok items ∧
      ResponsesKeeps plainBuiltins False shortHistory items) ∧
    (∃ messages, chatMessages plainBuiltins shortHistory = .ok messages ∧
      ChatKeeps plainBuiltins False shortHistory messages) := by
  obtain ⟨hanthropic, hresponses, hchat⟩ := conversion_keeps_history shortHistory_valid
  have hreplay : ∀ message ∈ shortHistory, isReplayed message = false := by
    rw [shortHistory, List.forall_mem_cons, List.forall_mem_cons, List.forall_mem_singleton]
    exact ⟨rfl, rfl, rfl⟩
  exact ⟨⟨_, _, rfl, hanthropic _ _ rfl⟩, ⟨_, rfl, hresponses 0 (lit "explicit") _ hreplay rfl⟩,
    ⟨_, rfl, hchat _ rfl⟩⟩

end ReuleauxCoder.Providers
