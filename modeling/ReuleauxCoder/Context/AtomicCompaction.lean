import ReuleauxCoder.Context.SummarizedTail

/-!
# Compaction commits once

Every layer works on copies, so a call that fails on its way leaves the history alone.  What can
still fail behind the assignments is the notice for the user: it shows parts of the new messages,
and nothing takes the commit back when one of them cannot be shown.
-/

namespace ReuleauxCoder.Context

open PyText PyJson ToolHistory

/-! ## What a call leaves -/

/-- The history is as before, apart from cached token counts. -/
structure Untouched (before : ContextManager) (messages : List Dict) (result : Compression) :
    Prop where
  messages : result.messages.map withoutCount = messages.map withoutCount
  historyVersion : result.manager.historyVersion = before.historyVersion
  cacheEpoch : result.manager.cacheEpoch = before.cacheEpoch
  checkpoints : result.manager.checkpoints = before.checkpoints

/-- One rewrite is committed, with its checkpoint. -/
structure Committed (before : ContextManager) (result : Compression) : Prop where
  historyVersion : result.manager.historyVersion = before.historyVersion + 1
  cacheEpoch : result.manager.cacheEpoch = before.cacheEpoch + 1
  checkpoints : ∃ checkpoint, result.manager.checkpoints = before.checkpoints ++ [checkpoint] ∧
    checkpoint.replacementHistory = result.messages.map withoutCount

/-- A call that raises has either left the history alone or failed on the notice behind its
commit. -/
def Atomic (environment : Environment) (before : ContextManager) (messages : List Dict)
    (result : Compression) : Prop :=
  match result.outcome with
  | .returned false => Untouched before messages result
  | .returned true => Committed before result
  | .raised => Untouched before messages result ∨ Committed before result ∧
      before.hasUi = true ∧ environment.canSnapshot result.messages = false

/-! ## Counting -/

theorem countTokens_kept (estimate : Dict → Option ℤ) (messages : List Dict) :
    (countTokens estimate messages).2.map withoutCount = messages.map withoutCount := by
  induction messages with
  | nil => rfl
  | cons message rest ih =>
      rw [countTokens]
      cases cachedCount message with
      | some count => exact congrArg (withoutCount message :: ·) ih
      | none =>
          cases estimate message with
          | none => rfl
          | some count =>
              dsimp only
              rw [List.map_cons, List.map_cons, ih, withoutCount, drop_store_self, withoutCount]

section Calls

variable (environment : Environment) (manager : ContextManager)

theorem contextTokens_kept (messages : List Dict) :
    (environment.contextTokens messages).2.map withoutCount = messages.map withoutCount := by
  rw [Environment.contextTokens]
  split
  · exact countTokens_kept environment.estimate messages
  · split
    · rfl
    · exact countTokens_kept environment.estimate messages
    · split <;> rfl

theorem predict_kept (messages : List Dict) :
    (environment.predict manager messages).2.map withoutCount = messages.map withoutCount :=
  contextTokens_kept environment messages

/-! ## Managers that differ in counters alone -/

/-- What no layer changes. -/
structure SameHistory (before after : ContextManager) : Prop where
  historyVersion : after.historyVersion = before.historyVersion
  cacheEpoch : after.cacheEpoch = before.cacheEpoch
  checkpoints : after.checkpoints = before.checkpoints
  hasUi : after.hasUi = before.hasUi

theorem SameHistory.refl : SameHistory manager manager := ⟨rfl, rfl, rfl, rfl⟩

variable {environment manager}

theorem SameHistory.trans {before middle after : ContextManager}
    (hfirst : SameHistory before middle) (hsecond : SameHistory middle after) :
    SameHistory before after where
  historyVersion := hsecond.historyVersion.trans hfirst.historyVersion
  cacheEpoch := hsecond.cacheEpoch.trans hfirst.cacheEpoch
  checkpoints := hsecond.checkpoints.trans hfirst.checkpoints
  hasUi := hsecond.hasUi.trans hfirst.hasUi

variable {later : ContextManager}

theorem summarizeLayer_same {messages : List Dict} {semanticDue : Bool}
    {result : Option (List Dict × Bool)}
    (hresult : environment.summarizeLayer manager messages semanticDue = (later, result)) :
    SameHistory manager later := by
  rw [Environment.summarizeLayer] at hresult
  split at hresult
  · cases hresult
    exact ⟨rfl, rfl, rfl, rfl⟩
  · cases hresult
    exact SameHistory.refl manager

theorem rewriteHistory_same {candidate : List Dict} {layers : List Text}
    {semanticDue emergencyDue : Bool} {snipGain : ℤ} {result : Option (Option Rewrite)}
    (hresult : environment.rewriteHistory manager candidate layers semanticDue emergencyDue
      snipGain = (later, result)) : SameHistory manager later := by
  rw [Environment.rewriteHistory] at hresult
  split at hresult
  · rename_i hsummarized
    cases hresult
    exact summarizeLayer_same hsummarized
  · rename_i middle _ _ hsummarized
    have hmiddle := summarizeLayer_same hsummarized
    dsimp only at hresult
    split at hresult
    · cases hresult
      exact hmiddle
    · split at hresult
      · cases hresult
        exact hmiddle
      · split at hresult
        · cases hresult
          exact hmiddle.trans ⟨rfl, rfl, rfl, rfl⟩
        · cases hresult
          exact hmiddle

/-! ## The call -/

theorem untouched_of_same {messages counted : List Dict}
    (hmessages : counted.map withoutCount = messages.map withoutCount)
    (hsame : SameHistory manager later) (outcome : Outcome) :
    Untouched manager messages ⟨outcome, later, counted⟩ :=
  ⟨hmessages, hsame.historyVersion, hsame.cacheEpoch, hsame.checkpoints⟩

theorem committed_commit (hsame : SameHistory manager later) (rewritten : Rewrite) (trigger : Text)
    (beforeTokens : ℤ) :
    Committed manager (environment.commit later rewritten trigger beforeTokens) where
  historyVersion := congrArg (· + 1) hsame.historyVersion
  cacheEpoch := congrArg (· + 1) hsame.cacheEpoch
  checkpoints :=
    ⟨environment.checkpointOf later rewritten trigger beforeTokens,
      congrArg (· ++ [_]) hsame.checkpoints, rfl⟩

theorem atomic_commit {messages : List Dict} (hsame : SameHistory manager later)
    (rewritten : Rewrite) (trigger : Text) (beforeTokens : ℤ) :
    Atomic environment manager messages
      (environment.commit later rewritten trigger beforeTokens) := by
  have hcommitted : Committed manager
      (environment.commit later rewritten trigger beforeTokens) :=
    committed_commit hsame rewritten trigger beforeTokens
  rw [Atomic]
  by_cases hshown : later.hasUi && !environment.canSnapshot rewritten.messages
  · have houtcome : (environment.commit later rewritten trigger beforeTokens).outcome = .raised :=
      if_pos hshown
    rw [houtcome]
    rw [Bool.and_eq_true, Bool.not_eq_true'] at hshown
    exact .inr ⟨hcommitted, hsame.hasUi ▸ hshown.1, hshown.2⟩
  · have houtcome : (environment.commit later rewritten trigger beforeTokens).outcome =
        .returned true := if_neg hshown
    rw [houtcome]
    exact hcommitted

end Calls

/-- Whatever the layers do, a call either leaves the history alone or commits one rewrite, and
only the notice behind the commit can fail after it. -/
theorem maybeCompress_atomic (environment : Environment) (manager : ContextManager)
    (messages : List Dict) :
    Atomic environment manager messages (environment.maybeCompress manager messages) := by
  have hcounted := predict_kept environment manager messages
  rw [Environment.maybeCompress]
  generalize environment.predict manager messages = predicted at hcounted
  obtain ⟨tokens, counted⟩ := predicted
  have hquiet := fun outcome => untouched_of_same hcounted (SameHistory.refl manager) outcome
  cases tokens with
  | none => exact .inl (hquiet .raised)
  | some beforeTokens =>
      dsimp only
      split
      · exact hquiet (.returned false)
      split
      · exact .inl (hquiet .raised)
      split
      · exact .inl (hquiet .raised)
      split
      · exact hquiet (.returned false)
      split
      · exact .inl (hquiet .raised)
      split
      · rename_i hresult
        exact .inl (untouched_of_same hcounted (rewriteHistory_same hresult) .raised)
      · rename_i hresult
        exact untouched_of_same hcounted (rewriteHistory_same hresult) (.returned false)
      · rename_i hresult
        exact atomic_commit (rewriteHistory_same hresult) _ _ _

/-! ## A notice that cannot be shown -/

/-- An estimate that reads contents as the notice does. -/
def reading : Environment :=
  { replying "earlier" with
    estimate := fun message =>
      if (replying "earlier").isReadable (field message "content") then some 1 else none }

def watched : ContextManager where
  hasUi := true
  summarizeKeepRecentTurns := 1
  snipWall := 12
  semanticWall := 15
  snipMinGain := 4
  emergencyAt := 18

/-- A result whose image part lacks every field, counted when it could still be read. -/
def brokenImage : Dict :=
  [(lit "role", .str (lit "tool")), (lit "tool_call_id", .str (lit "call_1")),
    (lit "content", .arr [.obj [(lit "type", .str (lit "image"))]]), (tokenCountKey, .int 1)]

def longExchange : List Dict :=
  (List.replicate 4 [spoken "user" "question", spoken "assistant" "answer"]).flatten ++
    callMessage "call_1" :: brokenImage :: List.replicate 6 (spoken "user" "more")

theorem maybeCompress_raises_committed :
    let result := reading.maybeCompress watched longExchange
    result.outcome = .raised ∧ ¬Untouched watched longExchange result := by
  refine ⟨by decide +kernel, fun huntouched => ?_⟩
  have hversion : (reading.maybeCompress watched longExchange).manager.historyVersion = 1 := by
    decide +kernel
  rw [huntouched.historyVersion] at hversion
  cases hversion

end ReuleauxCoder.Context
