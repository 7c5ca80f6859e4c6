import ReuleauxCoder.Context.AtomicCompaction

/-!
# Compaction on request

`force_compress` runs one layer whatever the thresholds say.  It works on the messages themselves
rather than on a copy, so what it raises in the middle leaves them as far as the layer came.
-/

namespace ReuleauxCoder.Context

open PyText PyJson ToolHistory

namespace Environment

variable (environment : Environment)

/-- What a collapse leaves that does not come back: the list is cleared before the new messages
are reconciled, but behind the summary. -/
def brokenCollapse (manager : ContextManager) (messages : List Dict) : List Dict :=
  let splitIndex := recentRoundStart messages 2
  let summary := environment.getSummary manager (messages.take splitIndex) .fullRecovery
    (groupApiRounds (messages.drop splitIndex)).length
  if summary.1.isSome then [] else messages

/-- The layer of a strategy: the manager and the messages it leaves, and whether it has changed
them, `none` where it raises. -/
def forceLayer (manager : ContextManager) (messages : List Dict) (strategy : Text) :
    ContextManager × List Dict × Option Bool :=
  if strategy = lit "snip" then
    let snipped := snipToolOutputs environment.builtins manager messages
    (manager, snipped.1, some snipped.2)
  else if strategy = lit "summarize" then
    let summarized := environment.summarizeOld manager messages manager.summarizeKeepRecentTurns
      .partialPrefix
    let manager := { manager with consecutiveSummaryFailures := summarized.2 }
    match summarized.1 with
    | none => (manager, messages, none)
    | some none => (manager, messages, some false)
    | some (some replacement) => (manager, replacement, some true)
  else if strategy = lit "collapse" then
    if messages.length ≤ 4 then (manager, messages, some false)
    else
      let collapsed := environment.hardCollapse manager messages
      let later := { manager with consecutiveSummaryFailures := collapsed.2 }
      match collapsed.1 with
      | none => (later, environment.brokenCollapse manager messages, none)
      | some replacement => (later, replacement, some true)
  else (manager, messages, some false)

/-- The assignments of `force_compress`, which notes no invalidated suffix. -/
def commitForced (manager : ContextManager) (rewritten : Rewrite) (beforeTokens : ℤ) :
    Compression :=
  let committed := environment.commit manager rewritten (lit "manual") beforeTokens
  { committed with
    manager := {
      committed.manager with
      checkpoints := manager.checkpoints ++
        [{ environment.checkpointOf manager rewritten (lit "manual") beforeTokens with
          invalidatedSuffixTokens := none }] } }

def forceCompress (manager : ContextManager) (messages : List Dict) (strategy : Text) :
    Compression :=
  match environment.predict manager messages with
  | (none, messages) => ⟨.raised, manager, messages⟩
  | (some beforeTokens, messages) =>
      if !environment.canSnapshot messages then ⟨.raised, manager, messages⟩
      else
        match environment.forceLayer manager messages strategy with
        | (manager, messages, none) => ⟨.raised, manager, messages⟩
        | (manager, messages, some false) => ⟨.returned false, manager, messages⟩
        | (manager, messages, some true) =>
            match environment.predict manager messages with
            | (none, messages) => ⟨.raised, manager, messages⟩
            | (some afterTokens, messages) =>
                environment.commitForced manager ⟨messages, afterTokens, [strategy]⟩ beforeTokens

end Environment

/-! ## Both ways in -/

inductive Call where
  | maybe
  | force (strategy : Text)
  deriving DecidableEq

namespace Environment

variable (environment : Environment)

def compress (manager : ContextManager) (messages : List Dict) : Call → Compression
  | .maybe => environment.maybeCompress manager messages
  | .force strategy => environment.forceCompress manager messages strategy

/-- What `maybe_compress` hands to the rewriting: the candidate, its layers, whether a summary and
whether a collapse is due, and what the layers have gained. -/
def prepared (manager : ContextManager) (messages : List Dict) :
    Option (List Dict × List Text × Bool × Bool × ℤ) :=
  match environment.predict manager messages with
  | (none, _) => none
  | (some beforeTokens, messages) =>
      let snipDue := manager.autoSnip && manager.snipWall ≤ beforeTokens
      let semanticDue := manager.autoSummarize && manager.semanticWall ≤ beforeTokens
      let emergencyDue := manager.autoCollapse && manager.emergencyAt ≤ beforeTokens
      match if snipDue then environment.snipLayers manager messages else some (messages, []) with
      | none => none
      | some (candidate, layers) =>
          match environment.predict manager candidate with
          | (none, _) => none
          | (some candidatePrediction, candidate) =>
              some (candidate, layers, semanticDue, emergencyDue,
                max 0 (beforeTokens - candidatePrediction))

/-- The messages that a rewriting hands to `_hard_collapse`, where it comes to that. -/
def collapseCandidate (manager : ContextManager) (candidate : List Dict)
    (semanticDue emergencyDue : Bool) : Option (List Dict) :=
  match environment.summarizeLayer manager candidate semanticDue with
  | (_, none) => none
  | (manager, some (candidate, _)) =>
      match environment.predict manager candidate with
      | (none, _) => none
      | (some afterTokens, candidate) =>
          if emergencyDue && manager.emergencyAt < afterTokens && 4 < candidate.length then
            some candidate
          else none

/-- The messages that a call hands to `_hard_collapse`, where it comes to that. -/
def collapseInput (manager : ContextManager) (messages : List Dict) : Call → Option (List Dict)
  | .maybe => (environment.prepared manager messages).bind fun (candidate, _, semantic, emergency, _) =>
      environment.collapseCandidate manager candidate semantic emergency
  | .force strategy =>
      let counted := (environment.predict manager messages).2
      if strategy = lit "collapse" ∧ 4 < counted.length then some counted else none

end Environment

section Commits

variable {environment : Environment} {manager : ContextManager} {messages : List Dict}

theorem strategy_of_added {before after : List CompactionCheckpoint}
    {committed checkpoint : CompactionCheckpoint} (hsame : after = before)
    (hadded : after ++ [committed] = before ++ [checkpoint]) :
    committed.strategy = checkpoint.strategy := by
  rw [hsame] at hadded
  exact congrArg CompactionCheckpoint.strategy (List.cons.inj (List.append_cancel_left hadded)).1

theorem forceLayer_checkpoints (environment : Environment) (manager : ContextManager)
    (messages : List Dict) (strategy : Text) :
    (environment.forceLayer manager messages strategy).1.checkpoints = manager.checkpoints := by
  rw [Environment.forceLayer]
  split
  · rfl
  split
  · dsimp only
    split <;> rfl
  split
  · split
    · rfl
    · dsimp only
      split <;> rfl
  · rfl

/-- A call that adds a checkpoint has rewritten what it prepared. -/
theorem maybeCompress_commits {checkpoint : CompactionCheckpoint}
    (hcommits : (environment.maybeCompress manager messages).manager.checkpoints =
      manager.checkpoints ++ [checkpoint]) :
    ∃ candidate layers semanticDue emergencyDue snipGain later rewritten,
      environment.prepared manager messages =
        some (candidate, layers, semanticDue, emergencyDue, snipGain) ∧
      environment.rewriteHistory manager candidate layers semanticDue emergencyDue snipGain =
        (later, some (some rewritten)) ∧
      checkpoint.strategy = rewritten.layers ∧
      (environment.maybeCompress manager messages).messages = rewritten.messages := by
  have hunchanged : manager.checkpoints ≠ manager.checkpoints ++ [checkpoint] := by simp
  rw [Environment.maybeCompress] at hcommits ⊢
  rw [Environment.prepared]
  generalize environment.predict manager messages = predicted at hcommits ⊢
  obtain ⟨tokens, counted⟩ := predicted
  cases tokens with
  | none => exact absurd hcommits hunchanged
  | some beforeTokens =>
      dsimp only at hcommits ⊢
      split at hcommits
      · exact absurd hcommits hunchanged
      rename_i hdue
      rw [if_neg hdue]
      generalize (if manager.autoSnip && manager.snipWall ≤ beforeTokens then
        environment.snipLayers manager counted else some (counted, [])) = layered at hcommits ⊢
      rcases layered with _ | ⟨candidate, layers⟩
      · exact absurd hcommits hunchanged
      dsimp only at hcommits ⊢
      generalize environment.predict manager candidate = predicted at hcommits ⊢
      rcases predicted with ⟨_ | candidatePrediction, recounted⟩
      · exact absurd hcommits hunchanged
      dsimp only at hcommits ⊢
      split at hcommits
      · exact absurd hcommits hunchanged
      rename_i hgain
      rw [if_neg hgain]
      split at hcommits
      · exact absurd hcommits hunchanged
      rename_i hshown
      rw [if_neg hshown]
      split at hcommits
      · rename_i hresult
        rw [(rewriteHistory_same hresult).checkpoints] at hcommits
        exact absurd hcommits hunchanged
      · rename_i hresult
        rw [(rewriteHistory_same hresult).checkpoints] at hcommits
        exact absurd hcommits hunchanged
      · rename_i later rewritten hresult
        refine ⟨_, _, _, _, _, later, rewritten, rfl, hresult, ?_, rfl⟩
        have hadded := strategy_of_added (rewriteHistory_same hresult).checkpoints hcommits
        exact hadded.symm

theorem forceCompress_commits {strategy : Text} {checkpoint : CompactionCheckpoint}
    (hcommits : (environment.forceCompress manager messages strategy).manager.checkpoints =
      manager.checkpoints ++ [checkpoint]) :
    ∃ later replaced afterTokens,
      environment.forceLayer manager (environment.predict manager messages).2 strategy =
        (later, replaced, some true) ∧
      environment.predict later replaced =
        (some afterTokens, (environment.forceCompress manager messages strategy).messages) ∧
      checkpoint.strategy = [strategy] := by
  have hunchanged : manager.checkpoints ≠ manager.checkpoints ++ [checkpoint] := by simp
  rw [Environment.forceCompress] at hcommits ⊢
  generalize environment.predict manager messages = predicted at hcommits ⊢
  obtain ⟨tokens, counted⟩ := predicted
  cases tokens with
  | none => exact absurd hcommits hunchanged
  | some beforeTokens =>
      dsimp only at hcommits ⊢
      split at hcommits
      · exact absurd hcommits hunchanged
      rename_i hshown
      rw [if_neg hshown]
      have hkept := forceLayer_checkpoints environment manager counted strategy
      generalize environment.forceLayer manager counted strategy = layered at hcommits hkept ⊢
      obtain ⟨later, replaced, changed⟩ := layered
      dsimp only at hkept
      cases changed with
      | none => exact absurd (hkept.symm.trans hcommits) hunchanged
      | some changed =>
          cases changed with
          | false => exact absurd (hkept.symm.trans hcommits) hunchanged
          | true =>
              dsimp only at hcommits ⊢
              generalize hcounted : environment.predict later replaced = after at hcommits ⊢
              obtain ⟨afterTokens, messages⟩ := after
              cases afterTokens with
              | none => exact absurd (hkept.symm.trans hcommits) hunchanged
              | some afterTokens =>
                  have hadded := strategy_of_added hkept hcommits
                  exact ⟨later, replaced, afterTokens, rfl, hcounted, hadded.symm⟩

end Commits

end ReuleauxCoder.Context
