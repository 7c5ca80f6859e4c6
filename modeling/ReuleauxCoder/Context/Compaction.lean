import ReuleauxCoder.Context.Rounds
import ReuleauxCoder.Library.Lines

/-!
# Compaction of a conversation

`ContextManager` rewrites a copy of the messages in layers and puts the copy in their place when
all layers are done.  The tokenizer, the forecast from provider usage, the summarizer and the
provider's own compaction are left to the environment; each of them may raise.
-/

namespace ReuleauxCoder.Context

open PyText PyJson ToolHistory
open History (isHashable)

/-! ## Messages -/

/-- A message without its cached token count. -/
def withoutCount (message : Dict) : Dict :=
  drop tokenCountKey message

inductive CheckpointKind where
  | partialPrefix
  | fullRecovery
  deriving DecidableEq

def CheckpointKind.name : CheckpointKind → Text
  | .partialPrefix => lit "partial_prefix"
  | .fullRecovery => lit "full_recovery"

/-- `html.escape(text, quote=False)`. -/
def escape (text : Text) : Text :=
  text.flatMap fun character =>
    if character = ofChar '&' then lit "&amp;"
    else if character = ofChar '<' then lit "&lt;"
    else if character = ofChar '>' then lit "&gt;"
    else [character]

/-- The `context_summary` block of `synthetic_user_message`. -/
def summaryMessage (kind : CheckpointKind) (summary : Text) : Dict :=
  [(lit "role", .str (lit "user")),
    (lit "content", .str (lit "<context_summary kind=\"" ++ kind.name ++
      lit "\" source=\"context_compactor\">\n" ++ escape summary ++ lit "\n</context_summary>")),
    (lit "_rc_synthetic_context", .obj [(lit "tag", .str (lit "context_summary")),
      (lit "source", .str (lit "context_compactor"))])]

/-- `normalize_history`. -/
def normalizeHistory (builtins : Builtins) (messages : List Dict) (reason : String) :
    Option (List Dict) :=
  let missingContent : Text → Text → Text := fun _ toolName =>
    lit "Tool '" ++ toolName ++ lit "' did not return output before " ++ lit reason ++ lit "."
  (reconcileToolCallAdjacency builtins (some missingContent) messages).map Reconciled.repaired

/-- `part.get("type")`, where it can be looked up in a set. -/
def partType? (part : Json) : Option Json :=
  match part with
  | .obj fields => if isHashable (field fields "type") then some (field fields "type") else none
  | _ => some .null

/-- Whether `image_parts` finds any part. -/
def hasImages (messages : List Dict) : Option Bool := do
  let marks ← messages.mapM fun message =>
    match field message "content" with
    | .arr parts => do
        let types ← parts.mapM partType?
        return types.any fun type =>
          type = .str (lit "image") || type = .str (lit "image_url")
    | _ => some false
  return marks.any id

/-! ## The environment -/

/-- How a call of the summarizer ends.  A failure of a cancelled call is raised again. -/
inductive Summary where
  | text (summary : Text)
  | failed (cancelled : Bool)
  deriving DecidableEq

structure UsageObservation where
  actualPromptTokens : ℤ
  cachedInputTokens : Option ℤ
  deriving DecidableEq

structure CompactionCheckpoint where
  id : Text
  trigger : Text
  strategy : List Text
  sourceHistoryVersion : ℤ
  replacementHistory : List Dict
  tokensBefore : ℤ
  tokensAfter : ℤ
  preservedRounds : ℤ
  createdAt : ℚ
  cacheEpoch : ℤ
  actualPromptTokens : Option ℤ
  cachedInputTokens : Option ℤ
  invalidatedSuffixTokens : Option ℤ
  reclaimedTokens : ℤ

/-- `ContextManager`; the thresholds are those that `_recompute_thresholds` stored. -/
structure ContextManager where
  hasUi : Bool := false
  autoSnip : Bool := true
  autoSummarize : Bool := true
  autoCollapse : Bool := true
  snipKeepRecentTools : ℤ := 2
  snipThresholdChars : ℤ := 1500
  snipMinLines : ℤ := 6
  summarizeKeepRecentTurns : ℤ := 5
  snipWall : ℤ
  semanticWall : ℤ
  snipMinGain : ℤ
  emergencyAt : ℤ
  historyVersion : ℤ := 0
  cacheEpoch : ℤ := 0
  checkpoints : List CompactionCheckpoint := []
  consecutiveSummaryFailures : ℕ := 0
  latestUsage : Option UsageObservation := none

/-- What the manager calls.  `none` is an exception; `estimate` counts the tokens of one message,
`forecast` makes a request size of a count, and `caption` reads an image part. -/
structure Environment where
  builtins : Builtins
  estimate : Dict → Option ℤ
  projection : Option (List Dict → Option (List Dict)) := none
  forecast : ContextManager → ℤ → ℤ
  caption : Dict → Option Text
  compactor : Option (List Dict → ℤ → Option (Option (List Dict))) := none
  generate : List Dict → CheckpointKind → ℤ → ℕ → Summary
  extract : List Dict → Option Text
  newId : Text
  now : ℚ

/-! ## Token counts -/

/-- `isinstance(cached, int)`. -/
def cachedCount (message : Dict) : Option ℤ :=
  match lookup tokenCountKey message with
  | some (.int count) => some count
  | some (.bool count) => some (if count then 1 else 0)
  | _ => none

/-- `estimate_tokens`: the total, and the messages with their counts. -/
def countTokens (estimate : Dict → Option ℤ) : List Dict → Option ℤ × List Dict
  | [] => (some 0, [])
  | message :: rest =>
      match cachedCount message with
      | some count =>
          let counted := countTokens estimate rest
          (counted.1.map (count + ·), message :: counted.2)
      | none =>
          match estimate message with
          | none => (none, message :: rest)
          | some count =>
              let counted := countTokens estimate rest
              (counted.1.map (count + ·),
                store tokenCountKey (.int count) message :: counted.2)

namespace Environment

variable (environment : Environment)

/-- `get_context_tokens`; a projection is counted in place of messages with images. -/
def contextTokens (messages : List Dict) : Option ℤ × List Dict :=
  match environment.projection with
  | none => countTokens environment.estimate messages
  | some projection =>
      match hasImages messages with
      | none => (none, messages)
      | some false => countTokens environment.estimate messages
      | some true =>
          match projection messages with
          | none => (none, messages)
          | some projected =>
              let recounted := (messages.zip projected).map fun pair =>
                if hasImages [pair.1] = some true then withoutCount pair.2 else pair.2
              ((countTokens environment.estimate
                (recounted ++ projected.drop messages.length)).1, messages)

/-- `predict_request_tokens`. -/
def predict (manager : ContextManager) (messages : List Dict) : Option ℤ × List Dict :=
  let counted := environment.contextTokens messages
  (counted.1.map (environment.forecast manager), counted.2)

/-! ## What the user is shown -/

/-- One part of `content_text`. -/
def partText (part : Json) : Option Text :=
  match part with
  | .obj fields =>
      if field fields "type" = .str (lit "text") then
        some (match lookup (lit "text") fields with
          | some (.str text) => text
          | some value => environment.builtins.str value
          | none => [])
      else if field fields "type" = .str (lit "image") then environment.caption fields
      else if isHashable (field fields "type") then some []
      else none
  | _ => some []

/-- Whether `content_text` can project a content. -/
def isReadable : Json → Bool
  | .arr parts => (parts.mapM environment.partText).isSome
  | _ => true

/-- The messages that `_snapshot_messages` selects. -/
def selectedMessages (messages : List Dict) : List Dict :=
  if messages.length ≤ 12 then messages
  else messages.take 6 ++ messages.drop (messages.length - 6)

/-- Whether `_snapshot_messages` returns. -/
def canSnapshot (messages : List Dict) : Bool :=
  (selectedMessages messages).all fun message => environment.isReadable (field message "content")

end Environment

/-! ## Layers -/

/-- Whether a message marks a round of tool calls. -/
def callsTools (message : Dict) : Bool :=
  isAssistant message && (field message "tool_calls").truthy

/-- The backward loop of `_snip_tool_outputs`, over the messages in reverse. -/
def snipCut (keepRecent : ℤ) (rounds : ℤ) : List Dict → ℕ
  | [] => 0
  | message :: before =>
      if callsTools message then
        if keepRecent ≤ rounds + 1 then before.length else snipCut keepRecent (rounds + 1) before
      else snipCut keepRecent rounds before

/-- The shortened result of a tool, where it is long enough. -/
def snipMessage (builtins : Builtins) (manager : ContextManager) (message : Dict) : Option Dict :=
  match lookup (lit "content") message with
  | some (.str content) =>
      if (content.length : ℤ) ≤ manager.snipThresholdChars then none
      else
        let lines := splitLines content
        if (lines.length : ℤ) ≤ manager.snipMinLines then none
        else
          let toolCallId := builtins.strOr (field message "tool_call_id") (lit "unknown")
          let snipped := joinLines (lines.take 3) ++ lit "\n... (" ++ intText lines.length ++
            lit " lines, context-snipped; tool_call_id=" ++ toolCallId ++
            lit "; full committed output remains searchable in HistoryLedger) ...\n" ++
            joinLines (lines.drop (lines.length - 3))
          some (withoutCount (store (lit "content") (.str snipped) message))
  | _ => none

/-- `_snip_tool_outputs`: the messages, and whether any has changed. -/
def snipToolOutputs (builtins : Builtins) (manager : ContextManager) (messages : List Dict) :
    List Dict × Bool :=
  let cutIndex := snipCut manager.snipKeepRecentTools 0 messages.reverse
  let snipped := messages.zipIdx.map fun message =>
    if message.2 < cutIndex ∧ isTool message.1 then
      (snipMessage builtins manager message.1).map fun changed => (changed, true)
    else none
  ((messages.zip snipped).map fun pair => (pair.2.map Prod.fst).getD pair.1,
    snipped.any Option.isSome)

namespace Environment

variable (environment : Environment)

/-- `_get_summary`: the summary, `none` where it raises, and the failures in a row. -/
def getSummary (manager : ContextManager) (messages : List Dict) (kind : CheckpointKind)
    (recentRoundsPreserved : ℕ) : Option Text × ℕ :=
  match environment.generate messages kind manager.historyVersion recentRoundsPreserved with
  | .text summary => (some summary, 0)
  | .failed true => (none, manager.consecutiveSummaryFailures)
  | .failed false => (environment.extract messages, manager.consecutiveSummaryFailures + 1)

/-- `_summarize_old`; an exception leaves no messages, and `none` in them is a `False`. -/
def summarizeOld (manager : ContextManager) (messages : List Dict) (keepRecentUserTurns : ℤ)
    (kind : CheckpointKind) : Option (Option (List Dict)) × ℕ :=
  match findRecentUserTurnBoundary messages keepRecentUserTurns with
  | none => (none, manager.consecutiveSummaryFailures)
  | some boundary =>
      let splitIndex := safeRoundBoundaryAtOrBefore messages boundary
      if splitIndex = 0 ∨ messages.length ≤ splitIndex then
        (some none, manager.consecutiveSummaryFailures)
      else
        let old := messages.take splitIndex
        let tail := messages.drop splitIndex
        let summary := environment.getSummary manager old kind (groupApiRounds tail).length
        (summary.1.bind fun text =>
          (normalizeHistory environment.builtins (summaryMessage kind text :: tail)
            "context compaction").map some, summary.2)

/-- `_hard_collapse`. -/
def hardCollapse (manager : ContextManager) (messages : List Dict) : Option (List Dict) × ℕ :=
  let splitIndex := recentRoundStart messages 2
  let tail := messages.drop splitIndex
  let summary := environment.getSummary manager (messages.take splitIndex) .fullRecovery
    (groupApiRounds tail).length
  (summary.1.bind fun text =>
    normalizeHistory environment.builtins (summaryMessage .fullRecovery text :: tail)
      "hard context compaction", summary.2)

end Environment

/-! ## Compressing -/

/-- A candidate for the new messages, its size, and the layers that made it. -/
structure Rewrite where
  messages : List Dict
  tokens : ℤ
  layers : List Text

inductive Outcome where
  | returned (changed : Bool)
  | raised
  deriving DecidableEq

/-- A call's outcome, with the manager and the messages that it leaves. -/
structure Compression where
  outcome : Outcome
  manager : ContextManager
  messages : List Dict

namespace Environment

variable (environment : Environment)

/-- The layers that shorten results of tools; `none` where the compactor raises. -/
def snipLayers (manager : ContextManager) (messages : List Dict) :
    Option (List Dict × List Text) := do
  let (candidate, layers) ← match environment.compactor with
    | none => some (messages, [])
    | some compact => do
        match ← compact messages manager.snipKeepRecentTools with
        | none => some (messages, [])
        | some compacted => some (compacted, [lit "provider_tool_cache_compaction"])
  let snipped := snipToolOutputs environment.builtins manager candidate
  return (snipped.1, if snipped.2 then layers ++ [lit "snip_tool_outputs"] else layers)

/-- The summary of the old messages, where one is due: the manager, and the candidate with the
mark that it has a summary, which is missing where the call raises. -/
def summarizeLayer (manager : ContextManager) (messages : List Dict) (semanticDue : Bool) :
    ContextManager × Option (List Dict × Bool) :=
  if semanticDue then
    let summarized := environment.summarizeOld manager messages manager.summarizeKeepRecentTurns
      .partialPrefix
    ({ manager with consecutiveSummaryFailures := summarized.2 }, summarized.1.map fun replaced =>
      match replaced with
      | none => (messages, false)
      | some replacement => (replacement, true))
  else (manager, some (messages, false))

/-- The last layer, and the size of what it leaves. -/
def collapseLayer (manager : ContextManager) (messages : List Dict) (layers : List Text) :
    ContextManager × Option Rewrite :=
  let collapsed := environment.hardCollapse manager messages
  ({ manager with consecutiveSummaryFailures := collapsed.2 }, do
    let replacement ← collapsed.1
    let counted := environment.predict manager replacement
    return ⟨counted.2, ← counted.1, layers ++ [CheckpointKind.fullRecovery.name]⟩)

/-- `maybe_compress` between the two notices: the rewrite to commit, `some none` where it finds
nothing to change, and `none` where it raises. -/
def rewriteHistory (manager : ContextManager) (candidate : List Dict) (layers : List Text)
    (semanticDue emergencyDue : Bool) (snipGain : ℤ) :
    ContextManager × Option (Option Rewrite) :=
  match environment.summarizeLayer manager candidate semanticDue with
  | (manager, none) => (manager, none)
  | (manager, some (candidate, summarized)) =>
      let layers := if summarized then layers ++ [CheckpointKind.partialPrefix.name] else layers
      match environment.predict manager candidate with
      | (none, _) => (manager, none)
      | (some afterTokens, candidate) =>
          let collapseDue := emergencyDue && manager.emergencyAt < afterTokens &&
            4 < candidate.length
          if !summarized && snipGain < manager.snipMinGain && !collapseDue then
            (manager, some none)
          else if collapseDue then
            let collapsed := environment.collapseLayer manager candidate layers
            (collapsed.1, collapsed.2.map some)
          else (manager, some (some ⟨candidate, afterTokens, layers⟩))

/-- `CompactionCheckpoint.create`. -/
def checkpointOf (manager : ContextManager) (rewritten : Rewrite) (trigger : Text)
    (beforeTokens : ℤ) : CompactionCheckpoint where
  id := environment.newId
  trigger
  strategy := rewritten.layers
  sourceHistoryVersion := manager.historyVersion
  replacementHistory := rewritten.messages.map withoutCount
  tokensBefore := beforeTokens
  tokensAfter := rewritten.tokens
  preservedRounds := min manager.summarizeKeepRecentTurns (groupApiRounds rewritten.messages).length
  createdAt := environment.now
  cacheEpoch := manager.cacheEpoch + 1
  actualPromptTokens := manager.latestUsage.map UsageObservation.actualPromptTokens
  cachedInputTokens := manager.latestUsage.bind UsageObservation.cachedInputTokens
  invalidatedSuffixTokens := (manager.latestUsage.bind UsageObservation.cachedInputTokens).map
    fun cached => max 0 (beforeTokens - cached)
  reclaimedTokens := max 0 (beforeTokens - rewritten.tokens)

/-- The assignments of `maybe_compress`, and the notice behind them. -/
def commit (manager : ContextManager) (rewritten : Rewrite) (trigger : Text)
    (beforeTokens : ℤ) : Compression where
  outcome :=
    if manager.hasUi && !environment.canSnapshot rewritten.messages then .raised
    else .returned true
  manager := {
    manager with
    historyVersion := manager.historyVersion + 1
    cacheEpoch := manager.cacheEpoch + 1
    checkpoints := manager.checkpoints ++
      [environment.checkpointOf manager rewritten trigger beforeTokens]
    latestUsage := none }
  messages := rewritten.messages

def maybeCompress (manager : ContextManager) (messages : List Dict) : Compression :=
  match environment.predict manager messages with
  | (none, messages) => ⟨.raised, manager, messages⟩
  | (some beforeTokens, messages) =>
      let snipDue := manager.autoSnip && manager.snipWall ≤ beforeTokens
      let semanticDue := manager.autoSummarize && manager.semanticWall ≤ beforeTokens
      let emergencyDue := manager.autoCollapse && manager.emergencyAt ≤ beforeTokens
      if !(snipDue || semanticDue || emergencyDue) then ⟨.returned false, manager, messages⟩
      else
        match if snipDue then environment.snipLayers manager messages else some (messages, []) with
        | none => ⟨.raised, manager, messages⟩
        | some (candidate, layers) =>
            match environment.predict manager candidate with
            | (none, _) => ⟨.raised, manager, messages⟩
            | (some candidatePrediction, candidate) =>
                let snipGain := max 0 (beforeTokens - candidatePrediction)
                if !semanticDue && !emergencyDue && snipGain < manager.snipMinGain then
                  ⟨.returned false, manager, messages⟩
                else
                  let trigger :=
                    if emergencyDue then lit "emergency"
                    else if semanticDue then lit "semantic_wall"
                    else lit "profitable_snip"
                  if !environment.canSnapshot messages then ⟨.raised, manager, messages⟩
                  else
                    match environment.rewriteHistory manager candidate layers semanticDue
                      emergencyDue snipGain with
                    | (manager, none) => ⟨.raised, manager, messages⟩
                    | (manager, some none) => ⟨.returned false, manager, messages⟩
                    | (manager, some (some rewritten)) =>
                        environment.commit manager rewritten trigger beforeTokens

end Environment

end ReuleauxCoder.Context
