import ReuleauxCoder.Tools.Retention

/-!
# Truncated outcomes

The hook that archives an oversized output and projects an excerpt of it to the model,
and the check that the runtime makes before it takes over what a hook made of an outcome.
-/

namespace ReuleauxCoder.Tools

open PyText PyJson

structure ToolCall where
  id : Text
  name : Text
  arguments : List (Text × Json)

structure AfterToolExecuteContext where
  hookPoint : Text := lit "after_tool_execute"
  agentId : Option Text := none
  sessionGeneration : Option ℤ := none
  sessionId : Option Text := none
  turnId : Option Text := none
  traceId : Option Text := none
  toolCall : Option ToolCall := none
  result : Text := []
  outcome : Option ToolOutcome := none
  roundIndex : Option ℤ := none

def ToolRetentionStrategy.value : ToolRetentionStrategy → Text
  | .head => lit "head"
  | .tail => lit "tail"
  | .headTail => lit "head_tail"

/-! ## The hook -/

/-- What the hook finds outside: its directories, the clock, fresh names, and the files. -/
structure ArchiveWorld where
  outputDirectory : Text
  /-- Where the tool artifacts of a session are stored. -/
  sessionDirectory : Text → Except PyError Text
  day : Text
  uuid : Text
  sha256 : Text → Text
  write : Text → Text → Except PyError Unit
  /-- The path names a Markdown file under a skills directory. -/
  isSkillsMarkdown : Text → Bool
  uuid_hex : uuid.length = 32 ∧ isAscii uuid = true
  sha256_hex : ∀ content, (sha256 content).length = 64 ∧ isAscii (sha256 content) = true

structure ToolOutputTruncationHook where
  maxChars : ℕ
  maxLines : ℕ
  storeFullOutput : Bool
  world : ArchiveWorld

def invalidSessionId : PyError :=
  ⟨.exception, lit "ValueError"⟩

/-- `is_safe_session_id`. -/
def isSafeSessionId (sessionId : Text) : Bool :=
  match sessionId with
  | [] => false
  | c :: rest =>
      isAsciiAlphanumeric c &&
        rest.all (fun d => isAsciiAlphanumeric d || decide (d ∈ lit "_.:-")) &&
        decide (rest.length ≤ 127) && (Occurrences.find? (· == ·) (lit "..") sessionId).isNone

/-- A number with at least two digits. -/
def twoDigits (value : ℤ) : Text :=
  let text := intText value
  if text.length < 2 then lit "0" ++ text else text

namespace ToolOutputTruncationHook

variable (hook : ToolOutputTruncationHook)

/-- What an archived output is known by: an artifact of its session, or a path. -/
def artifactRef (toolName : Text) (roundIndex : Option ℤ) : Option Text → Text
  | some _ => lit "tools/" ++ hook.world.uuid ++ lit ".txt"
  | none =>
      let roundPart := match roundIndex with
        | some index => lit "round-" ++ twoDigits index
        | none => lit "round-na"
      hook.world.outputDirectory ++ lit "/" ++ hook.world.day ++ lit "/" ++ roundPart ++
        lit "-" ++ toolName ++ lit "-" ++ hook.world.uuid.take 8 ++ lit ".txt"

/-- How the archived output is recorded in the outcome. -/
def reference (toolName content : Text) (roundIndex : Option ℤ) (session : Option Text) :
    ToolArchiveReference where
  path := hook.artifactRef toolName roundIndex session
  checksumSha256 := some (hook.world.sha256 content)
  sizeBytes := some (utf8Size content)

/-- Where the output is written, for a session unless its id is empty. -/
def archivePath (toolName : Text) (roundIndex : Option ℤ) : Option Text → Except PyError Text
  | some sessionId =>
      if isSafeSessionId sessionId then
        (hook.world.sessionDirectory sessionId).map fun directory =>
          directory ++ lit "/" ++ hook.world.uuid ++ lit ".txt"
      else .error invalidSessionId
  | none => .ok (hook.artifactRef toolName roundIndex none)

/-- `_archive_output`. -/
def archiveOutput (toolName content : Text) (roundIndex : Option ℤ) (session : Option Text) :
    Except PyError ToolArchiveReference :=
  match hook.archivePath toolName roundIndex session with
  | .error error => .error error
  | .ok path =>
      (hook.world.write path content).map fun _ =>
        hook.reference toolName content roundIndex session

def shouldBypassTruncation (toolCall : ToolCall) : Bool :=
  decide (toolCall.name ∈ [lit "artifact_read", lit "history_read", lit "history_search"]) ||
    (decide (toolCall.name = lit "read_file") &&
      (decide (lookup (lit "override") toolCall.arguments = some (.bool true)) ||
        match lookup (lit "file_path") toolCall.arguments with
        | some (.str path) => decide (strip path ≠ []) && hook.world.isSkillsMarkdown path
        | _ => false))

/-- `_retention_summary`. -/
def retentionSummary (strategy : ToolRetentionStrategy) (retainedLines : ℕ)
    (anchorLine : Option ℤ) : Text :=
  let direction := match strategy with
    | .head => lit "first"
    | .tail => lit "last"
    | .headTail => lit "first/last"
  let anchor := match anchorLine with
    | some line => lit " from source line " ++ intText line
    | none => []
  lit "Showing " ++ direction ++ lit " " ++ decimal retainedLines ++ lit " retained lines" ++
    anchor ++ lit " and up to " ++ decimal hook.maxChars ++ lit " chars."

/-- The lines that say where the full output is. -/
def archiveLines (archive : Option ToolArchiveReference) (session : Option Text) : List Text :=
  match archive with
  | none => []
  | some reference =>
      if session.isSome then
        [lit "Full output artifact: " ++ reference.path,
          lit "Read it with artifact_read(artifact_ref=" ++ quoted reference.path ++ lit ")."]
      else [lit "Full output saved to: " ++ reference.path]

/-- `truncated_text`. -/
def truncatedText (outcome : ToolOutcome) : Text :=
  let result := outcome.modelText
  retainText result hook.maxLines hook.maxChars outcome.retentionHint.strategy
    (lineSummary result).2

def modelProjection (outcome : ToolOutcome) (archive : Option ToolArchiveReference)
    (session : Option Text) : Text :=
  let result := outcome.modelText
  let lineCount := (lineSummary result).1
  let charCount := result.length
  let summaryLines :=
    [lit "[truncated] Tool output exceeded limits (" ++ decimal lineCount ++ lit " lines, " ++
        decimal charCount ++ lit " chars).",
      hook.retentionSummary outcome.retentionHint.strategy
        (splitLines (hook.truncatedText outcome)).length outcome.retentionHint.anchorLine] ++
      archiveLines archive session
  List.intercalate (lit "\n") summaryLines ++ lit "\n\n--- BEGIN TRUNCATED OUTPUT ---\n" ++
    hook.truncatedText outcome ++ lit "\n--- END TRUNCATED OUTPUT ---"

def truncation (outcome : ToolOutcome) : ToolTruncation where
  originalChars := outcome.modelText.length
  originalLines := (lineSummary outcome.modelText).1
  retainedChars := (hook.truncatedText outcome).length
  retainedLines := (splitLines (hook.truncatedText outcome)).length
  strategy := outcome.retentionHint.strategy.value

/-- The outcome that takes the place of an oversized one. -/
def truncated (outcome : ToolOutcome) (archive : Option ToolArchiveReference)
    (session : Option Text) : ToolOutcome :=
  outcome.withModelProjection (hook.modelProjection outcome archive session)
    (some (hook.truncation outcome)) archive

def isOversized (outcome : ToolOutcome) : Bool :=
  !decide ((lineSummary outcome.modelText).1 ≤ hook.maxLines ∧
    outcome.modelText.length ≤ hook.maxChars)

/-- `run`. -/
def run (context : AfterToolExecuteContext) : Except PyError AfterToolExecuteContext :=
  match context.toolCall with
  | none => .ok context
  | some toolCall =>
      if hook.shouldBypassTruncation toolCall then .ok context
      else
        let outcome := context.outcome.getD
          { ToolOutcome.fromLegacy context.result 0 with durationSeconds := none }
        if !hook.isOversized outcome then .ok context
        else
          let session := context.sessionId.filter (· ≠ [])
          let archived :=
            if hook.storeFullOutput then
              (hook.archiveOutput toolCall.name outcome.modelText context.roundIndex
                session).map some
            else .ok none
          archived.map fun archive =>
            let projected := hook.truncated outcome archive session
            { context with outcome := some projected, result := projected.modelText }

end ToolOutputTruncationHook

/-! ## The check of a transformed outcome -/

def invalidAfterToolPrimaryOutcomeTransition : PyError :=
  runtimeError "InvalidAfterToolPrimaryOutcomeTransition"

def invalidContextContributionResult : PyError :=
  runtimeError "InvalidContextContributionResult"

/-- `_tool_call_signature`. -/
def toolCallSignature :
    Option ToolCall → Except PyError (Text × Text × List (Text × Json))
  | none => .error invalidContextContributionResult
  | some toolCall =>
      if isSnapshot (.str toolCall.id) && isSnapshot (.str toolCall.name) &&
          isSnapshot (.obj toolCall.arguments) then
        .ok (toolCall.id, toolCall.name, toolCall.arguments)
      else .error invalidContextContributionResult

/-- `_AFTER_FIXED_CONTEXT_FIELDS` are alike. -/
def sameFixedContext (left right : AfterToolExecuteContext) : Bool :=
  left.hookPoint = right.hookPoint && left.agentId = right.agentId &&
    left.sessionGeneration = right.sessionGeneration && left.sessionId = right.sessionId &&
    left.turnId = right.turnId && left.traceId = right.traceId &&
    left.roundIndex = right.roundIndex

/-- `_AFTER_FIXED_OUTCOME_FIELDS` are alike. -/
def sameFixedOutcome (left right : ToolOutcome) : Bool :=
  decide (left.images = right.images) && left.status = right.status &&
    left.summary = right.summary && left.content = right.content &&
    left.stdout = right.stdout && left.stderr = right.stderr && left.diff = right.diff &&
    left.exitCode = right.exitCode && left.durationSeconds = right.durationSeconds &&
    left.errorKind = right.errorKind && left.retentionHint = right.retentionHint

/-- What was said before is still said, and nothing is added that only the runtime may say. -/
def keepsMetadata (original candidate : List (Text × Json)) : Bool :=
  (original.all fun entry =>
    decide (lookup entry.1 candidate = lookup entry.1 original)) &&
    candidate.all fun entry =>
      decide (lookup entry.1 original ≠ none ∨ entry.1 ∉ runtimeMetadataKeys)

deriving instance DecidableEq for ToolOutcome

/-- The outcome that a hook returned, normalized.  An outcome that is still the original one is
not checked again; its value stands for its identity. -/
def normalizedTransform (original transformed : ToolOutcome) : Except PyError ToolOutcome :=
  if transformed = original then .ok original else normalizeToolOutcome transformed

/-- The end of `_accepted_after_transform`: enrichment is taken over, other facts are not. -/
def acceptedCandidate (original candidate : ToolOutcome) : Except PyError ToolOutcome :=
  if !(sameFixedOutcome candidate original &&
      decide (candidate.diagnostics.take original.diagnostics.length = original.diagnostics)) then
    .error invalidAfterToolPrimaryOutcomeTransition
  else if !keepsMetadata original.metadata candidate.metadata then
    .error invalidAfterToolPrimaryOutcomeTransition
  else .ok candidate

/-- `_accepted_after_transform`. -/
def acceptedAfterTransform (originalContext transformedContext : AfterToolExecuteContext) :
    Except PyError ToolOutcome :=
  if !sameFixedContext transformedContext originalContext then
    .error invalidAfterToolPrimaryOutcomeTransition
  else
    match toolCallSignature transformedContext.toolCall,
        toolCallSignature originalContext.toolCall with
    | .error error, _ | _, .error error => .error error
    | .ok transformedSignature, .ok originalSignature =>
        if transformedSignature ≠ originalSignature then
          .error invalidAfterToolPrimaryOutcomeTransition
        else
          match transformedContext.outcome, originalContext.outcome with
          | some transformed, some original =>
              match normalizedTransform original transformed with
              | .error error => .error error
              | .ok normalized =>
                  if !utf8Encodable transformedContext.result then
                    .error invalidToolResultProjection
                  else
                    acceptedCandidate original
                      (if transformedContext.result = normalized.modelText then normalized
                        else normalized.reproject transformedContext.result)
          | _, _ => .error invalidToolResultProjection

end ReuleauxCoder.Tools
