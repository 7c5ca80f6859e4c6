import ReuleauxCoder.Library.JsonText
import ReuleauxCoder.Tools.Failures

/-!
# Tool outcomes

The record that a tool call ends with, its text for the model, and the facts about
its failure that only the runtime may state: the phase, whether an effect began,
whether the call completed, and whether it is safe to retry.  An outcome that an
extension returns is validated once and its runtime facts are replaced.
-/

namespace ReuleauxCoder.Tools

open PyText PyJson

inductive ToolOutcomeStatus where
  | succeeded
  | failed
  | denied
  | cancelled
  | timedOut
  deriving DecidableEq

inductive ToolErrorKind where
  | denied
  | invalidArguments
  | notFound
  | interrupted
  | execution
  | internal
  deriving DecidableEq

inductive ToolRetentionStrategy where
  | head
  | tail
  | headTail
  deriving DecidableEq

structure ToolRetentionHint where
  strategy : ToolRetentionStrategy := .head
  anchorLine : Option ℤ := none
  deriving DecidableEq

structure ToolDiff where
  path : Text
  unified : Text
  additions : Option ℤ := none
  deletions : Option ℤ := none
  originalChars : Option ℤ := none
  truncated : Bool := false
  deriving DecidableEq

structure ToolDiagnostic where
  path : Text
  line : ℤ
  character : ℤ
  message : Text
  severity : Text
  code : Option (Text ⊕ ℤ) := none
  source : Option Text := none
  endLine : Option ℤ := none
  endCharacter : Option ℤ := none
  deriving DecidableEq

structure ToolTruncation where
  originalChars : ℤ
  originalLines : ℤ
  retainedChars : ℤ
  retainedLines : ℤ
  strategy : Text := lit "head"
  deriving DecidableEq

structure ToolArchiveReference where
  path : Text
  mediaType : Text := lit "text/plain"
  checksumSha256 : Option Text := none
  sizeBytes : Option ℤ := none
  deriving DecidableEq

/-- `images` holds the message parts of the images. -/
structure ToolOutcome where
  status : ToolOutcomeStatus := .succeeded
  summary : Option Text := none
  content : Option Text := none
  stdout : Text := []
  stderr : Text := []
  diff : Option ToolDiff := none
  diagnostics : List ToolDiagnostic := []
  exitCode : Option ℤ := none
  durationSeconds : Option ℚ := none
  truncation : Option ToolTruncation := none
  archiveReference : Option ToolArchiveReference := none
  metadata : List (Text × Json) := []
  errorKind : Option ToolErrorKind := none
  modelContent : Option Text := none
  retentionHint : ToolRetentionHint := {}
  images : List Json := []

namespace ToolOutcome

def success (outcome : ToolOutcome) : Bool :=
  outcome.status = .succeeded

/-! ## Text for the model -/

/-- `str.rstrip`. -/
def trimEnd (text : Text) : Text :=
  text.rdropWhile isSpace

def isFilled (text : Option Text) : Bool :=
  text.any (· ≠ [])

def renderDiagnostic (diagnostic : ToolDiagnostic) : Text :=
  let location := diagnostic.path ++ lit ":" ++ intText diagnostic.line ++ lit ":" ++
    intText diagnostic.character
  let code := match diagnostic.code with
    | none => []
    | some (.inl code) => lit " [" ++ code ++ lit "]"
    | some (.inr code) => lit " [" ++ intText code ++ lit "]"
  location ++ lit ": " ++ diagnostic.severity ++ code ++ lit ": " ++ diagnostic.message

/-- `_detailed_text` with diagnostics. -/
def detailedText (outcome : ToolOutcome) : Text :=
  let deferStatus := outcome.status = .timedOut ∨ outcome.status = .cancelled
  let content := outcome.content.getD []
  let opening :=
    if content ≠ [] ∧ ¬deferStatus then [content]
    else if isFilled outcome.summary ∧
        ¬(outcome.stdout ≠ [] ∨ outcome.stderr ≠ [] ∨ outcome.diff ≠ none) then
      [outcome.summary.getD []]
    else []
  let sections := opening ++ [outcome.stdout] ++
    (if outcome.stderr = [] then [] else [lit "[stderr]\n" ++ outcome.stderr]) ++
    (if content ≠ [] ∧ deferStatus then [content] else []) ++
    (outcome.diff.map ToolDiff.unified).toList ++
    (if outcome.diagnostics = [] then []
      else [List.intercalate (lit "\n")
        (lit "[diagnostics]" :: outcome.diagnostics.map renderDiagnostic)]) ++
    (match outcome.exitCode with
      | none => []
      | some code => if code = 0 then [] else [lit "[exit code: " ++ intText code ++ lit "]"])
  strip (List.intercalate (lit "\n") ((sections.filter (· ≠ [])).map trimEnd))

def modelText (outcome : ToolOutcome) : Text :=
  outcome.modelContent.getD outcome.detailedText

def withModelProjection (outcome : ToolOutcome) (text : Text)
    (truncation : Option ToolTruncation) (archiveReference : Option ToolArchiveReference) :
    ToolOutcome :=
  { outcome with
    modelContent := some text
    truncation
    archiveReference := archiveReference.or outcome.archiveReference }

/-- A new projection that keeps truncation and archive. -/
def reproject (outcome : ToolOutcome) (text : Text) : ToolOutcome :=
  outcome.withModelProjection text outcome.truncation outcome.archiveReference

/-- `from_legacy` for the text that a tool returned, with its duration. -/
def fromLegacy (result : Text) (executionSeconds : ℚ) : ToolOutcome :=
  let duration := some (max 0 executionSeconds)
  if (lit "Error:").isPrefixOf result then
    { status := .failed
      summary := some (lit "Tool execution failed")
      content := some ((lit "Tool execution failed (phase=execute, error_type=LegacyErrorResult, " ++
        lit "details=unstructured_tool_error).") ++ lit "\n\n" ++ result)
      errorKind := some .execution
      durationSeconds := duration
      metadata := [(lit "failure_phase", .str (lit "execute")),
        (lit "error_type", .str (lit "LegacyErrorResult")),
        (lit "error_detail_state", .str (lit "unstructured_tool_error"))] }
  else
    { content := some result
      durationSeconds := duration }

end ToolOutcome

/-! ## Validation -/

def metadataMaxDepth : ℕ := 32
def metadataMaxContainerItems : ℕ := 8192
def metadataMaxNodes : ℕ := 16384
def metadataMaxIntBits : ℕ := 256
def metadataMaxStringBytes : ℕ := 1048576
def metadataMaxTotalStringBytes : ℕ := 2097152
def structuredFactMaxStringBytes : ℕ := 65536
def structuredFactMaxTotalStringBytes : ℕ := 2097152
def toolDiagnosticLimit : ℕ := 512

structure SnapshotBudget where
  nodes : ℕ := 0
  stringBytes : ℕ := 0

namespace SnapshotBudget

def addNode (budget : SnapshotBudget) : Option SnapshotBudget :=
  if budget.nodes + 1 ≤ metadataMaxNodes then some { budget with nodes := budget.nodes + 1 }
  else none

def addString (budget : SnapshotBudget) (value : Text) : Option SnapshotBudget :=
  if utf8Encodable value ∧ utf8Size value ≤ metadataMaxStringBytes ∧
      budget.stringBytes + utf8Size value ≤ metadataMaxTotalStringBytes then
    some { budget with stringBytes := budget.stringBytes + utf8Size value }
  else none

end SnapshotBudget

def hasIntBits (value : ℤ) : Bool :=
  value.natAbs < 2 ^ metadataMaxIntBits

mutual

/-- `_snapshot_json_value`: the budget left after copying the value, which the
copy does not change. -/
def snapshotJsonValue (depth : ℕ) (value : Json) (budget : SnapshotBudget) :
    Option SnapshotBudget :=
  if metadataMaxDepth < depth then none
  else
    match budget.addNode with
    | none => none
    | some budget =>
        match value with
        | .str text => budget.addString text
        | .int value => if hasIntBits value then some budget else none
        | .float value => if value.isFinite then some budget else none
        | .null | .bool _ => some budget
        | .arr items =>
            if items.length ≤ metadataMaxContainerItems then snapshotItems depth items budget
            else none
        | .obj fields =>
            if fields.length ≤ metadataMaxContainerItems then snapshotFields depth fields budget
            else none

def snapshotItems (depth : ℕ) (items : List Json) (budget : SnapshotBudget) :
    Option SnapshotBudget :=
  match items with
  | [] => some budget
  | item :: rest =>
      match snapshotJsonValue (depth + 1) item budget with
      | none => none
      | some budget => snapshotItems depth rest budget

def snapshotFields (depth : ℕ) (fields : List (Text × Json)) (budget : SnapshotBudget) :
    Option SnapshotBudget :=
  match fields with
  | [] => some budget
  | (key, item) :: rest =>
      if metadataMaxDepth < depth + 1 then none
      else
        match budget.addNode.bind fun budget => budget.addString key with
        | none => none
        | some budget =>
            match snapshotJsonValue (depth + 1) item budget with
            | none => none
            | some budget => snapshotFields depth rest budget

end

/-- A value that `_snapshot_json_value` accepts. -/
def isSnapshot (value : Json) : Bool :=
  (snapshotJsonValue 0 value {}).isSome

def optionalInt (value : Option ℤ) : Bool :=
  value.all fun value => 0 ≤ value && hasIntBits value

def isFactText (text : Text) : Bool :=
  utf8Encodable text && utf8Size text ≤ structuredFactMaxStringBytes

def diagnosticIsValid (diagnostic : ToolDiagnostic) : Bool :=
  optionalInt (some diagnostic.line) && optionalInt (some diagnostic.character) &&
    (match diagnostic.code with
      | some (.inr code) => hasIntBits code
      | _ => true) &&
    optionalInt diagnostic.endLine && optionalInt diagnostic.endCharacter

/-- The texts whose size `_check_tool_outcome_protocol` bounds. -/
def boundedTexts (outcome : ToolOutcome) : List Text :=
  outcome.summary.toList ++ (outcome.diff.map ToolDiff.path).toList ++
    (outcome.diagnostics.flatMap fun item =>
      [item.path, item.message, item.severity] ++
        (match item.code with
          | some (.inl code) => [code]
          | _ => []) ++ item.source.toList) ++
    (outcome.truncation.map ToolTruncation.strategy).toList ++
    (outcome.archiveReference.toList.flatMap fun archive =>
      [archive.path, archive.mediaType] ++ archive.checksumSha256.toList)

def unboundedTexts (outcome : ToolOutcome) : List Text :=
  outcome.content.toList ++ [outcome.stdout, outcome.stderr] ++ outcome.modelContent.toList ++
    (outcome.diff.map ToolDiff.unified).toList

/-- `_check_tool_outcome_protocol` on an outcome whose fields have their types. -/
def checkToolOutcomeProtocol (outcome : ToolOutcome) : Bool :=
  (decide (outcome.status = .succeeded) == decide (outcome.errorKind = none)) &&
    (outcome.status ≠ .denied || outcome.errorKind = some .denied) &&
    (outcome.status ≠ .cancelled || outcome.errorKind = some .interrupted) &&
    (outcome.exitCode.all hasIntBits) &&
    (outcome.durationSeconds.all fun seconds => 0 ≤ seconds) &&
    outcome.diagnostics.length ≤ toolDiagnosticLimit &&
    (outcome.diff.all fun diff =>
      optionalInt diff.additions && optionalInt diff.deletions &&
        optionalInt diff.originalChars) &&
    outcome.diagnostics.all diagnosticIsValid &&
    (outcome.truncation.all fun truncation =>
      optionalInt (some truncation.originalChars) && optionalInt (some truncation.originalLines) &&
        optionalInt (some truncation.retainedChars) &&
        optionalInt (some truncation.retainedLines) &&
        truncation.retainedChars ≤ truncation.originalChars &&
        truncation.retainedLines ≤ truncation.originalLines &&
        truncation.strategy ∈ [lit "head", lit "tail", lit "head_tail"] &&
        outcome.modelContent.isSome) &&
    (outcome.archiveReference.all fun archive =>
      archive.path ≠ [] && optionalInt archive.sizeBytes) &&
    (outcome.retentionHint.anchorLine.all fun anchor => 0 < anchor && hasIntBits anchor) &&
    (unboundedTexts outcome).all utf8Encodable &&
    (boundedTexts outcome).all isFactText &&
    ((boundedTexts outcome).map utf8Size).sum ≤ structuredFactMaxTotalStringBytes &&
    isSnapshot (.obj outcome.metadata)

def invalidToolOutcomeProtocol : PyError :=
  ⟨.resultProtocol, lit "InvalidToolOutcomeProtocol"⟩

def invalidToolResultProjection : PyError :=
  ⟨.resultProjection, lit "InvalidToolResultProjection"⟩

/-- `_normalize_tool_outcome`. -/
def normalizeToolOutcome (outcome : ToolOutcome) : Except PyError ToolOutcome :=
  if !checkToolOutcomeProtocol outcome then .error invalidToolOutcomeProtocol
  else if !utf8Encodable outcome.modelText then .error invalidToolResultProjection
  else .ok { outcome with modelContent := some outcome.modelText }

def failureFactKeys : List Text :=
  [lit "failure_phase", lit "error_type", lit "effect_state", lit "completion_state",
    lit "retry_safety"]

def runtimeMetadataKeys : List Text :=
  failureFactKeys ++ [lit "post_effect_failures", lit "reported_effect_state"]

end ReuleauxCoder.Tools
