import ReuleauxCoder.Context.ProviderMessage
import ReuleauxCoder.Control.Plan

/-!
# Validation of persisted session payloads

The checks `SessionStore` applies to a runtime state and to a history event
before it writes them and after it reads them.  Each check is a guard that
raises with the source's message; the bounds are the source's constants.
-/

namespace ReuleauxCoder.Persistence

open Check PyText PyJson Context PlanController

def maxPersistedCounter : ℤ := 2 ^ 63 - 1

def maxRuntimeStateChars : ℕ := 64000

def maxRuntimeItems : ℕ := 256

def maxRuntimeTextChars : ℕ := 1024

/-! ## Shapes -/

def isBoundedSafeText (maxChars : ℕ) : Json → Bool
  | .str text => text ≠ [] && text.length ≤ maxChars && noControls text
  | _ => false

def isBoundedRuntimeText (maxChars : ℕ) : Json → Bool
  | .str text => text.length ≤ maxChars && noControls text
  | _ => false

/-- An integer that is not a boolean, within the given bounds. -/
def isIntBetween (low high : ℤ) : Json → Bool
  | .int value => low ≤ value && value ≤ high
  | _ => false

def isCounter : Json → Bool :=
  isIntBetween 0 maxPersistedCounter

/-- An integer that is not a boolean and not negative. -/
def isNatural : Json → Bool
  | .int value => 0 ≤ value
  | _ => false

def isBoolean : Json → Bool
  | .bool _ => true
  | _ => false

/-- A finite number that is not negative; `math.isfinite` raises on integers
that no float can hold. -/
def isTimestamp : Json → Bool
  | .int value => 0 ≤ value && value < 2 ^ 1024 - 2 ^ 970
  | .float value => value.isFinite && !value.isNegative
  | _ => false

def isNameChar (c : CodePoint) : Bool :=
  (0x30 ≤ c.val && c.val ≤ 0x39) || (0x41 ≤ c.val && c.val ≤ 0x5A) ||
    (0x61 ≤ c.val && c.val ≤ 0x7A) || c = '_' || c = '.' || c = '-'

/-- `re.fullmatch(r"[A-Za-z0-9_.-]+", value)` with at most 64 characters. -/
def isName : Json → Bool
  | .str text => text ≠ [] && text.length ≤ 64 && text.all isNameChar
  | _ => false

/-- `re.fullmatch(r"[0-9a-f]{64}", value)`. -/
def isHash : Json → Bool
  | .str text => text.length = 64 &&
      text.all fun c => (0x30 ≤ c.val && c.val ≤ 0x39) || (0x61 ≤ c.val && c.val ≤ 0x66)
  | _ => false

mutual

/-- `_validate_strict_utf8_tree`. -/
def isStrictUtf8Tree : Json → ℕ → Bool
  | .null, depth | .bool _, depth | .int _, depth | .float _, depth => depth ≤ 64
  | .str text, depth => depth ≤ 64 && utf8Encodable text
  | .arr items, depth => depth ≤ 64 && isStrictUtf8Items items (depth + 1)
  | .obj fields, depth => depth ≤ 64 && isStrictUtf8Fields fields (depth + 1)

def isStrictUtf8Items : List Json → ℕ → Bool
  | [], _ => true
  | item :: rest, depth => isStrictUtf8Tree item depth && isStrictUtf8Items rest depth

def isStrictUtf8Fields : List (Text × Json) → ℕ → Bool
  | [], _ => true
  | (key, value) :: rest, depth =>
      utf8Encodable key && isStrictUtf8Tree value depth && isStrictUtf8Fields rest depth

end

mutual

/-- `json.dumps(..., allow_nan=False)` accepts the value. -/
def isFiniteTree : Json → Bool
  | .float value => value.isFinite
  | .arr items => isFiniteItems items
  | .obj fields => isFiniteFields fields
  | _ => true

def isFiniteItems : List Json → Bool
  | [] => true
  | item :: rest => isFiniteTree item && isFiniteItems rest

def isFiniteFields : List (Text × Json) → Bool
  | [] => true
  | (_, value) :: rest => isFiniteTree value && isFiniteFields rest

end

/-! ## `_validate_runtime_state_payload` -/

/-- `mapping.get(key, default)`. -/
def fieldOr (fields : List (Text × Json)) (key : String) (default : Json) : Json :=
  (lookup (lit key) fields).getD default

def runtimeStrings : List String :=
  ["model", "active_mode", "active_main_model_profile", "active_sub_model_profile",
    "execution_target"]

def approvalStrings : List String :=
  ["tool_name", "tool_source", "mcp_server", "effect_class", "profile", "pattern", "scope_key"]

def validateApprovalRule (rule : Json) : Except String Unit :=
  match rule with
  | .obj fields => do
      require (approvalStrings.all fun key => isOptional (isBoundedRuntimeText
        (if key = "pattern" ∨ key = "scope_key" then maxRuntimeStateChars
          else maxRuntimeTextChars)) (field fields key))
        "runtime approval rule is invalid"
      require (isOneOf ["allow", "warn", "require_approval", "deny"] (field fields "action"))
        "runtime approval action is invalid"
  | _ => .error "runtime approval rules are invalid"

def isPlanItem (item : Json) : Bool :=
  match item with
  | .obj fields => isText (field fields "step") && isText (field fields "active_form") &&
      isOneOf ["pending", "in_progress", "completed"] (field fields "status")
  | _ => false

/-- The checks of the optional `plan_state` mapping. -/
def validatePlanState (builtins : Builtins) (plan : List (Text × Json)) : Except String Unit := do
  let items := fieldOr plan "items" (.arr [])
  require (isListOf isPlanItem items) "runtime plan state is invalid"
  let _ ← validateItems builtins items
  require (["revision", "session_generation"].all fun key => isCounter (fieldOr plan key (.int 0)))
    "runtime plan revision is invalid"
  require (["owner_agent_id", "explanation", "event_id"].all fun key =>
      isOptional (isBoundedRuntimeText maxRuntimeTextChars) (field plan key))
    "runtime plan metadata is invalid"

/-- The checks of the optional `progress_state` mapping. -/
def validateProgressState (progress : List (Text × Json)) : Except String Unit :=
  if progress = [] then .ok ()
  else do
    require (isOneOf ["investigating", "implementing", "verifying", "ready", "blocked"]
      (field progress "phase")) "runtime progress phase is invalid"
    require (isCounter (fieldOr progress "revision" (.int 0)))
      "runtime progress revision is invalid"
    require (["summary", "next", "event_id"].all fun key =>
        isOptional (isBoundedRuntimeText maxRuntimeTextChars) (field progress key))
      "runtime progress metadata is invalid"

/-- The fields of a mapping that is known to be one. -/
def fieldsOf : Json → List (Text × Json)
  | .obj fields => fields
  | _ => []

def itemsOf : Json → List Json
  | .arr items => items
  | _ => []

def validateRuntimeStatePayload (builtins : Builtins) (runtime : Json) : Except String Unit :=
  match runtime with
  | .obj fields => do
      require (isStrictUtf8Tree runtime 0) "JSON tree is not strict UTF-8"
      require (isFiniteTree runtime) "runtime state is not JSON-compatible"
      require ((dumps compact runtime).length ≤ maxRuntimeStateChars)
        "runtime state exceeds the persisted size limit"
      require (runtimeStrings.all fun key =>
          isOptional (isBoundedRuntimeText maxRuntimeTextChars) (field fields key))
        "runtime string field is invalid"
      require (isOptional isBoolean (field fields "llm_debug_trace"))
        "runtime debug flag is invalid"
      require (["remote_binding", "plan_state", "progress_state"].all fun key =>
          isObject (fieldOr fields key (.obj []))) "runtime mapping field is invalid"
      let skills := fieldOr fields "skills_disabled" (.arr [])
      require (isListOf (isBoundedSafeText maxRuntimeTextChars) skills ∧
          (itemsOf skills).length ≤ maxRuntimeItems) "runtime skills list is invalid"
      let rules := fieldOr fields "approval_rules" (.arr [])
      require (isListOf isObject rules ∧ (itemsOf rules).length ≤ maxRuntimeItems)
        "runtime approval rules are invalid"
      forEach validateApprovalRule (itemsOf rules)
      validatePlanState builtins (fieldsOf (fieldOr fields "plan_state" (.obj [])))
      validateProgressState (fieldsOf (fieldOr fields "progress_state" (.obj [])))
  | _ => .error "runtime state must be an object"

/-! ## `_validate_history_event_payload` -/

section EventKinds

variable (builtins : Builtins) (event body : List (Text × Json))

def validateMessageCommitted : Except String Unit := do
  require (isFilledText (field body "source")) "history message source is invalid"
  validateProviderMessage (field body "message")
  require (isListOf isFilledText (fieldOr body "output_stream_ids" (.arr [])))
    "history output acknowledgements are invalid"
  require (["steering_id", "attempt_id"].all fun key => isOptional isFilledText (field body key))
    "history message control metadata is invalid"

def validateOutputCheckpoint : Except String Unit :=
  require (isFilledText (field body "stream_id") ∧
      isOneOf ["response", "reasoning", "tool"] (field body "kind") ∧
      isText (field body "text") ∧ isBoolean (fieldOr body "replace" (.bool false)) ∧
      isOptional isText (field body "tool_call_id") ∧ isOptional isText (field body "tool_name"))
    "history output checkpoint is invalid"

def validateContextView : Except String Unit := do
  require (isFilledText (field body "reason") ∧ isNatural (field body "history_version") ∧
      isOptional isFilledText (field body "checkpoint_id") ∧ isList (field body "items"))
    "history context view is invalid"
  forEach validateProviderMessage (itemsOf (field body "items"))

def validateUsage : Except String Unit := do
  require (["actual_prompt_tokens", "local_request_estimate", "local_history_estimate"].all
    fun key => isCounter (field body key)) "history usage counter is invalid"
  require (isOptional isCounter (field body "cached_input_tokens"))
    "history cached usage is invalid"
  require (["request_boundary", "model_profile"].all fun key => isFilledText (field body key))
    "history usage identity is invalid"

def validateSteeringAdmitted : Except String Unit := do
  require (["steering_id", "turn_id"].all fun key => isFilledText (field body key))
    "history steering admission is invalid"
  require ((isText (field body "content") ∨ isList (field body "content")) ∧
    (field body "content").truthy) "history steering content is invalid"
  require (isCounter (field body "generation") ∧
      field body "generation" = field event "session_generation" ∧
      (field event "turn_id" = .null ∨ field event "turn_id" = field body "turn_id"))
    "history steering generation is invalid"

def validateSteeringApplied : Except String Unit := do
  require (isFilledText (field body "steering_id")) "history steering identity is invalid"
  require (isOptional isFilledText (field body "attempt_id"))
    "history steering attempt is invalid"

def validateSteeringDiscarded : Except String Unit := do
  require (isFilledText (field body "steering_id")) "history steering identity is invalid"
  require (isFilledText (field body "reason")) "history steering discard reason is invalid"

def validateApprovalRequested : Except String Unit := do
  require (isFilledText (field body "request_id")) "history approval identity is invalid"
  require (isFilledText (field body "tool_name")) "history approval tool is invalid"

def validateApprovalResolved : Except String Unit := do
  require (isFilledText (field body "request_id")) "history approval identity is invalid"
  require (isBoolean (field body "approved")) "history approval decision is invalid"

def validateContextCheckpoint : Except String Unit :=
  require (isFilledText (field body "checkpoint_id") ∧
      isFilledText (field body "context_view_event_id") ∧ isCounter (field body "history_version"))
    "history checkpoint is invalid"

/-- The identity checks shared by the two control events. -/
def isControlEvent : Bool :=
  isFilledText (field body "owner_agent_id") && isFilledText (field body "tool_call_id") &&
    isCounter (field body "revision") &&
    (match field body "session_generation" with
      | .int _ => true
      | _ => false) &&
    field body "session_generation" = field event "session_generation"

def validatePlanUpdated : Except String Unit := do
  require (isControlEvent event body ∧
      isOptional (isBoundedRuntimeText maxRuntimeTextChars) (field body "explanation"))
    "history plan metadata is invalid"
  let _ ← validateItems builtins (field body "items")

def isTextUpTo (maxChars : ℕ) : Json → Bool
  | .str text => text.length ≤ maxChars
  | _ => false

def validateProgressReported : Except String Unit :=
  require (isControlEvent event body ∧
      isOneOf ["investigating", "implementing", "verifying", "ready", "blocked"]
        (field body "phase") ∧
      isFilledText (field body "summary") ∧ isTextUpTo 500 (field body "summary") ∧
      isOptional (isTextUpTo 500) (field body "next"))
    "history progress state is invalid"

def subagentJobStatuses : List String :=
  ["queued", "running", "parking", "resuming", "blocked", "cancelling", "completed", "failed",
    "cancelled", "killed", "timed_out", "indeterminate", "stale"]

def subagentMessageKinds : List String :=
  ["reply", "milestone", "amendment", "warning", "approval_needed", "partial", "guidance"]

def validateSubagentJob : Except String Unit := do
  require (["job_id", "mode", "task", "status"].all fun key => isFilledText (field body key))
    "subagent job text is invalid"
  require (isOneOf ["explore", "execute", "verify"] (field body "mode") ∧
    isOneOf subagentJobStatuses (field body "status")) "subagent job state is invalid"
  require (field event "job_id" = .null ∨ field event "job_id" = field body "job_id")
    "subagent job attribution is invalid"
  require (["generation", "depth", "prompt_tokens", "completion_tokens", "tool_calls",
      "worker_generation", "model_calls", "cancellation_epoch", "max_rounds"].all
    fun key => isCounter (fieldOr body key (.int 0))) "subagent job counter is invalid"
  require (field body "generation" = field event "session_generation")
    "subagent job generation is invalid"
  require (["created_at", "started_at", "finished_at", "guidance_deadline_at", "last_activity_at",
      "active_seconds"].all fun key => isOptional isTimestamp (field body key))
    "subagent job timestamp is invalid"
  require (field body "created_at" ≠ .null) "subagent job created_at is missing"
  require (isOptional isNatural (field body "timeout_seconds")) "subagent timeout is invalid"
  require (["parent_session_id", "parent_job_id", "context_mode", "worktree_path",
      "verification_job_id", "verification_for", "working_directory", "guidance_request_id",
      "resume_reference", "current_tool", "model_profile_name", "agent_id", "cancellation_id",
      "result", "error"].all fun key => isOptional isText (field body key))
    "subagent optional text is invalid"
  require (isListOf isText (fieldOr body "progress" (.arr []))) "subagent progress is invalid"
  require (["auto_verify", "usage_uncertain", "resume_ready"].all fun key =>
    isBoolean (fieldOr body key (.bool false))) "subagent boolean state is invalid"

def validateSubagentCommunication : Except String Unit := do
  require (isFilledText (field body "item_id") ∧
    isOneOf ["child_to_parent", "parent_to_child"] (field body "direction"))
    "subagent communication identity is invalid"
  require (["generation", "seq"].all fun key => isCounter (field body key))
    "subagent communication counter is invalid"
  require (field body "generation" = field event "session_generation")
    "subagent communication generation is invalid"
  require (isFilledText (field body "content")) "subagent communication content is invalid"
  require (isOptional isHash (field body "content_hash")) "subagent communication hash is invalid"
  (if field body "direction" = .str (lit "child_to_parent") then do
    require (["sender_agent_id", "recipient_agent_id"].all fun key => isFilledText (field body key))
      "subagent communication peer is invalid"
    require (isTimestamp (field body "created_at") ∧
      isOneOf subagentMessageKinds (field body "kind")) "subagent communication metadata is invalid"
  else
    require (["target_job_id", "sender_agent_id", "source"].all fun key =>
      isFilledText (field body key)) "subagent directive metadata is invalid")

/-- The checks that depend on the kind of the event. -/
def validateEventBody (kind : Text) : Except String Unit :=
  if kind = lit "message_committed" then validateMessageCommitted body
  else if kind = lit "output_checkpoint" then validateOutputCheckpoint body
  else if kind = lit "context_view_committed" then validateContextView body
  else if kind = lit "usage_observed" then validateUsage body
  else if kind = lit "steering_admitted" then validateSteeringAdmitted event body
  else if kind = lit "steering_applied" then validateSteeringApplied body
  else if kind = lit "steering_discarded" then validateSteeringDiscarded body
  else if kind = lit "approval_requested" then validateApprovalRequested body
  else if kind = lit "approval_resolved" then validateApprovalResolved body
  else if kind = lit "context_checkpoint" then validateContextCheckpoint body
  else if kind = lit "plan_updated" then validatePlanUpdated builtins event body
  else if kind = lit "progress_reported" then validateProgressReported event body
  else if kind = lit "subagent_job_changed" then validateSubagentJob event body
  else if kind = lit "subagent_communication_queued" ∨
      kind = lit "subagent_communication_delivered" then validateSubagentCommunication event body
  else .ok ()

end EventKinds

def textOf : Json → Text
  | .str text => text
  | _ => []

def optionalEventTexts : List String :=
  ["agent_id", "parent_agent_id", "job_id", "turn_id", "api_round_id", "role"]

def validateHistoryEventPayload (builtins : Builtins) (expectedSessionId : Option Text)
    (payload : Json) : Except String Unit :=
  match payload with
  | .obj event => do
      require (isName (field event "event_id") ∧ isName (field event "kind") ∧
          isIntBetween 1 maxPersistedCounter (field event "seq") ∧
          isObject (field event "payload")) "history event identity is invalid"
      require (isIntBetween 1 2 (fieldOr event "schema_version" (.int 1)) ∧
          isCounter (fieldOr event "session_generation" (.int 0)))
        "history event version is invalid"
      require (isTimestamp (fieldOr event "timestamp" (fieldOr event "created_at" (.int 0))))
        "history event timestamp is invalid"
      require (isOptional isFilledText (field event "session_id") ∧
          ∀ expected ∈ expectedSessionId, field event "session_id" = .null ∨
            field event "session_id" = .str expected)
        "history event session identity is invalid"
      require (optionalEventTexts.all fun key =>
          isOptional (fun value => isFilledText value && isTextUpTo 256 value) (field event key))
        "history event optional text is invalid"
      require (["artifact_refs", "supersedes_event_ids"].all fun key =>
          isListOf isFilledText (fieldOr event key (.arr [])))
        "history event references are invalid"
      validateEventBody builtins event (fieldsOf (field event "payload"))
        (textOf (field event "kind"))
  | _ => .error "history event must be an object"

end ReuleauxCoder.Persistence
