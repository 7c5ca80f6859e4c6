import ReuleauxCoder.Library.Ranking
import ReuleauxCoder.Library.Text

/-!
# Approval policy

Rules are matched against a request by three pieces of code: the policy engine,
which ranks the rules of a configuration by specificity; the session judge, which
runs the engine on the session rules alone; and the coverage test, which asks
whether the rules of one grant match every subject of a queued request.
-/

namespace ReuleauxCoder.Approval

open PyText Ranking

inductive ApprovalAction where
  | allow
  | warn
  | requireApproval
  | deny
  deriving DecidableEq

structure ApprovalRule where
  toolName : Option Text := none
  toolSource : Option Text := none
  mcpServer : Option Text := none
  effectClass : Option Text := none
  profile : Option Text := none
  pattern : Option Text := none
  scopeKey : Option Text := none
  action : ApprovalAction := .requireApproval
  deriving DecidableEq

/-- The fields of `ApprovalConfig` that the engine reads. -/
structure ApprovalConfig where
  defaultMode : ApprovalAction := .requireApproval
  rules : List ApprovalRule := []
  deriving DecidableEq

structure ToolApprovalContext where
  toolName : Text
  toolSource : Text := lit "unknown"
  mcpServer : Option Text := none
  effectClass : Option Text := none
  profile : Option Text := none
  subjects : List Text := []
  scopeKey : Option Text := none
  deriving DecidableEq

structure ApprovalPolicyMatch where
  action : ApprovalAction
  rule : Option ApprovalRule := none
  deriving DecidableEq

/-! ## The engine -/

def endsWith (text ending : Text) : Bool :=
  ending.isSuffixOf text

def specificity (rule : ApprovalRule) : ℕ :=
  (if rule.toolSource ≠ none then 1 else 0) + (if rule.mcpServer ≠ none then 2 else 0) +
    (if rule.toolName ≠ none then 4 else 0) + (if rule.effectClass ≠ none then 1 else 0) +
    (if rule.profile ≠ none then 1 else 0) +
    (match rule.pattern with
      | none => 0
      | some pattern =>
          if pattern = lit "*" then 1 else if endsWith pattern (lit "/**") then 2 else 3) +
    (if rule.scopeKey ≠ none then 2 else 0)

/-- `required is not None and required != actual`, negated. -/
def matchesDimension {α : Type} [DecidableEq α] (required : Option α) (actual : Option α) : Bool :=
  required = none ∨ required = actual

def matchesDimensions (rule : ApprovalRule) (context : ToolApprovalContext) : Bool :=
  matchesDimension rule.toolName (some context.toolName) &&
    matchesDimension rule.toolSource (some context.toolSource) &&
    matchesDimension rule.mcpServer context.mcpServer &&
    matchesDimension rule.effectClass context.effectClass &&
    matchesDimension rule.profile context.profile &&
    matchesDimension rule.scopeKey context.scopeKey

def matchesSubject (pattern : Option Text) (subject : Text) : Bool :=
  match pattern with
  | none => true
  | some pattern =>
      if pattern = lit "*" then true
      else if endsWith pattern (lit "/**") then
        let base := (pattern.take (pattern.length - 3)).rdropWhile (· = ofChar '/')
        subject = base || (base ++ lit "/").isPrefixOf subject
      else subject = pattern

def fallbackAction (config : ApprovalConfig) (context : ToolApprovalContext) : ApprovalAction :=
  if context.effectClass = some (lit "read_only_internal") ∨
      context.effectClass = some (lit "control_plane_internal") then .allow
  else config.defaultMode

/-- `action_priority`. -/
def actionPriority : ApprovalAction → ℕ
  | .allow => 0
  | .warn => 1
  | .requireApproval => 2
  | .deny => 3

def matchOf (config : ApprovalConfig) (context : ToolApprovalContext) :
    Option ApprovalRule → ApprovalPolicyMatch
  | some rule => ⟨rule.action, some rule⟩
  | none => ⟨fallbackAction config context, none⟩

/-- A call without subjects is governed by rules without a pattern. -/
def governs (context : ToolApprovalContext) (subject : Option Text) (rule : ApprovalRule) : Bool :=
  matchesDimensions rule context &&
    match subject with
    | none => rule.pattern = none
    | some subject => matchesSubject rule.pattern subject

def resolve (config : ApprovalConfig) (context : ToolApprovalContext) (subject : Option Text) :
    ApprovalPolicyMatch :=
  matchOf config context ((ranked specificity config.rules).find? (governs context subject))

def evaluate (config : ApprovalConfig) (context : ToolApprovalContext) : ApprovalPolicyMatch :=
  match (context.subjects.map fun subject => resolve config context (some subject)).argmax
      fun resolved => actionPriority resolved.action with
  | some strictest => strictest
  | none => resolve config context none

/-! ## Session rules -/

def sameRuleTarget (left right : ApprovalRule) : Bool :=
  left.toolName = right.toolName && left.toolSource = right.toolSource &&
    left.mcpServer = right.mcpServer && left.effectClass = right.effectClass &&
    left.profile = right.profile && left.pattern = right.pattern &&
    left.scopeKey = right.scopeKey

/-- One rule replaces every rule with its target and goes to the end. -/
def layer (rules : List ApprovalRule) (rule : ApprovalRule) : List ApprovalRule :=
  rules.filter (fun existing => !sameRuleTarget existing rule) ++ [rule]

def mergeApprovalConfig (baseline : ApprovalConfig) (sessionRules : List ApprovalRule) :
    ApprovalConfig :=
  { baseline with rules := sessionRules.foldl layer baseline.rules }

structure ApprovalGrant where
  proposedRules : List ApprovalRule
  scopeKey : Option Text := none
  deriving DecidableEq

/-- The fields of `ApprovalRequest` that decide about it. -/
structure ApprovalRequest where
  requestId : Text
  toolName : Text
  toolSource : Text := lit "unknown"
  mcpServer : Option Text := none
  effectClass : Option Text := none
  profile : Option Text := none
  subjects : List Text := []
  scopeKey : Option Text := none
  workspaceChangedDuringApproval : Bool := false
  deriving DecidableEq

def toolSources : List Text :=
  [lit "builtin", lit "mcp", lit "unknown"]

/-- The context the engine judges a request in. -/
def contextOf (request : ApprovalRequest) : ToolApprovalContext where
  toolName := request.toolName
  toolSource := if request.toolSource ∈ toolSources then request.toolSource else lit "unknown"
  mcpServer := request.mcpServer
  effectClass := request.effectClass
  profile := request.profile
  subjects := request.subjects
  scopeKey := request.scopeKey

inductive ApprovalDecision where
  | allowOnce (reason : Text)
  | allowSession (grant : Option ApprovalGrant) (reason : Text) (released : List Text)
  | denyOnce (reason : Text)
  deriving DecidableEq

def ApprovalDecision.approved : ApprovalDecision → Bool
  | .allowOnce _ | .allowSession _ _ _ => true
  | .denyOnce _ => false

/-- `_judge_session_approval_rules` of an agent that has a rule lock. -/
def judgeSessionApprovalRules (sessionRules : List ApprovalRule) (request : ApprovalRequest) :
    Option ApprovalDecision :=
  if request.workspaceChangedDuringApproval then none
  else if sessionRules = [] then none
  else
    let resolved := evaluate { defaultMode := .requireApproval, rules := sessionRules }
      (contextOf request)
    match resolved.rule, resolved.action with
    | none, _ => none
    | some _, .allow => some (.allowOnce (lit "matched session approval grant"))
    | some _, .deny => some (.denyOnce (lit "blocked by session approval rule"))
    | some _, _ => none

/-- The session rules after `apply_session_approval_grant`; `none` when it raises. -/
def applySessionApprovalGrant (sessionRules : List ApprovalRule) (request : ApprovalRequest)
    (grant : ApprovalGrant) : Option (List ApprovalRule) :=
  if grant.scopeKey ≠ request.scopeKey then none
  else if grant.proposedRules = [] then none
  else if grant.proposedRules.any fun rule => rule.action ≠ .allow then none
  else if grant.proposedRules.any fun rule => rule.scopeKey ≠ request.scopeKey then none
  else some (grant.proposedRules.foldl layer sessionRules)

/-- `dimensions_match` of the coverage test. -/
def dimensionsMatch (rule : ApprovalRule) (request : ApprovalRequest) : Bool :=
  matchesDimension rule.toolName (some request.toolName) &&
    matchesDimension rule.toolSource (some request.toolSource) &&
    matchesDimension rule.mcpServer request.mcpServer &&
    matchesDimension rule.effectClass request.effectClass &&
    matchesDimension rule.profile request.profile &&
    matchesDimension rule.scopeKey request.scopeKey

def approvalGrantCoversRequest (grant : ApprovalGrant) (request : ApprovalRequest) : Bool :=
  let allowing := (grant.proposedRules.filter fun rule => rule.action = .allow).filter
    fun rule => dimensionsMatch rule request
  if grant.scopeKey ≠ request.scopeKey then false
  else if allowing = [] then false
  else if request.subjects = [] then allowing.any fun rule => rule.pattern = none
  else request.subjects.all fun subject =>
    allowing.any fun rule => matchesSubject rule.pattern subject

end ReuleauxCoder.Approval
