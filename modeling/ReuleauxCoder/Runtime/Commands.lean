import ReuleauxCoder.Library.Check
import ReuleauxCoder.Library.Json

/-!
# Commands and inputs

`ActionRegistry` finds the action of a slash text or of a structured request, and the queue
policy of `CommandService` tells whether it may run beside a turn.  What a handler does with
its command is left to the environment; `C` is the type of command values.
-/

namespace ReuleauxCoder.Runtime

open Check PyText PyJson

/-- An exception: an `RpcError`, whose code the client sees, or any other one. -/
inductive Failure where
  | rpc (code : ℤ) (message : String)
  | other
  deriving DecidableEq

def invalidParams (message : String) : Failure := .rpc (-32602) message

def refusal (message : String) : Failure := .rpc (-32002) message

/-! ## Inputs -/

/-- `ImageReference`, of which only the check against the store matters here. -/
structure ImageReference where
  id : Text
  deriving DecidableEq

structure ChatInput where
  text : Text := []
  images : List ImageReference := []
  sessionId : Option Text := none
  sessionGeneration : Option ℤ := none
  submissionId : Option Text := none
  deriving DecidableEq

structure ActionRequest (C : Type) where
  actionId : Text
  command : C
  deriving DecidableEq

inductive Input (C : Type) where
  | text (value : Text)
  | chat (value : ChatInput)
  | action (request : ActionRequest C)
  deriving DecidableEq

/-- `value.startswith("/")`. -/
def startsWithSlash : Text → Bool
  | first :: _ => first = ofChar '/'
  | [] => false

/-- Whether the input is for the model and not for a command. -/
def Input.isChat {C : Type} : Input C → Bool
  | .text value => !startsWithSlash value
  | .chat _ => true
  | .action _ => false

/-- The text after which a client is told that a slash command runs. -/
def Input.isSlash {C : Type} : Input C → Bool
  | .text value => startsWithSlash value
  | _ => false

/-- Mark a chat with the id it was submitted under. -/
def Input.withSubmissionId {C : Type} (value : Input C) : Option Text → Input C
  | none => value
  | some submissionId =>
      match value with
      | .text line =>
          if startsWithSlash line then value
          else .chat { text := line, submissionId := some submissionId }
      | .chat input => .chat { input with submissionId := some submissionId }
      | .action _ => value

@[simp]
theorem Input.withSubmissionId_none {C : Type} (value : Input C) :
    value.withSubmissionId none = value := rfl

/-! ## Actions -/

inductive DuringTurnPolicy where
  | immediate
  | deferUntilIdle
  deriving DecidableEq

inductive TriggerKind where
  | slash
  | palette
  | button
  | menu
  | shortcut
  deriving DecidableEq

structure UIProfile where
  uiId : Text
  capabilities : List Text := []

structure TriggerSpec where
  kind : TriggerKind
  uiTargets : List Text := []
  requiredCapabilities : List Text := []

/-- `(not targets or ui_profile.ui_id in targets)` and every capability is there. -/
def availableIn (profile : UIProfile) (targets capabilities : List Text) : Bool :=
  (targets = [] || targets.contains profile.uiId) &&
    capabilities.all fun capability => profile.capabilities.contains capability

def TriggerSpec.isAvailableIn (trigger : TriggerSpec) (profile : UIProfile)
    (fallbackUiTargets : List Text) : Bool :=
  availableIn profile
    (if trigger.uiTargets = [] then fallbackUiTargets else trigger.uiTargets)
    trigger.requiredCapabilities

/-- `parser` reads a slash text.  `build` makes the command from the fields of a wire request,
with its type checks, and `accepts` is `isinstance` for the command type. -/
structure ActionSpec (C : Type) where
  actionId : Text
  uiTargets : List Text := []
  requiredCapabilities : List Text := []
  triggers : List TriggerSpec := []
  duringTurn : DuringTurnPolicy := .deferUntilIdle
  parser : Option (Text → Except Failure (Option C)) := none
  build : List (Text × Json) → Option C := fun _ => none
  accepts : C → Bool := fun _ => true

namespace ActionSpec

variable {C : Type}

def isAvailableIn (action : ActionSpec C) (profile : UIProfile) : Bool :=
  availableIn profile action.uiTargets action.requiredCapabilities

def matchingTriggers (action : ActionSpec C) (profile : UIProfile) (kind : TriggerKind) :
    List TriggerSpec :=
  action.triggers.filter fun trigger =>
    trigger.kind = kind && trigger.isAvailableIn profile action.uiTargets

end ActionSpec

/-! ## The registry -/

/-- `ActionRegistry`; `register` refuses a second action with the same id. -/
structure ActionRegistry (C : Type) where
  actions : List (ActionSpec C)
  distinct : (actions.map ActionSpec.actionId).Nodup

structure ParsedAction (C : Type) where
  command : C
  action : ActionSpec C

def ParsedAction.request {C : Type} (parsed : ParsedAction C) : ActionRequest C :=
  ⟨parsed.action.actionId, parsed.command⟩

namespace ActionRegistry

variable {C : Type}

def iterActions (registry : ActionRegistry C) (profile : UIProfile) : List (ActionSpec C) :=
  registry.actions.filter fun action => action.isAvailableIn profile

/-- The first action of the list that reads the text. -/
def parseWith (profile : UIProfile) (text : Text) :
    List (ActionSpec C) → Except Failure (Option (ParsedAction C))
  | [] => .ok none
  | action :: rest =>
      match action.parser with
      | none => parseWith profile text rest
      | some parser =>
          if action.matchingTriggers profile .slash = [] then parseWith profile text rest
          else
            match parser text with
            | .error failure => .error failure
            | .ok none => parseWith profile text rest
            | .ok (some command) => .ok (some ⟨command, action⟩)

def parse (registry : ActionRegistry C) (profile : UIProfile) (text : Text) :
    Except Failure (Option (ParsedAction C)) :=
  parseWith profile text (registry.iterActions profile)

/-- `self._actions.get(action_id)`. -/
def find (registry : ActionRegistry C) (actionId : Text) : Option (ActionSpec C) :=
  registry.actions.find? fun action => action.actionId = actionId

def resolve (registry : ActionRegistry C) (profile : UIProfile) (request : ActionRequest C) :
    Except Failure (ParsedAction C) :=
  match registry.find request.actionId with
  | none => .error .other
  | some action =>
      if action.isAvailableIn profile = false then .error .other
      else if action.accepts request.command = false then .error .other
      else .ok ⟨request.command, action⟩

theorem mem_of_parseWith {profile : UIProfile} {text : Text} {actions : List (ActionSpec C)}
    {parsed : ParsedAction C} (hparse : parseWith profile text actions = .ok (some parsed)) :
    parsed.action ∈ actions := by
  induction actions with
  | nil => simp [parseWith] at hparse
  | cons action rest ih =>
      rw [parseWith] at hparse
      split at hparse
      · exact List.mem_cons_of_mem _ (ih hparse)
      · split at hparse
        · exact List.mem_cons_of_mem _ (ih hparse)
        · split at hparse
          · cases hparse
          · exact List.mem_cons_of_mem _ (ih hparse)
          · cases hparse
            exact List.mem_cons_self

/-- An action is found again by its id. -/
theorem find_of_mem (registry : ActionRegistry C) {action : ActionSpec C}
    (hmem : action ∈ registry.actions) : registry.find action.actionId = some action := by
  obtain ⟨actions, hdistinct⟩ := registry
  simp only [find] at hmem ⊢
  induction actions with
  | nil => cases hmem
  | cons head rest ih =>
      rw [List.map_cons, List.nodup_cons] at hdistinct
      rcases List.mem_cons.mp hmem with rfl | hrest
      · simp
      · have hne : head.actionId ≠ action.actionId := by
          intro heq
          exact hdistinct.1 (heq ▸ List.mem_map_of_mem hrest)
        rw [List.find?_cons_of_neg (by simpa using hne)]
        exact ih hdistinct.2 hrest

theorem find_of_parse {registry : ActionRegistry C} {profile : UIProfile} {text : Text}
    {parsed : ParsedAction C} (hparse : registry.parse profile text = .ok (some parsed)) :
    registry.find parsed.action.actionId = some parsed.action :=
  registry.find_of_mem (List.mem_of_mem_filter (mem_of_parseWith hparse))

theorem find_of_resolve {registry : ActionRegistry C} {profile : UIProfile}
    {request : ActionRequest C} {parsed : ParsedAction C}
    (hresolve : registry.resolve profile request = .ok parsed) :
    registry.find request.actionId = some parsed.action ∧ parsed.command = request.command := by
  rw [resolve] at hresolve
  split at hresolve
  · cases hresolve
  · rename_i action hfind
    split at hresolve
    · cases hresolve
    · split at hresolve
      · cases hresolve
      · cases hresolve
        exact ⟨hfind, rfl⟩

end ActionRegistry

/-! ## Preparing an input -/

/-- What `_prepare` finds: a chat, a text that no action reads, a command that waits for the
end of the turn, or one to be dispatched. -/
inductive Prepared (C : Type) where
  | chat
  | unknown
  | deferred (request : ActionRequest C)
  | parsed (parsed : ParsedAction C)

/-- The part of `_prepare` after the action is found. -/
def postpone {C : Type} (parsed : ParsedAction C) (duringTurn : Bool) : Prepared C :=
  if duringTurn = true ∧ parsed.action.duringTurn = .deferUntilIdle then
    .deferred parsed.request
  else .parsed parsed

/-- `_prepare`, without the append of a deferred command to the queue. -/
def prepare {C : Type} (registry : ActionRegistry C) (profile : UIProfile) (value : Input C)
    (duringTurn : Bool) : Except Failure (Prepared C) :=
  match value with
  | .chat _ => .ok .chat
  | .text text =>
      if startsWithSlash text then
        match registry.parse profile text with
        | .error failure => .error failure
        | .ok none => .ok .unknown
        | .ok (some parsed) => .ok (postpone parsed duringTurn)
      else .ok .chat
  | .action request =>
      match registry.resolve profile request with
      | .error failure => .error failure
      | .ok parsed => .ok (postpone parsed duringTurn)

variable {C : Type} {registry : ActionRegistry C} {profile : UIProfile} {duringTurn : Bool}

theorem postpone_ne_chat (parsed : ParsedAction C) : postpone parsed duringTurn ≠ .chat := by
  rw [postpone]
  split <;> simp

theorem prepare_eq_chat {value : Input C}
    (hprepare : prepare registry profile value duringTurn = .ok .chat) : value.isChat = true := by
  cases value with
  | chat input => rfl
  | text line =>
      by_cases hslash : startsWithSlash line = true
      · simp only [prepare, hslash, if_true] at hprepare
        split at hprepare
        · cases hprepare
        · cases hprepare
        · exact absurd (Except.ok.inj hprepare) (postpone_ne_chat _)
      · simpa [Input.isChat] using hslash
  | action request =>
      simp only [prepare] at hprepare
      split at hprepare
      · cases hprepare
      · exact absurd (Except.ok.inj hprepare) (postpone_ne_chat _)

/-- The entry that an input becomes in the queue, and the work of a worker beside the turn. -/
def entryOf (registry : ActionRegistry C) (profile : UIProfile) : Input C → Option (Input C)
  | .text line =>
      if startsWithSlash line then
        match registry.parse profile line with
        | .ok (some parsed) => some (.action parsed.request)
        | _ => none
      else some (.text line)
  | value => some value

theorem entryOf_chat {value : Input C} (hchat : value.isChat = true) :
    entryOf registry profile value = some value := by
  cases value with
  | chat input => rfl
  | text line =>
      have hplain : startsWithSlash line = false := by simpa [Input.isChat] using hchat
      simp [entryOf, hplain]
  | action request => rfl

theorem request_of_resolve {request : ActionRequest C} {parsed : ParsedAction C}
    (hresolve : registry.resolve profile request = .ok parsed) : parsed.request = request := by
  obtain ⟨hfind, hcommand⟩ := ActionRegistry.find_of_resolve hresolve
  have hid : parsed.action.actionId = request.actionId := by
    simpa using List.find?_some hfind
  rw [ParsedAction.request, hid, hcommand]

/-- What `_prepare` finds for a command is the input's own action. -/
theorem prepare_cases {value : Input C} {prepared : Prepared C}
    (hprepare : prepare registry profile value duringTurn = .ok prepared) :
    prepared = .chat ∨ prepared = .unknown ∨ ∃ parsed, prepared = postpone parsed duringTurn ∧
      entryOf registry profile value = some (.action parsed.request) ∧
      registry.find parsed.action.actionId = some parsed.action := by
  cases value with
  | chat input => exact .inl (Except.ok.inj hprepare).symm
  | text line =>
      by_cases hslash : startsWithSlash line = true
      · simp only [prepare, hslash, if_true] at hprepare
        cases hparse : registry.parse profile line with
        | error failure => simp [hparse] at hprepare
        | ok found =>
            cases found with
            | none =>
                simp only [hparse, Except.ok.injEq] at hprepare
                exact .inr (.inl hprepare.symm)
            | some parsed =>
                simp only [hparse, Except.ok.injEq] at hprepare
                exact .inr (.inr ⟨parsed, hprepare.symm, by simp [entryOf, hslash, hparse],
                  ActionRegistry.find_of_parse hparse⟩)
      · simp only [prepare, hslash, if_false, Bool.false_eq_true, Except.ok.injEq] at hprepare
        exact .inl hprepare.symm
  | action request =>
      cases hresolve : registry.resolve profile request with
      | error failure => simp [prepare, hresolve] at hprepare
      | ok parsed =>
          simp only [prepare, hresolve, Except.ok.injEq] at hprepare
          have hrequest := request_of_resolve hresolve
          refine .inr (.inr ⟨parsed, hprepare.symm, by rw [hrequest]; rfl, ?_⟩)
          rw [show parsed.action.actionId = request.actionId by rw [← hrequest]; rfl]
          exact (ActionRegistry.find_of_resolve hresolve).1

theorem prepare_deferred {value : Input C} {request : ActionRequest C}
    (hprepare : prepare registry profile value duringTurn = .ok (.deferred request)) :
    entryOf registry profile value = some (.action request) ∧
      ∃ action, registry.find request.actionId = some action ∧
        action.duringTurn = .deferUntilIdle := by
  rcases prepare_cases hprepare with hchat | hunknown | ⟨parsed, hpostpone, hentry, hfind⟩
  · cases hchat
  · cases hunknown
  · rw [postpone] at hpostpone
    split at hpostpone
    · rename_i hdefers
      cases hpostpone
      exact ⟨hentry, parsed.action, hfind, hdefers.2⟩
    · cases hpostpone

theorem postpone_ne_unknown (parsed : ParsedAction C) : postpone parsed duringTurn ≠ .unknown := by
  rw [postpone]
  split <;> simp

theorem prepare_unknown {value : Input C}
    (hprepare : prepare registry profile value duringTurn = .ok .unknown) :
    ∃ line, value = .text line ∧ startsWithSlash line = true ∧
      registry.parse profile line = .ok none := by
  cases value with
  | chat input => cases hprepare
  | text line =>
      by_cases hslash : startsWithSlash line = true
      · simp only [prepare, hslash, if_true] at hprepare
        split at hprepare
        · cases hprepare
        · rename_i hparse
          exact ⟨line, rfl, hslash, hparse⟩
        · exact absurd (Except.ok.inj hprepare) (postpone_ne_unknown _)
      · simp [prepare, hslash] at hprepare
  | action request =>
      simp only [prepare] at hprepare
      split at hprepare
      · cases hprepare
      · exact absurd (Except.ok.inj hprepare) (postpone_ne_unknown _)

/-- After a turn nothing waits. -/
theorem not_deferred_after_turn {value : Input C} {request : ActionRequest C} :
    prepare registry profile value false ≠ .ok (.deferred request) := by
  intro hprepare
  rcases prepare_cases hprepare with hchat | hunknown | ⟨parsed, hpostpone, -, -⟩
  · cases hchat
  · cases hunknown
  · simp [postpone] at hpostpone

theorem prepare_parsed {value : Input C} {parsed : ParsedAction C}
    (hprepare : prepare registry profile value duringTurn = .ok (.parsed parsed)) :
    entryOf registry profile value = some (.action parsed.request) ∧
      registry.find parsed.request.actionId = some parsed.action ∧
      (duringTurn = true → parsed.action.duringTurn = .immediate) := by
  rcases prepare_cases hprepare with hchat | hunknown | ⟨found, hpostpone, hentry, hfind⟩
  · cases hchat
  · cases hunknown
  · rw [postpone] at hpostpone
    split at hpostpone
    · cases hpostpone
    · rename_i hready
      cases hpostpone
      refine ⟨hentry, hfind, fun hduring => ?_⟩
      cases hpolicy : parsed.action.duringTurn with
      | immediate => rfl
      | deferUntilIdle => exact absurd ⟨hduring, hpolicy⟩ hready

end ReuleauxCoder.Runtime
