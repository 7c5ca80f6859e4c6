import ReuleauxCoder.Library.Transition
import ReuleauxCoder.Persistence.Validation

/-!
# Persistable control-plane output

The plan controller and the session store bound the same texts independently.
The controller limits lengths and strips white space; the store also refuses
control and format characters, text that UTF-8 cannot encode and empty tool
call identifiers.  Under the conditions that separate the two, every accepted
call leaves a runtime state and an event that the store accepts.
-/

namespace ReuleauxCoder.Persistence

open Check PyText PyJson PlanController Transition
open List hiding lookup
open Context (isFilledText isListOf isOneOf isOptional isText)
open History (Dict HistoryEvent HistoryLedger Readings Stamp append_records eventId newEvent
  optionalText orText)

/-- Session-scoped runtime overrides. -/
structure SessionRuntimeState where
  model : Option Text := none
  activeMode : Option Text := none
  llmDebugTrace : Option Bool := none
  activeMainModelProfile : Option Text := none
  activeSubModelProfile : Option Text := none
  approvalRules : List Dict := []
  executionTarget : Option Text := none
  remoteBinding : Dict := []
  planState : Dict := []
  progressState : Dict := []
  skillsDisabled : List Text := []
  goal : Option Dict := none

def optionalBool : Option Bool → Json
  | none => .null
  | some value => .bool value

def optionalDict : Option Dict → Json
  | none => .null
  | some fields => .obj fields

def SessionRuntimeState.toDict (state : SessionRuntimeState) : Dict :=
  [(lit "model", optionalText state.model),
    (lit "active_mode", optionalText state.activeMode),
    (lit "llm_debug_trace", optionalBool state.llmDebugTrace),
    (lit "active_main_model_profile", optionalText state.activeMainModelProfile),
    (lit "active_sub_model_profile", optionalText state.activeSubModelProfile),
    (lit "approval_rules", .arr (state.approvalRules.map .obj)),
    (lit "execution_target", optionalText state.executionTarget),
    (lit "remote_binding", .obj state.remoteBinding),
    (lit "plan_state", .obj state.planState),
    (lit "progress_state", .obj state.progressState),
    (lit "skills_disabled", .arr (state.skillsDisabled.map .str)),
    (lit "goal", optionalDict state.goal)]

/-- The part of `build_session_runtime_state` that reads the plan controller. -/
def buildSessionRuntimeState (base : SessionRuntimeState) (controller : Controller) :
    SessionRuntimeState :=
  { base with
    planState := controller.state.toDict
    progressState := controller.progress.toDict }

def SessionRuntimeState.withoutControl (state : SessionRuntimeState) : SessionRuntimeState :=
  { state with planState := [], progressState := [] }

theorem isStrictUtf8Tree_toDict (state : SessionRuntimeState) :
    isStrictUtf8Tree (.obj state.toDict) 0 =
      (isStrictUtf8Tree (.obj state.withoutControl.toDict) 0 &&
        (isStrictUtf8Fields state.planState 2 && isStrictUtf8Fields state.progressState 2)) := by
  rw [Bool.eq_iff_iff]
  simp only [SessionRuntimeState.toDict, SessionRuntimeState.withoutControl, isStrictUtf8Tree,
    isStrictUtf8Fields, Bool.and_eq_true]
  tauto

theorem isFiniteTree_toDict (state : SessionRuntimeState) :
    isFiniteTree (.obj state.toDict) =
      (isFiniteTree (.obj state.withoutControl.toDict) &&
        (isFiniteFields state.planState && isFiniteFields state.progressState)) := by
  rw [Bool.eq_iff_iff]
  simp only [SessionRuntimeState.toDict, SessionRuntimeState.withoutControl, isFiniteTree,
    isFiniteFields, Bool.and_eq_true]
  tauto

theorem length_dumps_toDict (state : SessionRuntimeState) :
    (dumps compact (.obj state.toDict)).length + 4 =
      (dumps compact (.obj state.withoutControl.toDict)).length +
        (dumps compact (.obj state.planState)).length +
        (dumps compact (.obj state.progressState)).length := by
  have hempty : (dumps compact (.obj [])).length = 2 := rfl
  rw [length_dumps_obj_compact (by simp [SessionRuntimeState.toDict]),
    length_dumps_obj_compact (by simp [SessionRuntimeState.toDict])]
  simp only [SessionRuntimeState.toDict, SessionRuntimeState.withoutControl, map_cons,
    map_nil, sum_cons, sum_nil, fieldLength, hempty]
  omega

/-! ## Persistable plan and progress states -/

/-- A bounded text without control or format characters that UTF-8 encodes. -/
structure Plain (limit : ℕ) (text : Text) : Prop where
  bounded : text.length ≤ limit
  controls : noControls text = true
  encodable : utf8Encodable text = true

instance (limit : ℕ) (text : Text) : Decidable (Plain limit text) :=
  decidable_of_iff
    (text.length ≤ limit ∧ noControls text = true ∧ utf8Encodable text = true)
    ⟨fun ⟨hbounded, hcontrols, hencodable⟩ => ⟨hbounded, hcontrols, hencodable⟩,
      fun ⟨hbounded, hcontrols, hencodable⟩ => ⟨hbounded, hcontrols, hencodable⟩⟩

/-- `None` or a plain text. -/
def PlainOrNull (limit : ℕ) (value : Json) : Prop :=
  value = .null ∨ ∃ text, value = .str text ∧ Plain limit text

variable {limit : ℕ} {value : Json}

theorem plainOrNull_optionalText {text : Option Text} (hplain : ∀ value ∈ text, Plain limit value) :
    PlainOrNull limit (optionalText text) := by
  cases text with
  | none => exact Or.inl rfl
  | some value => exact Or.inr ⟨value, rfl, hplain value rfl⟩

theorem Plain.length_quoted_le {text : Text} (hplain : Plain limit text) :
    (quoted text).length ≤ 2 * limit + 2 := by
  have hprintable : ∀ c ∈ text, 0x20 ≤ c.val := by
    intro c hmem
    have hc := all_eq_true.mp hplain.controls c hmem
    simp only [isControl, Bool.not_eq_true', Bool.or_eq_false_iff, decide_eq_false_iff_not] at hc
    omega
  have hlength := PyJson.length_quoted_le hprintable
  have hbounded := hplain.bounded
  omega

theorem PlainOrNull.isRuntimeText (hplain : PlainOrNull limit value)
    (hlimit : limit ≤ maxRuntimeTextChars) :
    isOptional (isBoundedRuntimeText maxRuntimeTextChars) value = true := by
  rcases hplain with rfl | ⟨text, rfl, htext⟩
  · simp [isOptional]
  · have hbounded := htext.bounded.trans hlimit
    simp [isOptional, isBoundedRuntimeText, hbounded, htext.controls]

theorem PlainOrNull.isStrictUtf8 (hplain : PlainOrNull limit value) {depth : ℕ}
    (hdepth : depth ≤ 64) : isStrictUtf8Tree value depth = true := by
  rcases hplain with rfl | ⟨text, rfl, htext⟩
  · simpa [isStrictUtf8Tree] using hdepth
  · simp [isStrictUtf8Tree, hdepth, htext.encodable]

theorem PlainOrNull.isFinite (hplain : PlainOrNull limit value) : isFiniteTree value = true := by
  rcases hplain with rfl | ⟨text, rfl, -⟩ <;> rfl

theorem PlainOrNull.length_dumps_le (hplain : PlainOrNull limit value) :
    (dumps compact value).length ≤ 2 * limit + 4 := by
  rcases hplain with rfl | ⟨text, rfl, htext⟩
  · change 4 ≤ _
    omega
  · have hquoted := htext.length_quoted_le
    change (quoted text).length ≤ _
    omega

/-- A counter the store accepts. -/
def Counted (value : ℤ) : Prop :=
  0 ≤ value ∧ value ≤ maxPersistedCounter

theorem Counted.isCounter {value : ℤ} (hcounted : Counted value) :
    isCounter (.int value) = true := by
  obtain ⟨hlow, hhigh⟩ := hcounted
  simp [Persistence.isCounter, isIntBetween, hlow, hhigh]

theorem Counted.length_dumps_le {value : ℤ} (hcounted : Counted value) :
    (dumps compact (.int value)).length ≤ 19 := by
  obtain ⟨hlow, hhigh⟩ := hcounted
  apply length_intText_le (by decide) hlow
  rw [maxPersistedCounter] at hhigh
  omega

structure PersistablePlan (state : PlanState) : Prop where
  owner : Plain 256 state.ownerAgentId
  generation : Counted state.sessionGeneration
  revision : Counted state.revision
  items : WellFormed state.items
  encodable : ∀ item ∈ state.items,
    utf8Encodable item.step = true ∧ utf8Encodable item.activeForm = true
  explanation : PlainOrNull 500 state.explanation
  eventId : PlainOrNull 15 state.eventId

structure PersistableProgress (state : ProgressState) : Prop where
  summary : Plain 500 state.summary
  next : ∀ text ∈ state.next, Plain 500 text
  revision : Counted state.revision
  eventId : PlainOrNull 15 state.eventId

theorem utf8Encodable_status (status : PlanStatus) : utf8Encodable status.text = true := by
  cases status <;> decide

theorem isPlanItem_toJson (item : PlanItem) : isPlanItem item.toJson = true := by
  obtain ⟨step, activeForm, status⟩ := item
  cases status <;> simp [isPlanItem, PlanItem.toJson, field, lookup, isText, isOneOf,
    PlanStatus.text]

variable {items : List PlanItem}

theorem isStrictUtf8Items_toJson (hencodable : ∀ item ∈ items,
      utf8Encodable item.step = true ∧ utf8Encodable item.activeForm = true) :
    isStrictUtf8Items (items.map PlanItem.toJson) 3 = true := by
  induction items with
  | nil => rfl
  | cons item rest ih =>
      obtain ⟨hstep, hactive⟩ := hencodable item mem_cons_self
      have hrest := ih fun other hmem => hencodable other (mem_cons_of_mem _ hmem)
      have hkeys : utf8Encodable (lit "step") = true ∧ utf8Encodable (lit "active_form") = true ∧
          utf8Encodable (lit "status") = true := by decide
      simp [isStrictUtf8Items, PlanItem.toJson, isStrictUtf8Tree, isStrictUtf8Fields, hstep,
        hactive, hkeys, utf8Encodable_status, hrest]

theorem isFiniteItems_toJson (items : List PlanItem) :
    isFiniteItems (items.map PlanItem.toJson) = true := by
  induction items with
  | nil => rfl
  | cons item rest ih =>
      simp [isFiniteItems, PlanItem.toJson, isFiniteTree, isFiniteFields, ih]

section Plan

variable {state : PlanState} (hstate : PersistablePlan state)

include hstate

theorem PersistablePlan.isStrictUtf8 : isStrictUtf8Fields state.toDict 2 = true := by
  have hkeys : [lit "owner_agent_id", lit "session_generation", lit "revision", lit "items",
      lit "explanation", lit "event_id"].all utf8Encodable = true := by decide
  simp only [all_cons, all_nil, Bool.and_true, Bool.and_eq_true] at hkeys
  simp [PlanState.toDict, isStrictUtf8Fields, isStrictUtf8Tree, itemsJson, hkeys,
    hstate.owner.encodable, isStrictUtf8Items_toJson hstate.encodable,
    hstate.explanation.isStrictUtf8, hstate.eventId.isStrictUtf8]

theorem PersistablePlan.isFinite : isFiniteFields state.toDict = true := by
  simp [PlanState.toDict, isFiniteFields, isFiniteTree, itemsJson, isFiniteItems_toJson,
    hstate.explanation.isFinite, hstate.eventId.isFinite]

theorem PersistablePlan.length_dumps_le : (dumps compact (.obj state.toDict)).length ≤ 6679 := by
  have howner : (dumps compact (.str state.ownerAgentId)).length ≤ 514 :=
    hstate.owner.length_quoted_le
  have hgeneration := hstate.generation.length_dumps_le
  have hrevision := hstate.revision.length_dumps_le
  have hitems := hstate.items.encoded
  have hexplanation := hstate.explanation.length_dumps_le
  have hevent := hstate.eventId.length_dumps_le
  have hkeys : (quoted (lit "owner_agent_id")).length = 16 ∧
      (quoted (lit "session_generation")).length = 20 ∧ (quoted (lit "revision")).length = 10 ∧
      (quoted (lit "items")).length = 7 ∧ (quoted (lit "explanation")).length = 13 ∧
      (quoted (lit "event_id")).length = 10 := by decide
  rw [length_dumps_obj_compact (by simp [PlanState.toDict])]
  simp only [PlanState.toDict, map_cons, map_nil, sum_cons, sum_nil,
    fieldLength, hkeys]
  rw [maxSerializedChars] at hitems
  omega

theorem PersistablePlan.validatePlanState_eq (builtins : Builtins) :
    validatePlanState builtins state.toDict = .ok () := by
  have hfields : fieldOr state.toDict "items" (.arr []) = itemsJson state.items ∧
      fieldOr state.toDict "revision" (.int 0) = .int state.revision ∧
      fieldOr state.toDict "session_generation" (.int 0) = .int state.sessionGeneration ∧
      field state.toDict "owner_agent_id" = .str state.ownerAgentId ∧
      field state.toDict "explanation" = state.explanation ∧
      field state.toDict "event_id" = state.eventId := by
    simp [PlanState.toDict, field, fieldOr, lookup]
  obtain ⟨hitems, hrevision, hgeneration, howner, hexplanation, hevent⟩ := hfields
  have hshape : isListOf isPlanItem (itemsJson state.items) = true := by
    simp [isListOf, itemsJson, isPlanItem_toJson]
  have howned : PlainOrNull 256 (.str state.ownerAgentId) := Or.inr ⟨_, rfl, hstate.owner⟩
  simp only [validatePlanState, bind_eq_ok, exists_unit, require_eq_ok, hitems, hshape,
    validateItems_itemsJson builtins hstate.items, all_cons, all_nil, hrevision,
    hgeneration, howner, hexplanation, hevent, hstate.revision.isCounter,
    hstate.generation.isCounter, howned.isRuntimeText (by decide),
    hstate.explanation.isRuntimeText (by decide), hstate.eventId.isRuntimeText (by decide)]
  simp

end Plan

section Progress

variable {state : ProgressState} (hstate : PersistableProgress state)

include hstate

theorem PersistableProgress.isStrictUtf8 : isStrictUtf8Fields state.toDict 2 = true := by
  have hkeys : [lit "phase", lit "summary", lit "next", lit "revision", lit "event_id"].all
      utf8Encodable = true := by decide
  have hphase : utf8Encodable state.phase.text = true := by
    cases state.phase <;> decide
  simp only [all_cons, all_nil, Bool.and_true, Bool.and_eq_true] at hkeys
  simp [ProgressState.toDict, isStrictUtf8Fields, isStrictUtf8Tree, hkeys, hphase,
    hstate.summary.encodable, (plainOrNull_optionalText hstate.next).isStrictUtf8,
    hstate.eventId.isStrictUtf8]

theorem PersistableProgress.isFinite : isFiniteFields state.toDict = true := by
  simp [ProgressState.toDict, isFiniteFields, isFiniteTree,
    (plainOrNull_optionalText hstate.next).isFinite, hstate.eventId.isFinite]

theorem PersistableProgress.length_dumps_le :
    (dumps compact (.obj state.toDict)).length ≤ 2127 := by
  have hphase : (dumps compact (.str state.phase.text)).length ≤ 15 := by
    cases state.phase <;> decide
  have hsummary : (dumps compact (.str state.summary)).length ≤ 1002 :=
    hstate.summary.length_quoted_le
  have hnext := (plainOrNull_optionalText hstate.next).length_dumps_le
  have hrevision := hstate.revision.length_dumps_le
  have hevent := hstate.eventId.length_dumps_le
  have hkeys : (quoted (lit "phase")).length = 7 ∧ (quoted (lit "summary")).length = 9 ∧
      (quoted (lit "next")).length = 6 ∧ (quoted (lit "revision")).length = 10 ∧
      (quoted (lit "event_id")).length = 10 := by decide
  rw [length_dumps_obj_compact (by simp [ProgressState.toDict])]
  simp only [ProgressState.toDict, map_cons, map_nil, sum_cons, sum_nil,
    fieldLength, hkeys]
  omega

theorem PersistableProgress.validateProgressState_eq :
    validateProgressState state.toDict = .ok () := by
  have hfields : field state.toDict "phase" = .str state.phase.text ∧
      fieldOr state.toDict "revision" (.int 0) = .int state.revision ∧
      field state.toDict "summary" = .str state.summary ∧
      field state.toDict "next" = optionalText state.next ∧
      field state.toDict "event_id" = state.eventId := by
    simp [ProgressState.toDict, field, fieldOr, lookup]
  obtain ⟨hphase, hrevision, hsummary, hnext, hevent⟩ := hfields
  have hknown : isOneOf ["investigating", "implementing", "verifying", "ready", "blocked"]
      (.str state.phase.text) = true := by
    cases state.phase <;> decide
  have hsummarized : PlainOrNull 500 (.str state.summary) := Or.inr ⟨_, rfl, hstate.summary⟩
  have hne : state.toDict ≠ [] := by simp [ProgressState.toDict]
  simp only [validateProgressState, hne, if_false, bind_eq_ok, exists_unit, require_eq_ok, hphase,
    hknown, hrevision, hstate.revision.isCounter, all_cons, all_nil, hsummary, hnext,
    hevent, hsummarized.isRuntimeText (by decide),
    (plainOrNull_optionalText hstate.next).isRuntimeText (by decide),
    hstate.eventId.isRuntimeText (by decide)]
  simp

end Progress

theorem lookup_build (base : SessionRuntimeState) (controller : Controller) {key : String}
    (hplan : "plan_state" ≠ key) (hprogress : "progress_state" ≠ key) :
    lookup (lit key) (buildSessionRuntimeState base controller).toDict =
      lookup (lit key) base.withoutControl.toDict := by
  simp [buildSessionRuntimeState, SessionRuntimeState.withoutControl, SessionRuntimeState.toDict,
    lookup, hplan, hprogress]

/-- The largest share of the encoded runtime state that a plan and a progress
report can take. -/
def controlStateChars : ℕ := 8802

/-- Adding a persistable plan and progress report to an accepted runtime state
with room for them keeps it accepted. -/
theorem validateRuntimeStatePayload_build {builtins : Builtins} {base : SessionRuntimeState}
    {controller : Controller} (hplan : PersistablePlan controller.state)
    (hprogress : PersistableProgress controller.progress)
    (hbase : validateRuntimeStatePayload builtins (.obj base.withoutControl.toDict) = .ok ())
    (hroom : (dumps compact (.obj base.withoutControl.toDict)).length + controlStateChars ≤
      maxRuntimeStateChars) :
    validateRuntimeStatePayload builtins
      (.obj (buildSessionRuntimeState base controller).toDict) = .ok () := by
  have hlength := length_dumps_toDict (buildSessionRuntimeState base controller)
  have hplanLength := hplan.length_dumps_le
  have hprogressLength := hprogress.length_dumps_le
  have hwithout : (buildSessionRuntimeState base controller).withoutControl =
      base.withoutControl := rfl
  have hstates : (buildSessionRuntimeState base controller).planState =
        controller.state.toDict ∧
      (buildSessionRuntimeState base controller).progressState =
        controller.progress.toDict := ⟨rfl, rfl⟩
  rw [hwithout, hstates.1, hstates.2] at hlength
  have hplanField : fieldOr (buildSessionRuntimeState base controller).toDict "plan_state"
      (.obj []) = .obj controller.state.toDict := by
    simp [buildSessionRuntimeState, SessionRuntimeState.toDict, fieldOr, lookup]
  have hprogressField : fieldOr (buildSessionRuntimeState base controller).toDict
      "progress_state" (.obj []) = .obj controller.progress.toDict := by
    simp [buildSessionRuntimeState, SessionRuntimeState.toDict, fieldOr, lookup]
  have hsame : ∀ key default, "plan_state" ≠ key → "progress_state" ≠ key →
      fieldOr (buildSessionRuntimeState base controller).toDict key default =
        fieldOr base.withoutControl.toDict key default := by
    intro key default hplanKey hprogressKey
    rw [fieldOr, fieldOr, lookup_build base controller hplanKey hprogressKey]
  have hsameField : ∀ key, "plan_state" ≠ key → "progress_state" ≠ key →
      field (buildSessionRuntimeState base controller).toDict key =
        field base.withoutControl.toDict key := fun key => hsame key .null
  simp only [validateRuntimeStatePayload, bind_eq_ok, exists_unit, require_eq_ok] at hbase ⊢
  obtain ⟨hutf8, hfinite, -, hstrings, hdebug, hmappings, hskills, hrules, hrule, -, -⟩ := hbase
  refine ⟨?_, ?_, ?_, ?_, ?_, ?_, ?_, ?_, ?_, ?_, ?_⟩
  · rw [isStrictUtf8Tree_toDict, hwithout, hutf8, hstates.1, hstates.2, hplan.isStrictUtf8,
      hprogress.isStrictUtf8]
    rfl
  · rw [isFiniteTree_toDict, hwithout, hfinite, hstates.1, hstates.2, hplan.isFinite,
      hprogress.isFinite]
    rfl
  · rw [controlStateChars, maxRuntimeStateChars] at hroom
    rw [maxRuntimeStateChars]
    omega
  · rw [all_eq_true] at hstrings ⊢
    intro key hkey
    have hkeys : ∀ key ∈ runtimeStrings, "plan_state" ≠ key ∧ "progress_state" ≠ key := by
      decide
    rw [hsameField key (hkeys key hkey).1 (hkeys key hkey).2]
    exact hstrings key hkey
  · rwa [hsameField _ (by decide) (by decide)]
  · simp only [all_cons, all_nil, Bool.and_eq_true] at hmappings ⊢
    rw [hplanField, hprogressField, hsame _ _ (by decide) (by decide)]
    exact ⟨hmappings.1, rfl, rfl, trivial⟩
  · rwa [hsame _ _ (by decide) (by decide)]
  · rwa [hsame _ _ (by decide) (by decide)]
  · rwa [hsame _ _ (by decide) (by decide)]
  · rw [hplanField]
    exact hplan.validatePlanState_eq builtins
  · rw [hprogressField]
    exact hprogress.validateProgressState_eq

/-! ## Control events -/

def isHexDigit (c : CodePoint) : Bool :=
  (0x30 ≤ c.val && c.val ≤ 0x39) || (0x61 ≤ c.val && c.val ≤ 0x66)

/-- What `uuid4().hex[:12]` and `time.time()` return. -/
structure WellStamped (stamp : Stamp) : Prop where
  uuid : stamp.uuid.length = 12
  hex : stamp.uuid.all isHexDigit = true
  time : isTimestamp (.float stamp.time) = true

instance (stamp : Stamp) : Decidable (WellStamped stamp) :=
  decidable_of_iff
    (stamp.uuid.length = 12 ∧ stamp.uuid.all isHexDigit = true ∧
      isTimestamp (.float stamp.time) = true)
    ⟨fun ⟨huuid, hhex, htime⟩ => ⟨huuid, hhex, htime⟩,
      fun ⟨huuid, hhex, htime⟩ => ⟨huuid, hhex, htime⟩⟩

theorem hexDigit_facts {c : CodePoint} (hhex : isHexDigit c = true) :
    isNameChar c = true ∧ isControl c = false ∧ isFormat c = false ∧ isSurrogate c = false := by
  have hrange : c.val < 0x67 ∧ 0x30 ≤ c.val := by
    simp only [isHexDigit, Bool.or_eq_true, Bool.and_eq_true, decide_eq_true_eq] at hhex
    omega
  refine ⟨?_, ?_, ?_, ?_⟩
  · simp only [isHexDigit, Bool.or_eq_true, Bool.and_eq_true, decide_eq_true_eq] at hhex
    have hletter : (0x30 ≤ c.val ∧ c.val ≤ 0x39) ∨ (0x61 ≤ c.val ∧ c.val ≤ 0x7A) := by omega
    rcases hletter with hletter | hletter <;> simp [isNameChar, hletter]
  · have hlow : ¬c.val ≤ 0x1F ∧ ¬0x7F ≤ c.val := by omega
    simp [isControl, hlow]
  · have hfirst : ∀ range ∈ formatRanges, 0xAD ≤ range.1 := by decide
    rw [isFormat, any_eq_false]
    intro range hmem
    have hbelow : ¬range.1 ≤ c.val := by
      have := hfirst range hmem
      omega
    simp [hbelow]
  · have hbelow : ¬0xD800 ≤ c.val := by omega
    simp [isSurrogate, hbelow]

variable {stamp : Stamp}

theorem WellStamped.plain_eventId (hstamp : WellStamped stamp) : Plain 15 (eventId stamp) := by
  have hhex : ∀ c ∈ stamp.uuid, isHexDigit c = true := all_eq_true.mp hstamp.hex
  constructor
  · simp [eventId, lit, hstamp.uuid]
  · rw [noControls, eventId, all_append, Bool.and_eq_true]
    refine ⟨by decide, all_eq_true.mpr ?_⟩
    intro c hmem
    obtain ⟨-, hcontrol, hformat, -⟩ := hexDigit_facts (hhex c hmem)
    simp [hcontrol, hformat]
  · rw [utf8Encodable, eventId, all_append, Bool.and_eq_true]
    refine ⟨by decide, all_eq_true.mpr ?_⟩
    intro c hmem
    obtain ⟨-, -, -, hsurrogate⟩ := hexDigit_facts (hhex c hmem)
    simp [hsurrogate]

theorem WellStamped.isName_eventId (hstamp : WellStamped stamp) :
    isName (.str (eventId stamp)) = true := by
  have hlength : (eventId stamp).length = 15 := by simp [eventId, lit, hstamp.uuid]
  have hne : eventId stamp ≠ [] := by simp [eventId, lit]
  have hchars : (eventId stamp).all isNameChar = true := by
    rw [eventId, all_append, Bool.and_eq_true]
    refine ⟨by decide, all_eq_true.mpr ?_⟩
    intro c hmem
    exact (hexDigit_facts (all_eq_true.mp hstamp.hex c hmem)).1
  simp [isName, hlength, hne, hchars]

/-- The identity a ledger gives to its events is one the store accepts. -/
structure Identified (expectedSessionId : Option Text) (ledger : HistoryLedger) : Prop where
  agent : ∀ id ∈ ledger.agentId, id ≠ [] ∧ id.length ≤ 256
  session : ∀ id ∈ ledger.sessionId, id ≠ [] ∧ ∀ expected ∈ expectedSessionId, id = expected
  generation : Counted ledger.generation
  nextSeq : 0 < ledger.nextSeq

theorem toDict_fields (event : HistoryEvent) :
      field event.toDict "event_id" = .str event.eventId ∧
      field event.toDict "kind" = .str event.kind ∧
      field event.toDict "seq" = .int event.seq ∧
      field event.toDict "payload" = .obj event.payload ∧
      fieldOr event.toDict "schema_version" (.int 1) = .int event.schemaVersion ∧
      fieldOr event.toDict "session_generation" (.int 0) = .int event.sessionGeneration ∧
      (∀ default, fieldOr event.toDict "timestamp" default = .float event.createdAt) ∧
      field event.toDict "session_id" = optionalText event.sessionId ∧
      field event.toDict "agent_id" = optionalText event.agentId ∧
      field event.toDict "parent_agent_id" = optionalText event.parentAgentId ∧
      field event.toDict "job_id" = optionalText event.jobId ∧
      field event.toDict "turn_id" = optionalText event.turnId ∧
      field event.toDict "api_round_id" = optionalText event.apiRoundId ∧
      field event.toDict "role" = optionalText event.role ∧
      fieldOr event.toDict "artifact_refs" (.arr []) = .arr (event.artifactRefs.map .str) ∧
      fieldOr event.toDict "supersedes_event_ids" (.arr []) =
        .arr (event.supersedesEventIds.map .str) := by
  simp [HistoryEvent.toDict, field, fieldOr, lookup]

theorem validateHistoryEventPayload_newEvent {builtins : Builtins} {expectedSessionId : Option Text}
    {ledger : HistoryLedger} {kind : Text} {payload : Dict}
    (hidentified : Identified expectedSessionId ledger) (hstamp : WellStamped stamp)
    (hseq : ledger.nextSeq ≤ maxPersistedCounter) (hkind : isName (.str kind) = true)
    (hbody : validateEventBody builtins (newEvent ledger stamp kind payload {}).toDict payload
      kind = .ok ()) :
    validateHistoryEventPayload builtins expectedSessionId
      (.obj (newEvent ledger stamp kind payload {}).toDict) = .ok () := by
  generalize hevent : newEvent ledger stamp kind payload {} = event at hbody ⊢
  obtain ⟨hid, hkindField, hseqField, hpayload, hversion, hgeneration, htime, hsession, hagent,
    hparent, hjob, hturn, hround, hrole, hartifacts, hsupersedes⟩ := toDict_fields event
  simp only [validateHistoryEventPayload, optionalEventTexts, bind_eq_ok, exists_unit,
    require_eq_ok, all_cons, all_nil, hid, hkindField, hseqField, hpayload, hversion,
    hgeneration, htime, hsession, hagent, hparent, hjob, hturn, hround, hrole, hartifacts,
    hsupersedes, fieldsOf, textOf]
  subst hevent
  refine ⟨⟨hstamp.isName_eventId, hkind, ?_, rfl⟩, ⟨rfl, hidentified.generation.isCounter⟩,
    hstamp.time, ?_, ?_, rfl, hbody⟩
  · have hpositive := hidentified.nextSeq
    change isIntBetween 1 maxPersistedCounter (.int ledger.nextSeq) = true
    simp only [isIntBetween, Bool.and_eq_true, decide_eq_true_eq]
    omega
  · have hnamed := hidentified.session
    simp only [newEvent]
    cases hid : ledger.sessionId with
    | none => simp [optionalText, isOptional]
    | some id =>
        obtain ⟨hne, hexpected⟩ := hnamed id hid
        refine ⟨by simp [optionalText, isOptional, isFilledText, hne], ?_⟩
        intro expected hmem
        rw [hexpected expected hmem]
        exact Or.inr rfl
  · have hnamed := hidentified.agent
    simp only [newEvent, orText]
    cases hid : ledger.agentId with
    | none => simp [optionalText, isOptional]
    | some id =>
        obtain ⟨hne, hlength⟩ := hnamed id hid
        simp [optionalText, isOptional, isFilledText, isTextUpTo, hne, hlength]

section Bodies

variable {builtins : Builtins} {event : List (Text × Json)} {agentId toolCallId : Text}
  {generation revision : ℤ}

section

variable (hevent : field event "session_generation" = .int generation)
include hevent

theorem isControlEvent_of_fields {body : List (Text × Json)}
    (hbody : field body "owner_agent_id" = .str agentId ∧
      field body "tool_call_id" = .str toolCallId ∧ field body "revision" = .int revision ∧
      field body "session_generation" = .int generation)
    (hagent : agentId ≠ []) (hcall : toolCallId ≠ []) (hrevision : Counted revision) :
    isControlEvent event body = true := by
  obtain ⟨howner, hid, hrevised, hgenerated⟩ := hbody
  simp [isControlEvent, howner, hid, hrevised, hgenerated, hevent, isFilledText, hagent, hcall,
    hrevision.isCounter]

theorem validateEventBody_planPayload {explanation : Option Text} (hagent : agentId ≠ [])
    (hcall : toolCallId ≠ []) (hrevision : Counted revision) (hitems : WellFormed items)
    (hexplanation : ∀ text ∈ explanation, Plain 500 text) :
    validateEventBody builtins event
      (planPayload agentId generation revision items explanation toolCallId)
      (lit "plan_updated") = .ok () := by
  have hcontrol : isControlEvent event
      (planPayload agentId generation revision items explanation toolCallId) = true := by
    apply isControlEvent_of_fields hevent _ hagent hcall hrevision
    simp [planPayload, field, lookup]
  have hfields : field (planPayload agentId generation revision items explanation toolCallId)
        "explanation" = optionalText explanation ∧
      field (planPayload agentId generation revision items explanation toolCallId) "items" =
        itemsJson items := by
    simp [planPayload, field, lookup]
  have hplain := (plainOrNull_optionalText hexplanation).isRuntimeText (by decide)
  simp [validateEventBody, validatePlanUpdated, hcontrol, hfields, hplain,
    validateItems_itemsJson builtins hitems]

theorem validateEventBody_progressPayload {phase : ProgressPhase} {summary : Text}
    {next : Option Text}
    (hagent : agentId ≠ []) (hcall : toolCallId ≠ []) (hrevision : Counted revision)
    (hsummary : summary ≠ []) (hplain : Plain 500 summary)
    (hnext : ∀ text ∈ next, Plain 500 text) :
    validateEventBody builtins event
      (progressPayload agentId generation revision phase summary next toolCallId)
      (lit "progress_reported") = .ok () := by
  have hcontrol : isControlEvent event
      (progressPayload agentId generation revision phase summary next toolCallId) = true := by
    apply isControlEvent_of_fields hevent _ hagent hcall hrevision
    simp [progressPayload, field, lookup]
  have hfields : field (progressPayload agentId generation revision phase summary next toolCallId)
        "phase" = .str phase.text ∧
      field (progressPayload agentId generation revision phase summary next toolCallId)
        "summary" = .str summary ∧
      field (progressPayload agentId generation revision phase summary next toolCallId)
        "next" = optionalText next := by
    simp [progressPayload, field, lookup]
  have hphase : isOneOf ["investigating", "implementing", "verifying", "ready", "blocked"]
      (.str phase.text) = true := by
    cases phase <;> decide
  have hbounded : isOptional (isTextUpTo 500) (optionalText next) = true := by
    cases next with
    | none => rfl
    | some text => simp [optionalText, isOptional, isTextUpTo, (hnext text rfl).bounded]
  simp [validateEventBody, validateProgressReported, hcontrol, hfields, hphase, hbounded,
    isFilledText, isTextUpTo, hsummary, hplain.bounded]

end

end Bodies

/-! ## Runs of control calls -/

/-- The texts of the items a call would store are UTF-8. -/
def encodableItems (builtins : Builtins) (rawItems : Json) : Bool :=
  match validateItems builtins rawItems with
  | .ok items => items.all fun item => utf8Encodable item.step && utf8Encodable item.activeForm
  | .error _ => true

/-- The arguments on which the controller's checks and the store's agree. -/
def PersistableCall (builtins : Builtins) : Call → Prop
  | .update rawItems explanation toolCallId _ =>
      toolCallId ≠ [] ∧ encodableItems builtins rawItems = true ∧
        ∀ text ∈ boundedText explanation, Plain 500 text
  | .report _ summary nextStep toolCallId _ =>
      toolCallId ≠ [] ∧ Plain 500 (strip summary) ∧
        ∀ text ∈ boundedText nextStep, Plain 500 text

instance (builtins : Builtins) : ∀ call, Decidable (PersistableCall builtins call)
  | .update .. => inferInstanceAs (Decidable (_ ∧ _ ∧ _))
  | .report .. => inferInstanceAs (Decidable (_ ∧ _ ∧ _))

/-- A call whose arguments the store accepts, whose ledger append does not raise
and whose event still has a sequence number the store accepts. -/
structure PersistableStep (builtins : Builtins) (agent : Agent) (action : Action) : Prop where
  succeeds : (perform builtins agent action).2 ≠ .ledgerFailed
  call : PersistableCall builtins action.1
  sequence : agent.world.ledger.nextSeq ≤ maxPersistedCounter
  stamp : WellStamped action.2.first

instance (builtins : Builtins) (agent : Agent) (action : Action) :
    Decidable (PersistableStep builtins agent action) :=
  decidable_of_iff
    ((perform builtins agent action).2 ≠ .ledgerFailed ∧ PersistableCall builtins action.1 ∧
      agent.world.ledger.nextSeq ≤ maxPersistedCounter ∧ WellStamped action.2.first)
    ⟨fun ⟨hsucceeds, hcall, hsequence, hstamp⟩ => ⟨hsucceeds, hcall, hsequence, hstamp⟩,
      fun ⟨hsucceeds, hcall, hsequence, hstamp⟩ => ⟨hsucceeds, hcall, hsequence, hstamp⟩⟩

/-- The agent's plan and progress are persistable, and so is every event it
appended to the recorded ones. -/
structure Persistable (builtins : Builtins) (expectedSessionId : Option Text)
    (recorded : List HistoryEvent) (agent : Agent) : Prop where
  named : agent.agentId ≠ []
  plainId : Plain 256 agent.agentId
  identified : Identified expectedSessionId agent.world.ledger
  generation : agent.world.ledger.generation = agent.sessionGeneration
  planRevision : agent.controller.state.revision < agent.world.ledger.nextSeq
  progressRevision : agent.controller.progress.revision < agent.world.ledger.nextSeq
  plan : PersistablePlan agent.controller.state
  progress : PersistableProgress agent.controller.progress
  events : ∃ appended, agent.world.ledger.events = recorded ++ appended ∧
    ∀ event ∈ appended, validateHistoryEventPayload builtins expectedSessionId
      (.obj event.toDict) = .ok ()

theorem Identified.of_append {expectedSessionId : Option Text} {world : History.World}
    (hidentified : Identified expectedSessionId world.ledger) (readings : Readings) (stamp : Stamp)
    (kind : Text) (payload : Dict) (attribution : History.Attribution) :
    Identified expectedSessionId
      (History.append readings stamp world kind payload attribution).1.ledger := by
  obtain ⟨-, hnext, hgeneration, hsession, hagent⟩ :=
    append_records readings stamp world kind payload attribution
  have hpositive := hidentified.nextSeq
  constructor
  · rw [hagent]
    exact hidentified.agent
  · rw [hsession]
    exact hidentified.session
  · rw [hgeneration]
    exact hidentified.generation
  · omega

section Steps

variable {builtins : Builtins} {expectedSessionId : Option Text} {recorded : List HistoryEvent}
  {agent : Agent}

section

variable (hagent : Persistable builtins expectedSessionId recorded agent)
include hagent

/-- Recording a valid event and installing a persistable controller. -/
theorem Persistable.commit
    (readings : Readings) {kind : Text} {payload : Dict} {controller : Controller}
    (hseq : agent.world.ledger.nextSeq ≤ maxPersistedCounter)
    (hstamp : WellStamped readings.first) (hkind : isName (.str kind) = true)
    (hbody : ∀ event, field event "session_generation" = .int agent.sessionGeneration →
      validateEventBody builtins event payload kind = .ok ())
    (hplan : PersistablePlan controller.state) (hprogress : PersistableProgress controller.progress)
    (hplanRevision : controller.state.revision ≤ agent.world.ledger.nextSeq)
    (hprogressRevision : controller.progress.revision ≤ agent.world.ledger.nextSeq) :
    Persistable builtins expectedSessionId recorded { agent with
      world := (History.append readings readings.first agent.world kind payload {}).1
      controller } := by
  obtain ⟨hevents, hnext, hgeneration, -, -⟩ :=
    append_records readings readings.first agent.world kind payload {}
  obtain ⟨appended, happended, hvalid⟩ := hagent.events
  have hgenerated : field (newEvent agent.world.ledger readings.first kind payload {}).toDict
      "session_generation" = .int agent.sessionGeneration := by
    rw [← hagent.generation]
    simp [HistoryEvent.toDict, newEvent, field, lookup]
  have hevent := validateHistoryEventPayload_newEvent hagent.identified hstamp hseq hkind
    (hbody _ hgenerated)
  refine ⟨hagent.named, hagent.plainId, hagent.identified.of_append .., ?_, ?_, ?_, hplan,
    hprogress, appended ++ [newEvent agent.world.ledger readings.first kind payload {}], ?_, ?_⟩
  · exact hgeneration.trans hagent.generation
  · simp only [hnext]
    omega
  · simp only [hnext]
    omega
  · rw [hevents, happended, append_assoc]
  · intro event hmem
    rcases mem_append.mp hmem with hold | hnew
    · exact hvalid event hold
    · rw [mem_singleton.mp hnew]
      exact hevent

theorem Persistable.commitPlan
    (readings : Readings) {explanation : Option Text} {toolCallId : Text}
    (hseq : agent.world.ledger.nextSeq ≤ maxPersistedCounter) (hstamp : WellStamped readings.first)
    (hcall : toolCallId ≠ []) (hitems : WellFormed items) (hencodable : ∀ item ∈ items,
      utf8Encodable item.step = true ∧ utf8Encodable item.activeForm = true)
    (hexplanation : ∀ text ∈ explanation, Plain 500 text) :
    Persistable builtins expectedSessionId recorded
      (PlanController.commitPlan agent readings agent.sessionGeneration items explanation
        toolCallId) := by
  have hrevision := hagent.planRevision
  have hcounted : Counted (agent.controller.state.revision + 1) := by
    have := hagent.plan.revision.1
    exact ⟨by omega, by omega⟩
  apply hagent.commit readings hseq hstamp (by decide)
  · intro event hevent
    exact validateEventBody_planPayload hevent hagent.named hcall hcounted hitems hexplanation
  · have hgeneration : Counted agent.sessionGeneration :=
      hagent.generation ▸ hagent.identified.generation
    exact ⟨hagent.plainId, hgeneration, hcounted, hitems, hencodable,
      plainOrNull_optionalText hexplanation, Or.inr ⟨_, rfl, hstamp.plain_eventId⟩⟩
  · exact hagent.progress
  · change agent.controller.state.revision + 1 ≤ _
    omega
  · exact hagent.progressRevision.le

theorem Persistable.commitProgress
    (readings : Readings) {phase : ProgressPhase} {summary : Text} {next : Option Text}
    {toolCallId : Text} (hseq : agent.world.ledger.nextSeq ≤ maxPersistedCounter)
    (hstamp : WellStamped readings.first) (hcall : toolCallId ≠ []) (hsummary : summary ≠ [])
    (hplain : Plain 500 summary) (hnext : ∀ text ∈ next, Plain 500 text) :
    Persistable builtins expectedSessionId recorded
      (PlanController.commitProgress agent readings agent.sessionGeneration phase summary next
        toolCallId) := by
  have hrevision := hagent.progressRevision
  have hcounted : Counted (agent.controller.progress.revision + 1) := by
    have := hagent.progress.revision.1
    exact ⟨by omega, by omega⟩
  apply hagent.commit readings hseq hstamp (by decide)
  · intro event hevent
    exact validateEventBody_progressPayload hevent hagent.named hcall hcounted hsummary hplain
      hnext
  · exact hagent.plan
  · exact ⟨hplain, hnext, hcounted, Or.inr ⟨_, rfl, hstamp.plain_eventId⟩⟩
  · exact hagent.planRevision.le
  · change agent.controller.progress.revision + 1 ≤ _
    omega

end

/-- A call of the plan tools leaves a control state and events that the store accepts, if its own
texts are texts that the store accepts. -/
theorem step_persistable {action : Action}
    (hagent : Persistable builtins expectedSessionId recorded agent)
    (hstep : PersistableStep builtins agent action) :
    Persistable builtins expectedSessionId recorded (step builtins agent action) := by
  obtain ⟨call, readings⟩ := action
  cases call with
  | update rawItems explanation toolCallId sessionGeneration =>
      obtain ⟨hcall, hencodable, hexplanation⟩ := hstep.call
      change Persistable builtins expectedSessionId recorded
        (update builtins agent readings rawItems explanation toolCallId sessionGeneration).1
      rcases update_cases builtins agent readings rawItems explanation toolCallId
        sessionGeneration with hsame | hfailed | ⟨items, hitems, hcommit⟩
      · rwa [hsame]
      · exact absurd hfailed hstep.succeeds
      · rw [hcommit]
        rw [encodableItems, hitems] at hencodable
        apply hagent.commitPlan readings hstep.sequence hstep.stamp hcall
          (validateItems_wellFormed hitems) _ hexplanation
        intro item hmem
        simpa using all_eq_true.mp hencodable item hmem
  | report phase summary nextStep toolCallId sessionGeneration =>
      obtain ⟨hcall, hplain, hnext⟩ := hstep.call
      change Persistable builtins expectedSessionId recorded
        (report agent readings phase summary nextStep toolCallId sessionGeneration).1
      rcases report_cases agent readings phase summary nextStep toolCallId
        sessionGeneration with hsame | hfailed | ⟨parsed, hsummary, -, hcommit⟩
      · rwa [hsame]
      · exact absurd hfailed hstep.succeeds
      · rw [hcommit]
        exact hagent.commitProgress readings hstep.sequence hstep.stamp hcall hsummary hplain hnext

end Steps

/-- A new controller in a session whose identities the store accepts. -/
structure Started (expectedSessionId : Option Text) (agent : Agent) : Prop where
  controller : agent.controller = freshController agent.agentId agent.sessionGeneration
  named : agent.agentId ≠ []
  plainId : Plain 256 agent.agentId
  identified : Identified expectedSessionId agent.world.ledger
  generation : agent.world.ledger.generation = agent.sessionGeneration

theorem Started.persistable (builtins : Builtins) {expectedSessionId : Option Text} {agent : Agent}
    (hstarted : Started expectedSessionId agent) :
    Persistable builtins expectedSessionId agent.world.ledger.events agent := by
  have hzero : Counted 0 := ⟨le_rfl, by decide⟩
  have hgeneration : Counted agent.sessionGeneration :=
    hstarted.generation ▸ hstarted.identified.generation
  have hplan : PersistablePlan agent.controller.state := by
    rw [hstarted.controller]
    have hempty : WellFormed [] := ⟨by decide, by simp, by decide, by decide⟩
    exact ⟨hstarted.plainId, hgeneration, hzero, hempty, by simp [freshController], Or.inl rfl,
      Or.inl rfl⟩
  have hprogress : PersistableProgress agent.controller.progress := by
    rw [hstarted.controller]
    have hempty : Plain 500 [] := by decide
    exact ⟨hempty, by simp [freshController], hzero, Or.inl rfl⟩
  refine ⟨hstarted.named, hstarted.plainId, hstarted.identified, hstarted.generation, ?_, ?_, hplan,
    hprogress, [], by simp, by simp⟩
  · rw [hstarted.controller]
    exact hstarted.identified.nextSeq
  · rw [hstarted.controller]
    exact hstarted.identified.nextSeq

/-- After every run of control calls whose texts the store accepts, the runtime
state and every appended event pass the store's validation, for any other
runtime fields that pass it and leave room for the control state. -/
theorem run_control_persistable (builtins : Builtins) (expectedSessionId : Option Text)
    (start : Agent) (base : SessionRuntimeState) (hstarted : Started expectedSessionId start)
    (hbase : validateRuntimeStatePayload builtins (.obj base.withoutControl.toDict) = .ok ())
    (hroom : (dumps compact (.obj base.withoutControl.toDict)).length + controlStateChars ≤
      maxRuntimeStateChars)
    (actions : List Action)
    (hmeets : Meets (step builtins) (PersistableStep builtins) start actions) :
    let live := actions.foldl (step builtins) start
    validateRuntimeStatePayload builtins
        (.obj (buildSessionRuntimeState base live.controller).toDict) = .ok () ∧
      ∃ appended, live.world.ledger.events = start.world.ledger.events ++ appended ∧
        ∀ event ∈ appended, validateHistoryEventPayload builtins expectedSessionId
          (.obj event.toDict) = .ok () := by
  intro live
  have hlive : Persistable builtins expectedSessionId start.world.ledger.events live :=
    invariant_foldl (Persistable builtins expectedSessionId start.world.ledger.events)
      (fun _ _ => step_persistable) (hstarted.persistable builtins) hmeets
  exact ⟨validateRuntimeStatePayload_build hlive.plan hlive.progress hbase hroom, hlive.events⟩

theorem zeroFraction_isFloat : ([0] : List (Fin 10)) ≠ [] ∨
    (none : Option (Bool × Fin 10 × List (Fin 10))) ≠ none :=
  Or.inl (by simp)

def stampedAt (seconds : ℕ) : Readings where
  first := {
    uuid := lit "0123456789ab"
    time := .finite ⟨false, seconds, [0], none, zeroFraction_isFloat⟩ }

theorem started_newAgent (agentId : Text) (hnamed : agentId ≠ []) (hplain : Plain 256 agentId) :
    Started none (newAgent agentId) := by
  have hzero : Counted 0 := ⟨le_rfl, by decide⟩
  refine ⟨rfl, hnamed, hplain, ⟨?_, ?_, hzero, Int.one_pos⟩, rfl⟩
  · rintro id ⟨⟩
    exact ⟨hnamed, hplain.bounded⟩
  · rintro id ⟨⟩

/-- A plan and a report with padded texts: the store accepts both. -/
theorem run_control_persistable_update_report :
    let actions : List Action :=
      [(.update singleStep (some (lit " first steps ")) (lit "call-1") 0, stampedAt 1),
        (.report (lit "implementing") (lit " parsing ") none (lit "call-2") 0, stampedAt 2)]
    let live := actions.foldl (step plainBuiltins) (newAgent (lit "main"))
    live.world.ledger.events.length = 2 ∧
      validateRuntimeStatePayload plainBuiltins
          (.obj (buildSessionRuntimeState {} live.controller).toDict) = .ok () ∧
        ∃ appended, live.world.ledger.events = [] ++ appended ∧
          ∀ event ∈ appended, validateHistoryEventPayload plainBuiltins none
            (.obj event.toDict) = .ok () := by
  intro actions live
  have hstarted := started_newAgent (lit "main") (by decide) (by decide)
  exact ⟨by decide +kernel, run_control_persistable plainBuiltins none _ {} hstarted
    (by decide +kernel) (by decide +kernel) actions (by decide +kernel)⟩

/-- An explanation with a line break is accepted by the controller; the store
refuses its event and the runtime state. -/
theorem update_line_break_not_persistable :
    let update : Action :=
      (.update singleStep (some (lit "first\nsecond")) (lit "call-1") 0, stampedAt 1)
    let live := step plainBuiltins (newAgent (lit "main")) update
    (perform plainBuiltins (newAgent (lit "main")) update).2 = .plan live.controller.state true ∧
      (live.world.ledger.events.map fun event =>
          (validateHistoryEventPayload plainBuiltins none (.obj event.toDict)).toOption) =
        [none] ∧
      (validateRuntimeStatePayload plainBuiltins
        (.obj (buildSessionRuntimeState {} live.controller).toDict)).toOption = none := by
  decide +kernel

end ReuleauxCoder.Persistence
