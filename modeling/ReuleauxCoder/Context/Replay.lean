import ReuleauxCoder.Context.Canonical

/-!
# Replay envelopes

An envelope stores the canonical form of what a request was made of, with two
hashes taken over the values before they were canonicalized.  `validate` rebuilds
the envelope from the stored values and compares the hashes, so it canonicalizes
values that are canonical already.
-/

namespace ReuleauxCoder.Context

open PyText PyJson

/-- A list of dictionaries as one value. -/
def dicts (values : List Dict) : Json :=
  .arr (values.map .obj)

/-- `value or {}`. -/
def orEmpty (value : Json) : Json :=
  if value.truthy then value else .obj []

def canonicalDict (normalizer : Normalizer) (fields : Dict) : Dict :=
  (rewriteFields normalizer.canonicalText fields).insertionSort byKey

/-- The arguments of `ReplayEnvelope.create`, with `None` as JSON's `null`. -/
structure ReplayInput where
  sessionId : Json := .null
  cacheEpoch : ℤ := 0
  historyVersion : ℤ := 0
  modelProfile : Text
  providerFamily : Text
  requestMode : Text
  requestSettings : Json := .null
  instructions : List Dict := []
  tools : List Dict := []
  items : List Dict := []
  itemProvenance : Option (List Dict) := none
  deriving DecidableEq

/-- `list(item_provenance or ({} for _ in items))`. -/
def ReplayInput.provenance (input : ReplayInput) : List Dict :=
  match input.itemProvenance with
  | none | some [] => input.items.map fun _ => []
  | some provenance => provenance

def ReplayInput.settings (input : ReplayInput) (normalizer : Normalizer) : Json :=
  canonicalize normalizer (orEmpty input.requestSettings)

/-- The dictionary behind `stable_prefix_hash`. -/
def ReplayInput.stable (input : ReplayInput) (normalizer : Normalizer) : Dict :=
  [(lit "model_profile", .str input.modelProfile),
    (lit "provider_family", .str input.providerFamily),
    (lit "request_mode", .str input.requestMode),
    (lit "request_settings", input.settings normalizer),
    (lit "instructions", dicts input.instructions), (lit "tools", dicts input.tools),
    (lit "items", dicts input.items)]

/-- The dictionary behind `canonical_payload_hash`. -/
def ReplayInput.core (input : ReplayInput) (normalizer : Normalizer) : Dict :=
  [(lit "schema_version", .int 3), (lit "session_id", input.sessionId),
    (lit "cache_epoch", .int input.cacheEpoch),
    (lit "history_version", .int input.historyVersion),
    (lit "model_profile", .str input.modelProfile),
    (lit "provider_family", .str input.providerFamily),
    (lit "request_mode", .str input.requestMode),
    (lit "request_settings", input.settings normalizer),
    (lit "instructions", dicts input.instructions), (lit "tools", dicts input.tools),
    (lit "items", dicts input.items), (lit "item_provenance", dicts input.provenance)]

structure ReplayEnvelope where
  schemaVersion : ℤ
  sessionId : Json
  viewId : Text
  cacheEpoch : ℤ
  historyVersion : ℤ
  modelProfile : Text
  providerFamily : Text
  requestMode : Text
  requestSettings : Json
  instructions : List Dict
  tools : List Dict
  items : List Dict
  itemProvenance : List Dict
  stablePrefixHash : Text
  canonicalPayloadHash : Text
  deriving DecidableEq

namespace ReplayEnvelope

section

variable (normalizer : Normalizer) (hash : Text → Text)

/-- `none` when provenance is misaligned or a hash raises. -/
def create (uuid : Text) (input : ReplayInput) : Option ReplayEnvelope :=
  if input.provenance.length ≠ input.items.length then none
  else do
    let stable ← contentHash normalizer hash (.obj (input.stable normalizer))
    let payload ← contentHash normalizer hash (.obj (input.core normalizer))
    return {
      schemaVersion := 3
      sessionId := input.sessionId
      viewId := lit "rv_" ++ uuid.take 12
      cacheEpoch := input.cacheEpoch
      historyVersion := input.historyVersion
      modelProfile := input.modelProfile
      providerFamily := input.providerFamily
      requestMode := input.requestMode
      requestSettings := input.settings normalizer
      instructions := input.instructions.map (canonicalDict normalizer)
      tools := input.tools.map (canonicalDict normalizer)
      items := input.items.map (canonicalDict normalizer)
      itemProvenance := input.provenance.map (canonicalDict normalizer)
      stablePrefixHash := stable
      canonicalPayloadHash := payload }

/-- `to_dict`, with tuples as the arrays JSON makes of them. -/
def toDict (envelope : ReplayEnvelope) : Dict :=
  [(lit "schema_version", .int envelope.schemaVersion),
    (lit "session_id", envelope.sessionId), (lit "view_id", .str envelope.viewId),
    (lit "cache_epoch", .int envelope.cacheEpoch),
    (lit "history_version", .int envelope.historyVersion),
    (lit "model_profile", .str envelope.modelProfile),
    (lit "provider_family", .str envelope.providerFamily),
    (lit "request_mode", .str envelope.requestMode),
    (lit "request_settings", envelope.requestSettings),
    (lit "instructions", dicts envelope.instructions), (lit "tools", dicts envelope.tools),
    (lit "items", dicts envelope.items),
    (lit "item_provenance", dicts envelope.itemProvenance),
    (lit "stable_prefix_hash", .str envelope.stablePrefixHash),
    (lit "canonical_payload_hash", .str envelope.canonicalPayloadHash)]

/-- `dict(value)`; what the constructor makes of other values is a parameter. -/
def dictOf (others : Json → Option Dict) : Json → Option Dict
  | .obj fields => some fields
  | other => others other

/-- `tuple(dict(item) for item in data.get(key, []))`. -/
def dictsOf (others : Json → Option Dict) (data : Dict) (key : String) : Option (List Dict) := do
  let items ← listOf ((lookup (lit key) data).getD (.arr []))
  items.mapM (dictOf others)

def fromDict (builtins : Builtins) (others : Json → Option Dict) (data : Dict) :
    Option ReplayEnvelope := do
  let schemaVersion ← builtins.toInt ((lookup (lit "schema_version") data).getD (.int 1))
  let cacheEpoch ← builtins.toInt ((lookup (lit "cache_epoch") data).getD (.int 0))
  let historyVersion ← builtins.toInt ((lookup (lit "history_version") data).getD (.int 0))
  let instructions ← dictsOf others data "instructions"
  let tools ← dictsOf others data "tools"
  let items ← dictsOf others data "items"
  let itemProvenance ← dictsOf others data "item_provenance"
  return {
    schemaVersion
    sessionId := field data "session_id"
    viewId := builtins.strOr (field data "view_id") (lit "legacy")
    cacheEpoch
    historyVersion
    modelProfile := builtins.strOr (field data "model_profile") (lit "unknown")
    providerFamily := builtins.strOr (field data "provider_family") (lit "openai-compatible")
    requestMode := builtins.strOr (field data "request_mode") (lit "chat-completions")
    requestSettings := canonicalize normalizer (orEmpty (field data "request_settings"))
    instructions
    tools
    items
    itemProvenance
    stablePrefixHash := builtins.strOr (field data "stable_prefix_hash") []
    canonicalPayloadHash := builtins.strOr (field data "canonical_payload_hash") [] }

/-- `content_hash(left) == stable and content_hash(right) == payload`. -/
def hashesMatch (stable core : Dict) (envelope : ReplayEnvelope) : Option Bool := do
  let stableHash ← contentHash normalizer hash (.obj stable)
  if stableHash ≠ envelope.stablePrefixHash then return false
  let coreHash ← contentHash normalizer hash (.obj core)
  return coreHash = envelope.canonicalPayloadHash

/-- The stable prefix of a version 1 or 2 envelope. -/
def legacyStable (envelope : ReplayEnvelope) : Dict :=
  [(lit "model_profile", .str envelope.modelProfile),
    (lit "provider_family", .str envelope.providerFamily),
    (lit "request_mode", .str envelope.requestMode)] ++
  (if envelope.schemaVersion = 2 then [(lit "request_settings", envelope.requestSettings)]
    else []) ++
  [(lit "instructions", dicts envelope.instructions), (lit "tools", dicts envelope.tools),
    (lit "items", dicts envelope.items)]

def legacyCore (version : ℤ) (envelope : ReplayEnvelope) : Dict :=
  [(lit "schema_version", .int version), (lit "session_id", envelope.sessionId),
    (lit "cache_epoch", .int envelope.cacheEpoch),
    (lit "history_version", .int envelope.historyVersion)] ++ legacyStable envelope

/-- The arguments `validate` rebuilds the envelope from. -/
def input (envelope : ReplayEnvelope) : ReplayInput where
  sessionId := envelope.sessionId
  cacheEpoch := envelope.cacheEpoch
  historyVersion := envelope.historyVersion
  modelProfile := envelope.modelProfile
  providerFamily := envelope.providerFamily
  requestMode := envelope.requestMode
  requestSettings := envelope.requestSettings
  instructions := envelope.instructions
  tools := envelope.tools
  items := envelope.items
  itemProvenance := some envelope.itemProvenance

/-- `validate`; `none` when a hash raises. -/
def validate (envelope : ReplayEnvelope) : Option Bool :=
  if envelope.schemaVersion < 2 then
    hashesMatch normalizer hash (legacyStable envelope) (legacyCore 1 envelope) envelope
  else if envelope.schemaVersion = 2 then
    hashesMatch normalizer hash (legacyStable envelope) (legacyCore 2 envelope) envelope
  else if envelope.itemProvenance.length ≠ envelope.items.length then some false
  else do
    let rebuilt ← create normalizer hash [] envelope.input
    return rebuilt.stablePrefixHash = envelope.stablePrefixHash &&
      rebuilt.canonicalPayloadHash = envelope.canonicalPayloadHash

/-- Writing an envelope as JSON text and reading it back. -/
def reread (layout : Layout) (builtins : Builtins) (others : Json → Option Dict)
    (envelope : ReplayEnvelope) : Option ReplayEnvelope :=
  match loads (dumps layout (.obj envelope.toDict)) with
  | some (.obj data) => fromDict normalizer builtins others data
  | _ => none

end

/-! ## The canonical forms -/

theorem canonicalize_obj (normalizer : Normalizer) (fields : Dict) :
    canonicalize normalizer (.obj fields) = .obj (canonicalDict normalizer fields) := by
  rw [canonicalize, rewrite, canonicalDict]

theorem dicts_map_canonicalDict (normalizer : Normalizer) (values : List Dict) :
    dicts (values.map (canonicalDict normalizer)) = canonicalize normalizer (dicts values) := by
  have hobj : Json.obj ∘ canonicalDict normalizer = canonicalize normalizer ∘ Json.obj := by
    funext fields
    exact (canonicalize_obj normalizer fields).symm
  rw [dicts, dicts, List.map_map, hobj, ← List.map_map, canonicalize, rewrite,
    rewriteItems_eq_map]
  rfl

/-- What one more round leaves alone: no string has two carriage returns before a
line feed. -/
theorem canonicalize_twice_eq_iff (normalizer : Normalizer) (value : Json) :
    canonicalize normalizer (canonicalize normalizer value) = canonicalize normalizer value ↔
      ∀ text ∈ strings value, ¬ returnsThenFeed 2 <:+: text := by
  rw [canonicalize, canonicalize, rewrite_rewrite, rewrite_eq_iff]
  apply forall₂_congr
  intro text _
  exact normalizer.iterate_canonicalText_eq_iff Nat.one_pos Nat.one_pos text

/-- What two more rounds after two leave alone. -/
theorem canonicalize_four_eq_iff (normalizer : Normalizer) (value : Json) :
    (canonicalize normalizer)^[4] value = (canonicalize normalizer)^[2] value ↔
      ∀ text ∈ strings value, ¬ returnsThenFeed 3 <:+: text := by
  have hfour := rewrite_iterate normalizer.canonicalText 3 value
  have htwo := rewrite_iterate normalizer.canonicalText 1 value
  change (rewrite normalizer.canonicalText)^[4] value =
    (rewrite normalizer.canonicalText)^[2] value ↔ _
  rw [Function.iterate_succ_apply, hfour, Function.iterate_succ_apply, htwo, rewrite_eq_iff]
  apply forall₂_congr
  intro text _
  exact normalizer.iterate_canonicalText_eq_iff Nat.two_pos Nat.two_pos text

theorem replaceCrlf_ne_nil {text : Text} (hne : text ≠ []) : replaceCrlf text ≠ [] := by
  match text with
  | [] => exact hne
  | [_] => simp [replaceCrlf]
  | _ :: _ :: _ =>
      rw [replaceCrlf]
      split <;> simp

theorem canonicalText_ne_nil (normalizer : Normalizer) {text : Text} (hne : text ≠ []) :
    normalizer.canonicalText text ≠ [] :=
  normalizer.ne_nil _ (replaceCrlf_ne_nil hne)

/-- A canonical value that is false is the empty object already. -/
theorem orEmpty_canonicalize (normalizer : Normalizer) (value : Json) :
    orEmpty (canonicalize normalizer (orEmpty value)) = canonicalize normalizer (orEmpty value) := by
  rw [orEmpty]
  split
  · rfl
  · rename_i hfalse
    by_cases htruthy : value.truthy = true
    · rw [orEmpty, if_pos htruthy] at hfalse ⊢
      match value with
      | .null => cases htruthy
      | .bool _ | .int _ | .float _ => exact absurd htruthy hfalse
      | .str text =>
          simp only [Json.truthy, decide_eq_true_eq] at htruthy
          simp [canonicalize, rewrite, Json.truthy, canonicalText_ne_nil normalizer htruthy]
            at hfalse
      | .arr [] => cases htruthy
      | .arr (item :: rest) => simp [canonicalize, rewrite, rewriteItems, Json.truthy] at hfalse
      | .obj fields =>
          rw [canonicalize_obj] at hfalse ⊢
          simp only [Json.truthy, decide_eq_true_eq, not_not] at hfalse
          rw [hfalse]
    · rw [orEmpty, if_neg htruthy]
      rfl

theorem strings_orEmpty {value : Json} {count : ℕ} :
    (∀ text ∈ strings (orEmpty value), ¬ returnsThenFeed count <:+: text) ↔
      ∀ text ∈ strings value, ¬ returnsThenFeed count <:+: text := by
  rw [orEmpty]
  split
  · rfl
  · rename_i hfalse
    match value with
    | .null | .bool _ | .int _ | .float _ => simp [strings, stringsOfFields]
    | .str [] =>
        simp [strings, stringsOfFields, returnsThenFeed]
    | .str (c :: rest) => simp [Json.truthy] at hfalse
    | .arr [] => simp [strings, stringsOfFields, stringsOfItems]
    | .arr (item :: rest) => simp [Json.truthy] at hfalse
    | .obj [] => simp [strings, stringsOfFields]
    | .obj (field :: rest) => simp [Json.truthy] at hfalse

/-- The values two inputs put under the keys of the payload. -/
def paired (normalizer : Normalizer) (left right : ReplayInput) : List (Text × Json × Json) :=
  [(lit "schema_version", .int 3, .int 3), (lit "session_id", left.sessionId, right.sessionId),
    (lit "cache_epoch", .int left.cacheEpoch, .int right.cacheEpoch),
    (lit "history_version", .int left.historyVersion, .int right.historyVersion),
    (lit "model_profile", .str left.modelProfile, .str right.modelProfile),
    (lit "provider_family", .str left.providerFamily, .str right.providerFamily),
    (lit "request_mode", .str left.requestMode, .str right.requestMode),
    (lit "request_settings", left.settings normalizer, right.settings normalizer),
    (lit "instructions", dicts left.instructions, dicts right.instructions),
    (lit "tools", dicts left.tools, dicts right.tools),
    (lit "items", dicts left.items, dicts right.items),
    (lit "item_provenance", dicts left.provenance, dicts right.provenance)]

theorem canonicalize_core_eq_iff (normalizer : Normalizer) (left right : ReplayInput) :
    canonicalize normalizer (.obj (left.core normalizer)) =
        canonicalize normalizer (.obj (right.core normalizer)) ↔
      ∀ entry ∈ paired normalizer left right,
        canonicalize normalizer entry.2.1 = canonicalize normalizer entry.2.2 := by
  have hkeys : tokenCountKey ∉ (paired normalizer left right).map Prod.fst := by
    simp [paired, tokenCountKey]
  exact canonicalize_obj_eq_iff normalizer hkeys

/-- The stable prefix has some of the keys of the payload. -/
theorem canonicalize_stable_eq (normalizer : Normalizer) {left right : ReplayInput}
    (hcore : canonicalize normalizer (.obj (left.core normalizer)) =
      canonicalize normalizer (.obj (right.core normalizer))) :
    canonicalize normalizer (.obj (left.stable normalizer)) =
      canonicalize normalizer (.obj (right.stable normalizer)) := by
  have hentries := (canonicalize_core_eq_iff normalizer left right).mp hcore
  have hkeys : tokenCountKey ∉ (((paired normalizer left right).drop 4).take 7).map Prod.fst := by
    simp [paired, tokenCountKey]
  apply (canonicalize_obj_eq_iff normalizer hkeys).mpr
  intro entry hentry
  exact hentries entry (List.mem_of_mem_drop (List.mem_of_mem_take hentry))

end ReplayEnvelope

/-! ## Reading an envelope back -/

/-- `value or default` for a string. -/
def orDefault (value : Text) (default : String) : Text :=
  if value = [] then lit default else value

/-- The input that `validate` rebuilds from after an envelope was read back. -/
def ReplayInput.reread (input : ReplayInput) (normalizer : Normalizer) : ReplayInput where
  sessionId := input.sessionId
  cacheEpoch := input.cacheEpoch
  historyVersion := input.historyVersion
  modelProfile := orDefault input.modelProfile "unknown"
  providerFamily := orDefault input.providerFamily "openai-compatible"
  requestMode := orDefault input.requestMode "chat-completions"
  requestSettings := canonicalize normalizer (orEmpty (input.settings normalizer))
  instructions := input.instructions.map (canonicalDict normalizer)
  tools := input.tools.map (canonicalDict normalizer)
  items := input.items.map (canonicalDict normalizer)
  itemProvenance := some (input.provenance.map (canonicalDict normalizer))

/-- What being canonicalized again leaves alone. -/
structure ReplayInput.Rereadable (input : ReplayInput) : Prop where
  modelProfile : input.modelProfile ≠ []
  providerFamily : input.providerFamily ≠ []
  requestMode : input.requestMode ≠ []
  settings : ∀ text ∈ strings input.requestSettings, ¬ lit "\r\r\r\n" <:+: text
  contents : ∀ value ∈ [dicts input.instructions, dicts input.tools, dicts input.items,
    dicts input.provenance], ∀ text ∈ strings value, ¬ lit "\r\r\n" <:+: text

namespace ReplayEnvelope

theorem canonicalText_orDefault_iff (normalizer : Normalizer) (value : Text) {default : String}
    (hne : lit default ≠ []) (hascii : (lit default).all (fun c => c.val < 0x80) = true)
    (hplain : replaceCrlf (lit default) = lit default) :
    normalizer.canonicalText (orDefault value default) = normalizer.canonicalText value ↔
      value ≠ [] := by
  rw [orDefault]
  split
  · rename_i hvalue
    subst hvalue
    have hempty : normalizer.canonicalText [] = [] := normalizer.normalize_nil
    have hdefault : normalizer.canonicalText (lit default) = lit default := by
      rw [Normalizer.canonicalText, hplain]
      apply normalizer.ascii
      simpa using hascii
    rw [hempty, hdefault]
    simp [hne]
  · rename_i hvalue
    simp [hvalue]

theorem settings_reread (normalizer : Normalizer) (input : ReplayInput) :
    canonicalize normalizer ((input.reread normalizer).settings normalizer) =
        canonicalize normalizer (input.settings normalizer) ↔
      ∀ text ∈ strings input.requestSettings, ¬ lit "\r\r\r\n" <:+: text := by
  have hfour := canonicalize_four_eq_iff normalizer (orEmpty input.requestSettings)
  rw [strings_orEmpty] at hfour
  have hsettings : (input.reread normalizer).settings normalizer =
      canonicalize normalizer (canonicalize normalizer (input.settings normalizer)) := by
    rw [ReplayInput.settings, ReplayInput.reread, ReplayInput.settings, orEmpty_canonicalize,
      orEmpty_canonicalize]
  rw [hsettings]
  exact hfour

variable {input : ReplayInput}

theorem provenance_reread (normalizer : Normalizer)
    (haligned : input.provenance.length = input.items.length) :
    (input.reread normalizer).provenance =
      input.provenance.map (canonicalDict normalizer) := by
  rw [ReplayInput.provenance]
  cases hprovenance : input.provenance with
  | nil =>
      have hitems : input.items = [] := by
        rw [hprovenance] at haligned
        exact List.eq_nil_of_length_eq_zero haligned.symm
      simp [ReplayInput.reread, hprovenance, hitems]
  | cons first rest => simp [ReplayInput.reread, hprovenance]

theorem canonicalize_dicts_reread (normalizer : Normalizer) (values : List Dict) :
    canonicalize normalizer (dicts (values.map (canonicalDict normalizer))) =
        canonicalize normalizer (dicts values) ↔
      ∀ text ∈ strings (dicts values), ¬ lit "\r\r\n" <:+: text := by
  rw [dicts_map_canonicalDict]
  exact canonicalize_twice_eq_iff normalizer (dicts values)

/-- The payload keeps its canonical form exactly for rereadable inputs. -/
theorem canonicalize_core_reread (normalizer : Normalizer)
    (haligned : input.provenance.length = input.items.length) :
    canonicalize normalizer (.obj ((input.reread normalizer).core normalizer)) =
        canonicalize normalizer (.obj (input.core normalizer)) ↔ input.Rereadable := by
  have hprofile : ∀ left right : Text, canonicalize normalizer (.str left) =
      canonicalize normalizer (.str right) ↔
        normalizer.canonicalText left = normalizer.canonicalText right := by
    intro left right
    rw [canonicalize, canonicalize, rewrite, rewrite, Json.str.injEq]
  rw [canonicalize_core_eq_iff]
  simp only [paired, List.forall_mem_cons, List.not_mem_nil, false_implies, implies_true, and_true,
    hprofile, settings_reread, provenance_reread normalizer haligned]
  rw [ReplayInput.reread]
  simp only [true_and, canonicalize_dicts_reread]
  rw [canonicalText_orDefault_iff normalizer _ (by decide) (by decide) (by decide),
    canonicalText_orDefault_iff normalizer _ (by decide) (by decide) (by decide),
    canonicalText_orDefault_iff normalizer _ (by decide) (by decide) (by decide)]
  constructor
  · rintro ⟨hmodel, hfamily, hmode, hsettings, hinstructions, htools, hitems, horigin⟩
    refine ⟨hmodel, hfamily, hmode, hsettings, ?_⟩
    simp only [List.forall_mem_cons, List.not_mem_nil, false_implies, implies_true, and_true]
    exact ⟨hinstructions, htools, hitems, horigin⟩
  · rintro ⟨hmodel, hfamily, hmode, hsettings, hcontents⟩
    simp only [List.forall_mem_cons, List.not_mem_nil, false_implies, implies_true,
      and_true] at hcontents
    obtain ⟨hinstructions, htools, hitems, horigin⟩ := hcontents
    exact ⟨hmodel, hfamily, hmode, hsettings, hinstructions, htools, hitems, horigin⟩

/-! ## Whole round trips -/

/-- What `create` checks: aligned provenance, and texts that UTF-8 can encode. -/
structure Accepted (normalizer : Normalizer) (input : ReplayInput) : Prop where
  aligned : input.provenance.length = input.items.length
  stable : utf8Encodable (canonicalJson normalizer (.obj (input.stable normalizer))) = true
  core : utf8Encodable (canonicalJson normalizer (.obj (input.core normalizer))) = true

/-- The envelope that `create` returns. -/
def created (normalizer : Normalizer) (hash : Text → Text) (uuid : Text) (input : ReplayInput) :
    ReplayEnvelope where
  schemaVersion := 3
  sessionId := input.sessionId
  viewId := lit "rv_" ++ uuid.take 12
  cacheEpoch := input.cacheEpoch
  historyVersion := input.historyVersion
  modelProfile := input.modelProfile
  providerFamily := input.providerFamily
  requestMode := input.requestMode
  requestSettings := input.settings normalizer
  instructions := input.instructions.map (canonicalDict normalizer)
  tools := input.tools.map (canonicalDict normalizer)
  items := input.items.map (canonicalDict normalizer)
  itemProvenance := input.provenance.map (canonicalDict normalizer)
  stablePrefixHash := hash (canonicalJson normalizer (.obj (input.stable normalizer)))
  canonicalPayloadHash := hash (canonicalJson normalizer (.obj (input.core normalizer)))

theorem create_eq_some_iff {normalizer : Normalizer} {hash : Text → Text} {uuid : Text}
    {envelope : ReplayEnvelope} :
    create normalizer hash uuid input = some envelope ↔
      Accepted normalizer input ∧ envelope = created normalizer hash uuid input := by
  rw [create]
  constructor
  · intro hcreate
    split at hcreate
    · cases hcreate
    · rename_i haligned
      simp only [contentHash] at hcreate
      split at hcreate
      · rename_i hstable
        split at hcreate
        · rename_i hcore
          cases hcreate
          exact ⟨⟨not_not.mp haligned, hstable, hcore⟩, rfl⟩
        · cases hcreate
      · cases hcreate
  · rintro ⟨haccepted, rfl⟩
    rw [if_neg (not_not.mpr haccepted.aligned)]
    simp only [contentHash, if_pos haccepted.stable, if_pos haccepted.core]
    rfl

/-- The envelope that is read back. -/
def rereadEnvelope (normalizer : Normalizer) (hash : Text → Text) (uuid : Text)
    (input : ReplayInput) : ReplayEnvelope :=
  let again := input.reread normalizer
  { created normalizer hash uuid input with
    modelProfile := again.modelProfile
    providerFamily := again.providerFamily
    requestMode := again.requestMode
    requestSettings := again.requestSettings }

theorem mapM_dictOf (others : Json → Option Dict) (values : List Dict) :
    (values.map Json.obj).mapM (dictOf others) = some values := by
  induction values with
  | nil => rfl
  | cons first rest ih => simp [dictOf, ih]

theorem dictsOf_eq {others : Json → Option Dict} {data : Dict} {key : String}
    {values : List Dict} (hlookup : lookup (lit key) data = some (dicts values)) :
    dictsOf others data key = some values := by
  rw [dictsOf, hlookup]
  exact mapM_dictOf others values

theorem strOr_str (builtins : Builtins) (value : Text) (default : String) :
    builtins.strOr (.str value) (lit default) = orDefault value default := rfl

theorem strOr_nil (builtins : Builtins) (value : Text) :
    builtins.strOr (.str value) [] = value := by
  rw [Builtins.strOr]
  split
  · rename_i hempty
    exact hempty.symm
  · rfl

theorem fromDict_toDict_created (normalizer : Normalizer) (builtins : Builtins)
    (others : Json → Option Dict) (hash : Text → Text) (uuid : Text) (input : ReplayInput) :
    fromDict normalizer builtins others (created normalizer hash uuid input).toDict =
      some (rereadEnvelope normalizer hash uuid input) := by
  have hview : ∀ rest : Text, orDefault (lit "rv_" ++ rest) "legacy" = lit "rv_" ++ rest := by
    intro rest
    rw [orDefault, if_neg]
    simp [lit]
  have hdicts : ∀ (key : String) (values : List Dict),
      lookup (lit key) (created normalizer hash uuid input).toDict = some (dicts values) →
      dictsOf others (created normalizer hash uuid input).toDict key = some values :=
    fun _ _ hlookup => dictsOf_eq hlookup
  rw [fromDict,
    hdicts "instructions" (input.instructions.map (canonicalDict normalizer))
      (by simp [toDict, lookup, created]),
    hdicts "tools" (input.tools.map (canonicalDict normalizer)) (by simp [toDict, lookup, created]),
    hdicts "items" (input.items.map (canonicalDict normalizer)) (by simp [toDict, lookup, created]),
    hdicts "item_provenance" (input.provenance.map (canonicalDict normalizer))
      (by simp [toDict, lookup, created])]
  simp [toDict, created, field, lookup, Builtins.toInt, strOr_str, strOr_nil, hview,
    rereadEnvelope, ReplayInput.reread]

/-- Every dictionary of the input has distinct keys, as Python's have. -/
structure Keyed (input : ReplayInput) : Prop where
  sessionId : input.sessionId.WellKeyed
  requestSettings : input.requestSettings.WellKeyed
  instructions : (dicts input.instructions).WellKeyed
  tools : (dicts input.tools).WellKeyed
  items : (dicts input.items).WellKeyed
  provenance : (dicts input.provenance).WellKeyed

theorem wellKeyed_orEmpty {value : Json} (hkeyed : value.WellKeyed) : (orEmpty value).WellKeyed := by
  rw [orEmpty]
  split
  · exact hkeyed
  · exact ⟨List.nodup_nil, trivial⟩

theorem Keyed.settings (hkeyed : Keyed input) (normalizer : Normalizer) :
    (input.settings normalizer).WellKeyed :=
  wellKeyed_rewrite _ (wellKeyed_orEmpty hkeyed.requestSettings)

theorem Keyed.core (hkeyed : Keyed input) (normalizer : Normalizer) :
    (Json.obj (input.core normalizer)).WellKeyed := by
  refine ⟨by simp [ReplayInput.core], ?_⟩
  simp only [ReplayInput.core, Json.WellKeyedFields, Json.WellKeyed, true_and, and_true]
  exact ⟨hkeyed.sessionId, hkeyed.settings normalizer, hkeyed.instructions, hkeyed.tools,
    hkeyed.items, hkeyed.provenance⟩

theorem Keyed.toDict (hkeyed : Keyed input) (normalizer : Normalizer) (hash : Text → Text)
    (uuid : Text) : (Json.obj (created normalizer hash uuid input).toDict).WellKeyed := by
  refine ⟨by simp [ReplayEnvelope.toDict], ?_⟩
  simp only [ReplayEnvelope.toDict, created, dicts_map_canonicalDict, Json.WellKeyedFields,
    Json.WellKeyed, true_and, and_true]
  exact ⟨hkeyed.sessionId, hkeyed.settings normalizer, wellKeyed_rewrite _ hkeyed.instructions,
    wellKeyed_rewrite _ hkeyed.tools, wellKeyed_rewrite _ hkeyed.items,
    wellKeyed_rewrite _ hkeyed.provenance⟩

theorem Keyed.reread (hkeyed : Keyed input) (normalizer : Normalizer)
    (haligned : input.provenance.length = input.items.length) :
    Keyed (input.reread normalizer) := by
  constructor
  · exact hkeyed.sessionId
  · exact wellKeyed_rewrite _ (wellKeyed_orEmpty (hkeyed.settings normalizer))
  · rw [ReplayInput.reread, dicts_map_canonicalDict]
    exact wellKeyed_rewrite _ hkeyed.instructions
  · rw [ReplayInput.reread, dicts_map_canonicalDict]
    exact wellKeyed_rewrite _ hkeyed.tools
  · rw [ReplayInput.reread, dicts_map_canonicalDict]
    exact wellKeyed_rewrite _ hkeyed.items
  · rw [provenance_reread normalizer haligned, dicts_map_canonicalDict]
    exact wellKeyed_rewrite _ hkeyed.provenance

theorem reread_created (normalizer : Normalizer) {layout : Layout} (hblank : layout.Blank)
    (builtins : Builtins) (others : Json → Option Dict) (hash : Text → Text) (uuid : Text)
    (hkeyed : Keyed input) :
    reread normalizer layout builtins others (created normalizer hash uuid input) =
      some (rereadEnvelope normalizer hash uuid input) := by
  rw [reread, loads_dumps hblank (hkeyed.toDict normalizer hash uuid)]
  exact fromDict_toDict_created normalizer builtins others hash uuid input

/-- `validate` of a reread envelope compares the two canonical texts. -/
theorem validate_rereadEnvelope_iff (normalizer : Normalizer) (hash : Text → Text) (uuid : Text)
    (haligned : input.provenance.length = input.items.length) :
    validate normalizer hash (rereadEnvelope normalizer hash uuid input) = some true ↔
      Accepted normalizer (input.reread normalizer) ∧
      hash (canonicalJson normalizer (.obj ((input.reread normalizer).stable normalizer))) =
        hash (canonicalJson normalizer (.obj (input.stable normalizer))) ∧
      hash (canonicalJson normalizer (.obj ((input.reread normalizer).core normalizer))) =
        hash (canonicalJson normalizer (.obj (input.core normalizer))) := by
  have hversion : ¬ (rereadEnvelope normalizer hash uuid input).schemaVersion < 2 := by
    change ¬ (3 : ℤ) < 2
    decide
  have hnewer : ¬ (rereadEnvelope normalizer hash uuid input).schemaVersion = 2 := by
    change ¬ (3 : ℤ) = 2
    decide
  have hlength : ¬ (rereadEnvelope normalizer hash uuid input).itemProvenance.length ≠
      (rereadEnvelope normalizer hash uuid input).items.length := by
    simp [rereadEnvelope, created, haligned]
  rw [validate, if_neg hversion, if_neg hnewer, if_neg hlength]
  cases hcreate : create normalizer hash [] (rereadEnvelope normalizer hash uuid input).input with
  | none =>
      constructor
      · intro hvalid
        cases hvalid
      · rintro ⟨haccepted, -⟩
        have hsome : create normalizer hash [] (rereadEnvelope normalizer hash uuid input).input =
            some (created normalizer hash [] (input.reread normalizer)) :=
          create_eq_some_iff.mpr ⟨haccepted, rfl⟩
        rw [hcreate] at hsome
        cases hsome
  | some rebuilt =>
      obtain ⟨haccepted, rfl⟩ := create_eq_some_iff.mp hcreate
      simp only [Option.bind_eq_bind, Option.bind_some, Option.pure_def, Option.some.injEq,
        Bool.and_eq_true, decide_eq_true_eq]
      constructor
      · rintro ⟨hstable, hcore⟩
        exact ⟨haccepted, hstable, hcore⟩
      · rintro ⟨-, hstable, hcore⟩
        exact ⟨hstable, hcore⟩

/-- For an input that `create` accepts: whatever the hash, the envelope read back
from its JSON text validates, exactly when the input is rereadable. -/
theorem reread_validates_iff (normalizer : Normalizer) {layout : Layout} (hblank : layout.Blank)
    (builtins : Builtins) (others : Json → Option Dict) (uuid : Text) {input : ReplayInput}
    (hkeyed : Keyed input) (sample : Text → Text)
    (hcreate : (create normalizer sample uuid input).isSome = true) :
    (∀ hash, ∃ envelope again, create normalizer hash uuid input = some envelope ∧
        reread normalizer layout builtins others envelope = some again ∧
        validate normalizer hash again = some true) ↔ input.Rereadable := by
  obtain ⟨accepted, hsample⟩ := Option.isSome_iff_exists.mp hcreate
  have haccepted := (create_eq_some_iff.mp hsample).1
  have hcores := canonicalJson_eq_iff normalizer
    ((hkeyed.reread normalizer haccepted.aligned).core normalizer) (hkeyed.core normalizer)
  rw [canonicalize_core_reread normalizer haccepted.aligned] at hcores
  constructor
  · intro hvalid
    obtain ⟨envelope, again, hcreate, hreread, hvalidate⟩ := hvalid fun text => text
    obtain ⟨-, rfl⟩ := create_eq_some_iff.mp hcreate
    rw [reread_created normalizer hblank builtins others _ uuid hkeyed] at hreread
    cases hreread
    obtain ⟨-, -, hcore⟩ :=
      (validate_rereadEnvelope_iff normalizer _ uuid haccepted.aligned).mp hvalidate
    exact hcores.mp hcore
  · intro hrereadable hash
    have hcore := hcores.mpr hrereadable
    have hstable : canonicalJson normalizer (.obj ((input.reread normalizer).stable normalizer)) =
        canonicalJson normalizer (.obj (input.stable normalizer)) := by
      have hcanonical := canonicalize_stable_eq normalizer
        ((canonicalize_core_reread normalizer haccepted.aligned).mpr hrereadable)
      rw [canonicalJson, canonicalJson, hcanonical]
    refine ⟨created normalizer hash uuid input, rereadEnvelope normalizer hash uuid input,
      create_eq_some_iff.mpr ⟨haccepted, rfl⟩,
      reread_created normalizer hblank builtins others hash uuid hkeyed, ?_⟩
    rw [validate_rereadEnvelope_iff normalizer hash uuid haccepted.aligned, hstable, hcore]
    refine ⟨⟨?_, ?_, ?_⟩, rfl, rfl⟩
    · rw [provenance_reread normalizer haccepted.aligned]
      simp [ReplayInput.reread, haccepted.aligned]
    · rw [hstable]
      exact haccepted.stable
    · rw [hcore]
      exact haccepted.core

def userInput (content : String) : ReplayInput where
  modelProfile := lit "main"
  providerFamily := lit "openai-compatible"
  requestMode := lit "chat-completions"
  items := [[(lit "role", .str (lit "user")), (lit "content", .str (lit content))]]

def noBuiltins : Builtins := ⟨fun _ => [], fun _ => none⟩

theorem keyed_userInput (content : String) : Keyed (userInput content) := by
  constructor
  all_goals simp [userInput, dicts, ReplayInput.provenance, Json.WellKeyed, Json.WellKeyedItems,
    Json.WellKeyedFields]

theorem reread_validates_dosLines :
    ∃ envelope again,
      create .identity (fun text => text) [] (userInput "a\r\nb") = some envelope ∧
      reread .identity spaced noBuiltins (fun _ => none) envelope = some again ∧
      validate .identity (fun text => text) again = some true := by
  have hrereadable : (userInput "a\r\nb").Rereadable := by
    constructor <;> decide
  exact (reread_validates_iff .identity spaced_blank noBuiltins (fun _ => none) []
    (keyed_userInput "a\r\nb") (fun text => text) (by decide +kernel)).mpr hrereadable _

/-- Two carriage returns before a line feed: the stored text is canonicalized
once, the text that was hashed and compared twice. -/
theorem reread_doubleReturn_invalid :
    ((create .identity (fun text => text) [] (userInput "a\r\r\nb")).bind
      (reread .identity spaced noBuiltins fun _ => none)).bind
        (validate .identity fun text => text) = some false := by
  decide +kernel

end ReplayEnvelope

end ReuleauxCoder.Context
