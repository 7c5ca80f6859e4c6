import ReuleauxCoder.Rpc.Codec

/-!
# The codec loses nothing

Every public value is encoded, read back from its JSON text and decoded to itself, and
the client decodes the same wire value to the same data.  The induction goes over values;
its invariant is that an object of the wire has a `$type` only where `encode` tagged it.
-/

namespace ReuleauxCoder.Rpc.Codec

open PyText PyJson
open List hiding lookup

/-! ## Public values -/

mutual

/-- Values that the catalog covers: finite floats, sets of distinct values with a hash,
dictionaries and records as Python has them.  The command of an `ActionRequest` is no
record. -/
def Public (catalog : Catalog) : Value → Prop
  | .float value => value.isFinite = true
  | .list items => AllPublic catalog items
  | .tuple items => AllPublic catalog items
  | .frozenset items => AllPublic catalog items ∧ areHashable catalog items = true ∧
      items.Pairwise fun earlier later => catalog.same earlier later = false
  | .dict fields => FieldsPublic catalog fields ∧ (fields.map Prod.fst).Nodup
  | .enum type value => ∃ members, catalog.types type = some (.enum members) ∧ value ∈ members
  | .record type fields => FieldsPublic catalog fields ∧
      (∃ known, catalog.types type = some (.record known) ∧
        fields.map Prod.fst = known.fields.map Prod.fst) ∧
      (type = lit "ActionRequest" → ∀ field ∈ fields, field.2.isRecord = false)
  | .foreign _ => False
  | _ => True

def AllPublic (catalog : Catalog) : List Value → Prop
  | [] => True
  | item :: rest => Public catalog item ∧ AllPublic catalog rest

def FieldsPublic (catalog : Catalog) : List (Text × Value) → Prop
  | [] => True
  | (_, value) :: rest => Public catalog value ∧ FieldsPublic catalog rest

end

mutual

/-- The data of a value in the client. -/
def view : Value → ClientValue
  | .null => .null
  | .bool value => .boolean value
  | .int value => .integer value
  | .float value => .number value
  | .str value => .string value
  | .list items | .tuple items | .frozenset items => .array (viewItems items)
  | .dict fields => .object (viewFields fields) none
  | .enum _ value => .string value
  | .record type fields => .object (viewFields fields) (some type)
  | .foreign _ => .null

def viewItems : List Value → List ClientValue
  | [] => []
  | item :: rest => view item :: viewItems rest

def viewFields : List (Text × Value) → List (Text × ClientValue)
  | [] => []
  | (key, value) :: rest => (key, view value) :: viewFields rest

end

mutual

/-- Plain JSON data. -/
def plain : Json → Value
  | .null => .null
  | .bool value => .bool value
  | .int value => .int value
  | .float value => .float value
  | .str value => .str value
  | .arr items => .list (plainItems items)
  | .obj fields => .dict (plainFields fields)

def plainItems : List Json → List Value
  | [] => []
  | item :: rest => plain item :: plainItems rest

def plainFields : List (Text × Json) → List (Text × Value)
  | [] => []
  | (key, value) :: rest => (key, plain value) :: plainFields rest

end

/-! ## Objects of the wire -/

/-- A wire value that every reader turns into `value`. -/
structure Stands (catalog : Catalog) (value : Value) (wire : Json) : Prop where
  keyed : wire.WellKeyed
  decoded : decode catalog wire = some value
  viewed : decodeClient wire = some (view value)

structure StandItems (catalog : Catalog) (items : List Value) (wire : List Json) : Prop where
  keyed : Json.WellKeyedItems wire
  decoded : decodeItems catalog wire = some items
  viewed : decodeClientItems wire = some (viewItems items)

structure StandFields (catalog : Catalog) (fields : List (Text × Value))
    (wire : List (Text × Json)) : Prop where
  keys : wire.map Prod.fst = fields.map Prod.fst
  keyed : Json.WellKeyedFields wire
  decoded : decodeFields catalog wire = some fields
  viewed : decodeClientFields wire = some (viewFields fields)

variable {catalog : Catalog}

theorem lookup_eq_none_of_not_mem {α : Type*} {key : Text} {fields : List (Text × α)}
    (hnone : key ∉ fields.map Prod.fst) : lookup key fields = none := by
  induction fields with
  | nil => rfl
  | cons entry rest ih =>
      rw [map_cons, mem_cons, not_or] at hnone
      rw [lookup_cons, if_neg (Ne.symm hnone.1)]
      exact ih hnone.2

/-- Keys of a tagged object. -/
theorem tagged_keyed {type : Text} {key : String} {content : Json} (hkey : lit key ≠ lit "$type")
    (hcontent : content.WellKeyed) : (tagged type key content).WellKeyed := by
  refine ⟨?_, trivial, hcontent, trivial⟩
  simp [hkey.symm]

theorem lookup_tag (type : Text) (key : String) (content : Json) :
    lookup (lit "$type") [(lit "$type", Json.str type), (lit key, content)] = some (.str type) :=
  lookup_cons_self _ _ _

variable {fields : List (Text × Value)} {wire : List (Text × Json)} {items : List Value}

theorem StandFields.untagged (hstand : StandFields catalog fields wire)
    (hnodup : (fields.map Prod.fst).Nodup) (huntagged : lit "$type" ∉ fields.map Prod.fst) :
    Stands catalog (.dict fields) (.obj wire) where
  keyed := ⟨hstand.keys ▸ hnodup, hstand.keyed⟩
  decoded := by
    rw [← hstand.keys] at huntagged
    rw [decode, lookup_eq_none_of_not_mem huntagged]
    simp only [hstand.decoded]
    rfl
  viewed := by
    rw [← hstand.keys] at huntagged
    rw [decodeClient, lookup_eq_none_of_not_mem huntagged]
    simp only [hstand.viewed]
    rfl

theorem StandFields.dict (hstand : StandFields catalog fields wire)
    (hnodup : (fields.map Prod.fst).Nodup) : Stands catalog (.dict fields) (encodeDict wire) := by
  unfold encodeDict
  split
  · refine ⟨tagged_keyed (by decide) ⟨hstand.keys ▸ hnodup, hstand.keyed⟩, ?_, ?_⟩
    · rw [tagged, decode, lookup_tag]
      simp [decodeObjectAt, hstand.decoded]
    · rw [tagged, decodeClient, lookup_tag]
      simp [decodeClientObjectAt, hstand.viewed, view]
  · rename_i huntagged
    rw [hstand.keys] at huntagged
    exact hstand.untagged hnodup huntagged

theorem StandItems.list {wire : List Json} (hstand : StandItems catalog items wire) :
    Stands catalog (.list items) (.arr wire) where
  keyed := hstand.keyed
  decoded := by simp [decode, hstand.decoded]
  viewed := by simp [decodeClient, hstand.viewed, view]

theorem StandItems.tuple {wire : List Json} (hstand : StandItems catalog items wire) :
    Stands catalog (.tuple items) (tagged (lit "tuple") "items" (.arr wire)) where
  keyed := tagged_keyed (by decide) hstand.keyed
  decoded := by
    rw [tagged, decode, lookup_tag]
    simp [decodeArrayAt, hstand.decoded]
  viewed := by
    rw [tagged, decodeClient, lookup_tag]
    simp [decodeClientArrayAt, hstand.viewed, view]

/-- A set keeps items that are distinct. -/
theorem distinct_eq_self {same : Value → Value → Bool} {seen : List Value}
    (hitems : items.Pairwise fun earlier later => same earlier later = false)
    (hseen : ∀ item ∈ items, ∀ other ∈ seen, same other item = false) :
    distinct same seen items = items := by
  induction items generalizing seen with
  | nil => rfl
  | cons item rest ih =>
      rw [pairwise_cons] at hitems
      have hnew : seen.any (fun other => same other item) = false := by
        rw [any_eq_false]
        intro other hother
        rw [hseen item mem_cons_self other hother]
        exact Bool.false_ne_true
      rw [distinct, hnew]
      simp only [Bool.false_eq_true, if_false]
      rw [ih hitems.2]
      intro later hlater other hother
      rcases mem_append.mp hother with hold | hadded
      · exact hseen later (mem_cons_of_mem _ hlater) other hold
      · rw [mem_singleton.mp hadded]
        exact hitems.1 later hlater

theorem StandItems.frozenset {wire : List Json} (hstand : StandItems catalog items wire)
    (hhashable : areHashable catalog items = true)
    (hdistinct : items.Pairwise fun earlier later => catalog.same earlier later = false) :
    Stands catalog (.frozenset items) (tagged (lit "frozenset") "items" (.arr wire)) where
  keyed := tagged_keyed (by decide) hstand.keyed
  decoded := by
    have hsame : distinct catalog.same [] items = items :=
      distinct_eq_self hdistinct fun _ _ _ hnone => absurd hnone not_mem_nil
    rw [tagged, decode, lookup_tag]
    simp [decodeArrayAt, hstand.decoded, frozensetOf, hhashable, hsame]
  viewed := by
    rw [tagged, decodeClient, lookup_tag]
    simp [decodeClientArrayAt, hstand.viewed, view]

/-- The tags of registered types are none of the builtin ones. -/
theorem tag_ne_builtin {type : Text} {known : PublicType} (hknown : catalog.types type = some known) :
    type ≠ lit "dict" ∧ type ≠ lit "tuple" ∧ type ≠ lit "frozenset" := by
  refine ⟨?_, ?_, ?_⟩ <;> rintro rfl
  · rw [catalog.builtins (lit "dict") (by simp)] at hknown
    cases hknown
  · rw [catalog.builtins (lit "tuple") (by simp)] at hknown
    cases hknown
  · rw [catalog.builtins (lit "frozenset") (by simp)] at hknown
    cases hknown

theorem stands_enum {type value : Text} {members : List Text}
    (hknown : catalog.types type = some (.enum members)) (hmember : value ∈ members) :
    Stands catalog (.enum type value) (tagged type "value" (.str value)) where
  keyed := tagged_keyed (by decide) trivial
  decoded := by
    obtain ⟨hdict, htuple, hfrozenset⟩ := tag_ne_builtin hknown
    have hvalue : lookup (lit "value") [(lit "$type", Json.str type), (lit "value", .str value)] =
        some (.str value) := rfl
    rw [tagged, decode, lookup_tag]
    simp only [if_neg hdict, if_neg htuple, if_neg hfrozenset, hknown, hvalue, member,
      if_pos hmember]
  viewed := by
    obtain ⟨hdict, htuple, hfrozenset⟩ := tag_ne_builtin hknown
    have hvalue : lookup (lit "value") [(lit "$type", Json.str type), (lit "value", .str value)] =
        some (.str value) := rfl
    rw [tagged, decodeClient, lookup_tag]
    simp only [htuple, hfrozenset, or_self, if_false, if_neg hdict, hvalue, ClientValue.ofJson, view]

theorem bind_arguments {arguments : List (Text × Value)} {parameters : List (Text × Option Value)}
    (hkeys : fields.map Prod.fst = parameters.map Prod.fst)
    (hfields : ∀ field ∈ fields, lookup field.1 arguments = some field.2) :
    (parameters.mapM fun parameter => do
      return (parameter.1, ← (lookup parameter.1 arguments).or parameter.2)) = some fields := by
  induction parameters generalizing fields with
  | nil =>
      rw [map_nil, map_eq_nil_iff] at hkeys
      rw [hkeys, mapM_nil]
      rfl
  | cons parameter parameters ih =>
      cases fields with
      | nil => cases hkeys
      | cons field rest =>
          rw [map_cons, map_cons, List.cons.injEq] at hkeys
          have hfield := hfields field mem_cons_self
          have hrest := ih hkeys.2 fun other hother =>
            hfields other (mem_cons_of_mem _ hother)
          rw [mapM_cons, hrest, ← hkeys.1, hfield]
          rfl

/-- A constructor takes the fields of its record as they are. -/
theorem construct_eq_self {known : RecordType} {type : Text}
    (hkeys : fields.map Prod.fst = known.fields.map Prod.fst) :
    known.construct type fields = some (.record type fields) := by
  have hall : (fields.all fun argument => decide (argument.1 ∈ known.fields.map Prod.fst)) = true := by
    rw [all_eq_true]
    intro field hfield
    rw [decide_eq_true_eq, ← hkeys]
    exact mem_map_of_mem hfield
  have hlookup : ∀ field ∈ fields, lookup field.1 fields = some field.2 :=
    fun field hfield => lookup_eq_some_of_mem (hkeys ▸ known.distinct) hfield
  rw [RecordType.construct, if_pos hall, bind_arguments hkeys hlookup]
  rfl

theorem StandFields.record {type : Text} {known : RecordType}
    (hstand : StandFields catalog fields wire) (hknown : catalog.types type = some (.record known))
    (hkeys : fields.map Prod.fst = known.fields.map Prod.fst) :
    Stands catalog (.record type fields) (tagged type "fields" (.obj wire)) where
  keyed := tagged_keyed (by decide) ⟨hstand.keys ▸ hkeys ▸ known.distinct, hstand.keyed⟩
  decoded := by
    obtain ⟨hdict, htuple, hfrozenset⟩ := tag_ne_builtin hknown
    rw [tagged, decode, lookup_tag]
    simp only [if_neg hdict, if_neg htuple, if_neg hfrozenset, hknown]
    simp [decodeObjectAt, hstand.decoded, construct_eq_self hkeys]
  viewed := by
    obtain ⟨hdict, htuple, hfrozenset⟩ := tag_ne_builtin hknown
    have hvalue : lookup (lit "value") [(lit "$type", Json.str type), (lit "fields", .obj wire)] =
        none := rfl
    have hfields := (hstand.untagged (hkeys ▸ known.distinct) (hkeys ▸ known.untagged)).viewed
    rw [tagged, decodeClient, lookup_tag]
    simp only [htuple, hfrozenset, or_self, if_false, if_neg hdict, hvalue]
    simp [decodeClientAt, hfields, view, ClientValue.withType]

/-! ## Every value -/

theorem StandFields.cons (key : Text) {value : Value} {content : Json}
    (hstands : StandFields catalog fields wire) (hstand : Stands catalog value content) :
    StandFields catalog ((key, value) :: fields) ((key, content) :: wire) where
  keys := by rw [map_cons, map_cons, hstands.keys]
  keyed := ⟨hstand.keyed, hstands.keyed⟩
  decoded := by
    rw [decodeFields, hstand.decoded, hstands.decoded]
    rfl
  viewed := by
    rw [decodeClientFields, hstand.viewed, hstands.viewed]
    rfl

mutual

theorem encode_stands :
    (value : Value) → Public catalog value →
      ∃ wire, encode catalog value = .ok wire ∧ Stands catalog value wire
  | .null, _ => ⟨.null, rfl, trivial, rfl, rfl⟩
  | .bool value, _ => ⟨.bool value, rfl, trivial, rfl, rfl⟩
  | .int value, _ => ⟨.int value, rfl, trivial, rfl, rfl⟩
  | .float value, _ => ⟨.float value, rfl, trivial, rfl, rfl⟩
  | .str value, _ => ⟨.str value, rfl, trivial, rfl, rfl⟩
  | .list items, hpublic => by
      obtain ⟨wire, hencode, hstand⟩ := encodeItems_stand items hpublic
      refine ⟨.arr wire, ?_, hstand.list⟩
      rw [encode, hencode]
      rfl
  | .tuple items, hpublic => by
      obtain ⟨wire, hencode, hstand⟩ := encodeItems_stand items hpublic
      refine ⟨_, ?_, hstand.tuple⟩
      rw [encode, hencode]
      rfl
  | .frozenset items, hpublic => by
      obtain ⟨hitems, hhashable, hdistinct⟩ := hpublic
      obtain ⟨wire, hencode, hstand⟩ := encodeItems_stand items hitems
      refine ⟨_, ?_, hstand.frozenset hhashable hdistinct⟩
      rw [encode, hencode]
      rfl
  | .dict fields, hpublic => by
      obtain ⟨hfields, hnodup⟩ := hpublic
      obtain ⟨wire, hencode, hstand⟩ := encodeFields_stand fields hfields
      refine ⟨_, ?_, hstand.dict hnodup⟩
      rw [encode, hencode]
      rfl
  | .enum type value, hpublic => by
      obtain ⟨members, hknown, hmember⟩ := hpublic
      refine ⟨_, ?_, stands_enum hknown hmember⟩
      simp only [encode, encodeLeaf, hknown]
  | .record type fields, hpublic => by
      obtain ⟨hfields, ⟨known, hknown, hkeys⟩, haction⟩ := hpublic
      by_cases htype : type = lit "ActionRequest"
      · obtain ⟨wire, hencode, hstand⟩ := encodeAction_stand fields hfields (haction htype)
        refine ⟨_, ?_, hstand.record hknown hkeys⟩
        rw [encode, if_pos htype, hencode]
        rfl
      · obtain ⟨wire, hencode, hstand⟩ := encodeFields_stand fields hfields
        refine ⟨_, ?_, hstand.record hknown hkeys⟩
        rw [encode, if_neg htype, hknown]
        simp only [hencode]
        rfl

theorem encodeItems_stand :
    (items : List Value) → AllPublic catalog items →
      ∃ wire, encodeItems catalog items = .ok wire ∧ StandItems catalog items wire
  | [], _ => ⟨[], rfl, trivial, rfl, rfl⟩
  | item :: rest, hpublic => by
      obtain ⟨wire, hencode, hstand⟩ := encode_stands item hpublic.1
      obtain ⟨wires, hencodes, hstands⟩ := encodeItems_stand rest hpublic.2
      refine ⟨wire :: wires, ?_, ⟨hstand.keyed, hstands.keyed⟩, ?_, ?_⟩
      · rw [encodeItems, hencode, hencodes]
        rfl
      · rw [decodeItems, hstand.decoded, hstands.decoded]
        rfl
      · rw [decodeClientItems, hstand.viewed, hstands.viewed]
        rfl

theorem encodeFields_stand :
    (fields : List (Text × Value)) → FieldsPublic catalog fields →
      ∃ wire, encodeFields catalog fields = .ok wire ∧ StandFields catalog fields wire
  | [], _ => ⟨[], rfl, rfl, trivial, rfl, rfl⟩
  | (key, value) :: rest, hpublic => by
      obtain ⟨wire, hencode, hstand⟩ := encode_stands value hpublic.1
      obtain ⟨wires, hencodes, hstands⟩ := encodeFields_stand rest hpublic.2
      refine ⟨(key, wire) :: wires, ?_, hstands.cons key hstand⟩
      rw [encodeFields, hencode, hencodes]
      rfl

theorem encodeAction_stand :
    (fields : List (Text × Value)) → FieldsPublic catalog fields →
      (∀ field ∈ fields, field.2.isRecord = false) →
      ∃ wire, encodeAction catalog fields = .ok wire ∧ StandFields catalog fields wire
  | [], _, _ => ⟨[], rfl, rfl, trivial, rfl, rfl⟩
  | (key, value) :: rest, hpublic, hplain => by
      obtain ⟨wire, hencode, hstand⟩ := encode_stands value hpublic.1
      obtain ⟨wires, hencodes, hstands⟩ := encodeAction_stand rest hpublic.2
        fun field hfield => hplain field (mem_cons_of_mem _ hfield)
      refine ⟨(key, wire) :: wires, ?_, hstands.cons key hstand⟩
      have hvalue := hplain (key, value) mem_cons_self
      rw [encodeAction, hencodes]
      simp only [hvalue, Bool.false_eq_true, if_false, hencode]
      rfl

end

/-! ## The round trip -/

/-- Encoded, written as JSON text, read and decoded, a public value is what it was; data
without tags stays data; and the client sees the same. -/
theorem decode_encode (catalog : Catalog) {value : Value} (hpublic : Public catalog value) :
    ∃ wire, encode catalog value = .ok wire ∧
      (∀ layout : Layout, layout.Blank →
        (loads (dumps layout wire)).bind (decode catalog) = some value) ∧
      (∀ data, value = plain data → decode catalog wire = some (plain data)) ∧
      decodeClient wire = some (view value) := by
  obtain ⟨wire, hencode, hstands⟩ := encode_stands value hpublic
  refine ⟨wire, hencode, fun layout hblank => ?_, fun data hdata => ?_, hstands.viewed⟩
  · rw [loads_dumps hblank hstands.keyed, Option.bind_some]
    exact hstands.decoded
  · rw [← hdata]
    exact hstands.decoded

/-- A catalog with one enum and one record. -/
def smallCatalog : Catalog where
  types name :=
    if name = lit "Color" then some (.enum [lit "red", lit "green"])
    else if name = lit "Point" then
      some (.record ⟨[(lit "x", none), (lit "tags", some (.tuple []))], true, by decide, by decide⟩)
    else none
  same _ _ := false
  builtins := by decide

/-- A dictionary that looks like a record, around a record. -/
def disguised : Value :=
  .dict [(lit "$type", .str (lit "Point")),
    (lit "fields", .record (lit "Point")
      [(lit "x", .enum (lit "Color") (lit "red")), (lit "tags", .tuple [.int 1, .null])])]

theorem decode_encode_disguised :
    ∃ wire, encode smallCatalog disguised = .ok wire ∧
      decodeClient wire = some (.object [(lit "$type", .string (lit "Point")),
        (lit "fields", .object [(lit "x", .string (lit "red")),
          (lit "tags", .array [.integer 1, .null])] (some (lit "Point")))] none) := by
  have hpublic : Public smallCatalog disguised := by
    refine ⟨⟨trivial, ⟨⟨⟨_, rfl, by decide⟩, ⟨trivial, trivial, trivial⟩, trivial⟩,
      ⟨_, rfl, rfl⟩, ?_⟩, trivial⟩, by decide⟩
    intro haction
    exact absurd haction (by decide)
  obtain ⟨wire, hencode, -, -, hviewed⟩ := decode_encode smallCatalog hpublic
  exact ⟨wire, hencode, hviewed⟩

end ReuleauxCoder.Rpc.Codec
