import ReuleauxCoder.Library.Text

/-!
# JSON values

The values that `json.loads` produces and `json.dumps` accepts.  An object is
the association list of a Python dictionary, in insertion order; `WellKeyed`
says that no object repeats a key, which every dictionary satisfies.  A finite
float is kept as the digits of its `repr`, the text `json.dumps` writes for it.
-/

namespace PyJson

open PyText List

instance neZeroDigits : NeZero 10 := ⟨by decide⟩

/-- The decimal text of a finite Python float: an integer part, a fraction and
an exponent, at least one of the last two present. -/
structure FloatLiteral where
  negative : Bool
  whole : ℕ
  fraction : List (Fin 10)
  exponent : Option (Bool × Fin 10 × List (Fin 10))
  isFloat : fraction ≠ [] ∨ exponent ≠ none
  deriving DecidableEq

/-- A Python float. -/
inductive Float where
  | finite (literal : FloatLiteral)
  | nan
  | posInf
  | negInf
  deriving DecidableEq

def Float.isFinite : Float → Bool
  | .finite _ => true
  | _ => false

/-- `value < 0` for a float: negative zero is not below zero. -/
def Float.isNegative : Float → Bool
  | .finite literal =>
      literal.negative && (literal.whole ≠ 0 || literal.fraction.any (· ≠ 0))
  | .negInf => true
  | _ => false

inductive Json where
  | null
  | bool (value : Bool)
  | int (value : ℤ)
  | float (value : Float)
  | str (value : Text)
  | arr (items : List Json)
  | obj (fields : List (Text × Json))

namespace Json

instance : Inhabited Json := ⟨.null⟩

mutual

def decEq : (left right : Json) → Decidable (left = right)
  | .null, .null => isTrue rfl
  | .bool left, .bool right => decidable_of_iff (left = right) (by simp)
  | .int left, .int right => decidable_of_iff (left = right) (by simp)
  | .float left, .float right => decidable_of_iff (left = right) (by simp)
  | .str left, .str right => decidable_of_iff (left = right) (by simp)
  | .arr left, .arr right =>
      have := decEqItems left right
      decidable_of_iff (left = right) (by simp)
  | .obj left, .obj right =>
      have := decEqFields left right
      decidable_of_iff (left = right) (by simp)
  | .null, .bool _ | .null, .int _ | .null, .float _ | .null, .str _ | .null, .arr _
  | .null, .obj _ | .bool _, .null | .bool _, .int _ | .bool _, .float _ | .bool _, .str _
  | .bool _, .arr _ | .bool _, .obj _ | .int _, .null | .int _, .bool _ | .int _, .float _
  | .int _, .str _ | .int _, .arr _ | .int _, .obj _ | .float _, .null | .float _, .bool _
  | .float _, .int _ | .float _, .str _ | .float _, .arr _ | .float _, .obj _ | .str _, .null
  | .str _, .bool _ | .str _, .int _ | .str _, .float _ | .str _, .arr _ | .str _, .obj _
  | .arr _, .null | .arr _, .bool _ | .arr _, .int _ | .arr _, .float _ | .arr _, .str _
  | .arr _, .obj _ | .obj _, .null | .obj _, .bool _ | .obj _, .int _ | .obj _, .float _
  | .obj _, .str _ | .obj _, .arr _ => isFalse (by simp)

def decEqItems : (left right : List Json) → Decidable (left = right)
  | [], [] => isTrue rfl
  | [], _ :: _ => isFalse (by simp)
  | _ :: _, [] => isFalse (by simp)
  | left :: lefts, right :: rights =>
      have := decEq left right
      have := decEqItems lefts rights
      decidable_of_iff (left = right ∧ lefts = rights) (by simp)

def decEqFields : (left right : List (Text × Json)) → Decidable (left = right)
  | [], [] => isTrue rfl
  | [], _ :: _ => isFalse (by simp)
  | _ :: _, [] => isFalse (by simp)
  | (leftKey, left) :: lefts, (rightKey, right) :: rights =>
      have := decEq left right
      have := decEqFields lefts rights
      decidable_of_iff (leftKey = rightKey ∧ left = right ∧ lefts = rights) (by
        simp [and_assoc])

end

instance : DecidableEq Json := decEq

end Json

/-! ## Dictionaries -/

/-- `fields.get(key)`. -/
def lookup {α : Type*} (key : Text) : List (Text × α) → Option α
  | [] => none
  | (name, value) :: rest => if name = key then some value else lookup key rest

@[simp]
theorem lookup_nil {α : Type*} (key : Text) : lookup key ([] : List (Text × α)) = none := rfl

theorem lookup_cons {α : Type*} (key name : Text) (value : α) (rest : List (Text × α)) :
    lookup key ((name, value) :: rest) = if name = key then some value else lookup key rest :=
  rfl

@[simp]
theorem lookup_cons_self {α : Type*} (key : Text) (value : α) (rest : List (Text × α)) :
    lookup key ((key, value) :: rest) = some value := by
  simp [lookup]

variable {key : Text}

theorem mem_of_lookup_eq_some {α : Type*} {value : α} {fields : List (Text × α)}
    (hlookup : lookup key fields = some value) : (key, value) ∈ fields := by
  induction fields with
  | nil => simp at hlookup
  | cons field rest ih =>
      obtain ⟨name, stored⟩ := field
      by_cases hname : name = key
      · subst hname
        simp_all
      · rw [lookup, if_neg hname] at hlookup
        exact mem_cons_of_mem _ (ih hlookup)

theorem lookup_eq_some_of_mem {α : Type*} {value : α} {fields : List (Text × α)}
    (hnodup : (fields.map Prod.fst).Nodup) (hmem : (key, value) ∈ fields) :
    lookup key fields = some value := by
  induction fields with
  | nil => simp at hmem
  | cons field rest ih =>
      obtain ⟨name, stored⟩ := field
      simp only [map_cons, nodup_cons] at hnodup
      rcases mem_cons.mp hmem with heq | hrest
      · cases heq
        simp
      · have hne : name ≠ key := by
          rintro rfl
          exact hnodup.1 (mem_map_of_mem hrest)
        rw [lookup, if_neg hne]
        exact ih hnodup.2 hrest

/-- `fields[key] = value`: an existing key keeps its place. -/
def store {α : Type*} (key : Text) (value : α) : List (Text × α) → List (Text × α)
  | [] => [(key, value)]
  | (name, old) :: rest =>
      if name = key then (name, value) :: rest else (name, old) :: store key value rest

/-- `fields.pop(key, None)` and `{k: v for k, v in fields.items() if k != key}`. -/
def drop {α : Type*} (key : Text) : List (Text × α) → List (Text × α)
  | [] => []
  | (name, value) :: rest =>
      if name = key then drop key rest else (name, value) :: drop key rest

example (key : Text) (value : ℤ) : lookup key (drop key (store key value [])) = none := by
  simp [store, drop]

@[simp]
theorem lookup_store_self {α : Type*} (key : Text) (value : α) (fields : List (Text × α)) :
    lookup key (store key value fields) = some value := by
  induction fields with
  | nil => simp [store]
  | cons field rest ih =>
      obtain ⟨name, old⟩ := field
      by_cases hname : name = key <;> simp [store, lookup, hname, ih]

variable {other : Text}

theorem lookup_store_of_ne {α : Type*} (hne : other ≠ key) (value : α) (fields : List (Text × α)) :
    lookup other (store key value fields) = lookup other fields := by
  induction fields with
  | nil => simp [store, lookup, hne.symm]
  | cons field rest ih =>
      obtain ⟨name, old⟩ := field
      by_cases hname : name = key
      · subst hname
        simp [store, lookup, hne.symm]
      · simp only [store, hname, if_false, lookup, ih]

theorem mem_keys_store {α : Type*} {value : α} {fields : List (Text × α)} :
    other ∈ (store key value fields).map Prod.fst ↔
      other = key ∨ other ∈ fields.map Prod.fst := by
  induction fields with
  | nil => simp [store]
  | cons entry rest ih =>
      obtain ⟨name, old⟩ := entry
      by_cases hname : name = key
      · simp [store, hname]
      · simp only [store, if_neg hname, map_cons, mem_cons, ih]
        exact or_left_comm

theorem mem_values_store {α : Type*} {value other : α} {fields : List (Text × α)}
    (hother : other ∈ (store key value fields).map Prod.snd) :
    other = value ∨ other ∈ fields.map Prod.snd := by
  induction fields with
  | nil => exact .inl (mem_singleton.mp hother)
  | cons entry rest ih =>
      obtain ⟨name, old⟩ := entry
      by_cases hname : name = key
      · rw [store, if_pos hname, map_cons, mem_cons] at hother
        exact hother.imp_right (mem_cons_of_mem _)
      · rw [store, if_neg hname, map_cons, mem_cons] at hother
        rcases hother with rfl | hmem
        · exact .inr mem_cons_self
        · exact (ih hmem).imp_right (mem_cons_of_mem _)

theorem nodup_keys_store {α : Type*} (key : Text) (value : α) {fields : List (Text × α)}
    (hnodup : (fields.map Prod.fst).Nodup) : ((store key value fields).map Prod.fst).Nodup := by
  induction fields with
  | nil => simp [store]
  | cons entry rest ih =>
      obtain ⟨name, old⟩ := entry
      rw [map_cons, nodup_cons] at hnodup
      by_cases hname : name = key
      · rw [store, if_pos hname, map_cons, nodup_cons]
        exact hnodup
      · rw [store, if_neg hname, map_cons, nodup_cons, mem_keys_store]
        refine ⟨?_, ih hnodup.2⟩
        rintro (hkey | hmem)
        · exact hname hkey
        · exact hnodup.1 hmem

theorem lookup_drop_of_ne {α : Type*} (hne : other ≠ key) (fields : List (Text × α)) :
    lookup other (drop key fields) = lookup other fields := by
  induction fields with
  | nil => rfl
  | cons field rest ih =>
      obtain ⟨name, value⟩ := field
      by_cases hname : name = key
      · subst hname
        simp [drop, lookup, hne.symm, ih]
      · simp only [drop, hname, if_false, lookup, ih]

@[simp]
theorem lookup_drop_self {α : Type*} (key : Text) (fields : List (Text × α)) :
    lookup key (drop key fields) = none := by
  induction fields with
  | nil => rfl
  | cons field rest ih =>
      obtain ⟨name, value⟩ := field
      by_cases hname : name = key <;> simp [drop, lookup, hname, ih]

theorem drop_store_self {α : Type*} (key : Text) (value : α) (fields : List (Text × α)) :
    drop key (store key value fields) = drop key fields := by
  induction fields with
  | nil => simp [store, drop]
  | cons field rest ih =>
      obtain ⟨name, old⟩ := field
      by_cases hname : name = key
      · simp [store, drop, hname]
      · simp [store, drop, hname, ih]

theorem drop_sublist {α : Type*} (key : Text) (fields : List (Text × α)) :
    (drop key fields).Sublist fields := by
  induction fields with
  | nil => exact List.Sublist.refl []
  | cons field rest ih =>
      rw [drop]
      split
      · exact ih.cons field
      · exact ih.cons_cons field

/-- A key that is new is added at the end. -/
theorem store_of_lookup_eq_none {α : Type*} (value : α) {fields : List (Text × α)}
    (hnew : lookup key fields = none) : store key value fields = fields ++ [(key, value)] := by
  induction fields with
  | nil => rfl
  | cons field rest ih =>
      obtain ⟨name, old⟩ := field
      by_cases hname : name = key
      · rw [lookup_cons, if_pos hname] at hnew
        cases hnew
      · rw [lookup_cons, if_neg hname] at hnew
        rw [store, if_neg hname, ih hnew, cons_append]

/-- `fields.get(key)` for a literal key, with `None` as JSON's `null`. -/
def field (fields : List (Text × Json)) (key : String) : Json :=
  (lookup (lit key) fields).getD .null

namespace Json

/-- The value under `key`, when the value is an object that has it. -/
def get? (value : Json) (key : Text) : Option Json :=
  match value with
  | .obj fields => lookup key fields
  | _ => none

@[simp]
theorem get?_obj (fields : List (Text × Json)) (key : Text) :
    (Json.obj fields).get? key = lookup key fields := rfl

/-- `value is None or key not in it`: what `dict.get(key)` treats as `None`. -/
def getD (value : Json) (key : Text) : Json :=
  (value.get? key).getD .null

/-- Python truth. -/
def truthy : Json → Bool
  | .null => false
  | .bool value => value
  | .int value => value ≠ 0
  | .float (.finite literal) =>
      literal.whole ≠ 0 || literal.fraction.any (· ≠ 0)
  | .float _ => true
  | .str value => value ≠ []
  | .arr items => items ≠ []
  | .obj fields => fields ≠ []

mutual

/-- No object of the tree repeats a key. -/
def WellKeyed : Json → Prop
  | .arr items => WellKeyedItems items
  | .obj fields => (fields.map Prod.fst).Nodup ∧ WellKeyedFields fields
  | _ => True

def WellKeyedItems : List Json → Prop
  | [] => True
  | item :: rest => WellKeyed item ∧ WellKeyedItems rest

def WellKeyedFields : List (Text × Json) → Prop
  | [] => True
  | (_, value) :: rest => WellKeyed value ∧ WellKeyedFields rest

end

mutual

/-- `sort_keys=True`: every object lists its keys in code point order. -/
def sortKeys : Json → Json
  | .arr items => .arr (sortKeysItems items)
  | .obj fields =>
      .obj ((sortKeysFields fields).insertionSort fun left right => left.1 ≤ right.1)
  | other => other

def sortKeysItems : List Json → List Json
  | [] => []
  | item :: rest => sortKeys item :: sortKeysItems rest

def sortKeysFields : List (Text × Json) → List (Text × Json)
  | [] => []
  | (key, value) :: rest => (key, sortKeys value) :: sortKeysFields rest

end

theorem wellKeyedItems_iff {items : List Json} :
    WellKeyedItems items ↔ ∀ item ∈ items, WellKeyed item := by
  induction items with
  | nil => simp [WellKeyedItems]
  | cons item rest ih => simp [WellKeyedItems, ih]

theorem wellKeyedFields_iff {fields : List (Text × Json)} :
    WellKeyedFields fields ↔ ∀ field ∈ fields, WellKeyed field.2 := by
  induction fields with
  | nil => simp [WellKeyedFields]
  | cons field rest ih => simp [WellKeyedFields, ih]

end Json

/-! ## Built-in conversions -/

/-- `str` on values that are not strings and `int` on values that are not
integers; the second raises where it returns `none`. -/
structure Builtins where
  str : Json → Text
  int : Json → Option ℤ

/-- `str(value or default)`. -/
def Builtins.strOr (builtins : Builtins) (value : Json) (default : Text) : Text :=
  match value with
  | .str text => if text = [] then default else text
  | other => if other.truthy then builtins.str other else default

/-- `int(value)`. -/
def Builtins.toInt (builtins : Builtins) : Json → Option ℤ
  | .int value => some value
  | .bool value => some (if value then 1 else 0)
  | other => builtins.int other

/-- `list(value)`; `none` when the value cannot be iterated. -/
def listOf : Json → Option (List Json)
  | .arr items => some items
  | .str text => some (text.map fun c => .str [c])
  | .obj fields => some (fields.map fun field => .str field.1)
  | _ => none

end PyJson
