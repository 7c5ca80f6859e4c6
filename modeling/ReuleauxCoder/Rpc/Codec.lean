import ReuleauxCoder.Library.JsonRoundTrip

/-!
# The wire codec

Public values cross the connection as JSON.  Records, enums, tuples and frozensets are
objects with a `$type`; a dictionary that has such a key itself is escaped.  `encode` and
`decode` are the Python side, `decodeClient` is the TypeScript decoder.  The recursion limit of
the interpreter is not part of them; `Refusals` adds it.
-/

namespace ReuleauxCoder.Rpc.Codec

open PyText PyJson

/-! ## Values -/

/-- Python values.  A record lists the fields that its constructor takes; `foreign` is
anything else, such as a runtime object or a mapping with other keys than strings. -/
inductive Value where
  | null
  | bool (value : Bool)
  | int (value : ℤ)
  | float (value : PyJson.Float)
  | str (value : Text)
  | list (items : List Value)
  | tuple (items : List Value)
  | frozenset (items : List Value)
  | dict (fields : List (Text × Value))
  | enum (type : Text) (value : Text)
  | record (type : Text) (fields : List (Text × Value))
  | foreign (type : Text)

/-- A registered dataclass: the parameters of its constructor, with their defaults, and
whether its values have a hash. -/
structure RecordType where
  fields : List (Text × Option Value)
  hashable : Bool
  distinct : (fields.map Prod.fst).Nodup
  untagged : lit "$type" ∉ fields.map Prod.fst

/-- An entry of `_TYPES`; the values of all registered enums are strings. -/
inductive PublicType where
  | enum (members : List Text)
  | record (type : RecordType)

/-- `_TYPES`, and `==` on values that have a hash. -/
structure Catalog where
  types : Text → Option PublicType
  same : Value → Value → Bool
  builtins : ∀ name ∈ [lit "dict", lit "tuple", lit "frozenset"], types name = none

inductive WireError where
  | unregisteredEnum (type : Text)
  | notPublic (type : Text)

def WireError.message : WireError → Text
  | .unregisteredEnum type => lit "Unregistered enum: " ++ type
  | .notPublic type => lit "Not a public wire value: " ++ type

/-! ## `encode` -/

def tagged (type : Text) (key : String) (content : Json) : Json :=
  .obj [(lit "$type", .str type), (lit key, content)]

/-- The wire form of a dictionary. -/
def encodeDict (data : List (Text × Json)) : Json :=
  if lit "$type" ∈ data.map Prod.fst then tagged (lit "dict") "items" (.obj data) else .obj data

def Value.isRecord : Value → Bool
  | .record _ _ => true
  | _ => false

/-- Values without parts; the others do not come here. -/
def encodeLeaf (catalog : Catalog) : Value → Except WireError Json
  | .enum type value =>
      match catalog.types type with
      | some (.enum _) => .ok (tagged type "value" (.str value))
      | _ => .error (.unregisteredEnum type)
  | .null => .ok .null
  | .bool value => .ok (.bool value)
  | .int value => .ok (.int value)
  | .float value => .ok (.float value)
  | .str value => .ok (.str value)
  | .foreign type => .error (.notPublic type)
  | .list _ | .tuple _ | .frozenset _ | .dict _ | .record _ _ => .error (.notPublic [])

mutual

def encode (catalog : Catalog) : Value → Except WireError Json
  | .record type fields =>
      if type = lit "ActionRequest" then do
        return tagged type "fields" (.obj (← encodeAction catalog fields))
      else
        match catalog.types type with
        | some (.record _) => do
            return tagged type "fields" (.obj (← encodeFields catalog fields))
        | _ => .error (.notPublic type)
  | .tuple items => do return tagged (lit "tuple") "items" (.arr (← encodeItems catalog items))
  | .frozenset items => do
      return tagged (lit "frozenset") "items" (.arr (← encodeItems catalog items))
  | .list items => do return .arr (← encodeItems catalog items)
  | .dict fields => do return encodeDict (← encodeFields catalog fields)
  | leaf => encodeLeaf catalog leaf

def encodeItems (catalog : Catalog) : List Value → Except WireError (List Json)
  | [] => .ok []
  | item :: rest => do return (← encode catalog item) :: (← encodeItems catalog rest)

def encodeFields (catalog : Catalog) : List (Text × Value) → Except WireError (List (Text × Json))
  | [] => .ok []
  | (key, value) :: rest => do
      return (key, ← encode catalog value) :: (← encodeFields catalog rest)

/-- The fields of an `ActionRequest`; its id is a string, and a command that is a record
becomes a dictionary. -/
def encodeAction (catalog : Catalog) : List (Text × Value) → Except WireError (List (Text × Json))
  | [] => .ok []
  | (key, value) :: rest => do
      let content ← if value.isRecord then encodeAsDict catalog value else encode catalog value
      return (key, content) :: (← encodeAction catalog rest)

/-- `encode(asdict(value))`: `asdict` goes through lists, tuples and dictionaries. -/
def encodeAsDict (catalog : Catalog) : Value → Except WireError Json
  | .record _ fields => do return encodeDict (← encodeFieldsAsDict catalog fields)
  | .dict fields => do return encodeDict (← encodeFieldsAsDict catalog fields)
  | .list items => do return .arr (← encodeItemsAsDict catalog items)
  | .tuple items => do
      return tagged (lit "tuple") "items" (.arr (← encodeItemsAsDict catalog items))
  | .frozenset items => do
      return tagged (lit "frozenset") "items" (.arr (← encodeItems catalog items))
  | leaf => encodeLeaf catalog leaf

def encodeItemsAsDict (catalog : Catalog) : List Value → Except WireError (List Json)
  | [] => .ok []
  | item :: rest => do
      return (← encodeAsDict catalog item) :: (← encodeItemsAsDict catalog rest)

def encodeFieldsAsDict (catalog : Catalog) :
    List (Text × Value) → Except WireError (List (Text × Json))
  | [] => .ok []
  | (key, value) :: rest => do
      return (key, ← encodeAsDict catalog value) :: (← encodeFieldsAsDict catalog rest)

end

/-! ## `decode` -/

mutual

/-- The value has a hash. -/
def isHashable (catalog : Catalog) : Value → Bool
  | .tuple items => areHashable catalog items
  | .frozenset items => areHashable catalog items
  | .record type fields =>
      (match catalog.types type with
        | some (.record known) => known.hashable
        | _ => false) && fieldsHashable catalog fields
  | .list _ | .dict _ | .foreign _ => false
  | _ => true

def areHashable (catalog : Catalog) : List Value → Bool
  | [] => true
  | item :: rest => isHashable catalog item && areHashable catalog rest

def fieldsHashable (catalog : Catalog) : List (Text × Value) → Bool
  | [] => true
  | (_, value) :: rest => isHashable catalog value && fieldsHashable catalog rest

end

/-- What is new in a set. -/
def distinct (same : Value → Value → Bool) : List Value → List Value → List Value
  | _, [] => []
  | seen, item :: rest =>
      if seen.any fun other => same other item then distinct same seen rest
      else item :: distinct same (seen ++ [item]) rest

/-- `frozenset(items)`. -/
def frozensetOf (catalog : Catalog) (items : List Value) : Option Value :=
  if areHashable catalog items then some (.frozenset (distinct catalog.same [] items)) else none

/-- `cls(**arguments)`. -/
def RecordType.construct (known : RecordType) (type : Text) (arguments : List (Text × Value)) :
    Option Value :=
  if arguments.all fun argument => decide (argument.1 ∈ known.fields.map Prod.fst) then do
    let fields ← known.fields.mapM fun parameter => do
      return (parameter.1, ← (lookup parameter.1 arguments).or parameter.2)
    return .record type fields
  else none

/-- `cls(value)`. -/
def member (members : List Text) (type : Text) : Option Json → Option Value
  | some (.str value) => if value ∈ members then some (.enum type value) else none
  | _ => none

mutual

/-- `none` is an exception. -/
def decode (catalog : Catalog) : Json → Option Value
  | .arr items => do return .list (← decodeItems catalog items)
  | .obj fields =>
      match lookup (lit "$type") fields with
      | none | some .null => do return .dict (← decodeFields catalog fields)
      | some (.str tag) =>
          if tag = lit "dict" then do return .dict (← decodeObjectAt catalog (lit "items") fields)
          else if tag = lit "tuple" then do
            return .tuple (← decodeArrayAt catalog (lit "items") fields)
          else if tag = lit "frozenset" then do
            frozensetOf catalog (← decodeArrayAt catalog (lit "items") fields)
          else
            match catalog.types tag with
            | some (.enum members) => member members tag (lookup (lit "value") fields)
            | some (.record known) => do
                known.construct tag (← decodeObjectAt catalog (lit "fields") fields)
            | none => none
      | some _ => none
  | .null => some .null
  | .bool value => some (.bool value)
  | .int value => some (.int value)
  | .float value => some (.float value)
  | .str value => some (.str value)

def decodeItems (catalog : Catalog) : List Json → Option (List Value)
  | [] => some []
  | item :: rest => do return (← decode catalog item) :: (← decodeItems catalog rest)

def decodeFields (catalog : Catalog) : List (Text × Json) → Option (List (Text × Value))
  | [] => some []
  | (key, value) :: rest => do
      return (key, ← decode catalog value) :: (← decodeFields catalog rest)

/-- The list under a key. -/
def decodeArrayAt (catalog : Catalog) (key : Text) : List (Text × Json) → Option (List Value)
  | [] => none
  | (name, .arr items) :: rest =>
      if name = key then decodeItems catalog items else decodeArrayAt catalog key rest
  | (name, _) :: rest => if name = key then none else decodeArrayAt catalog key rest

/-- The dictionary under a key. -/
def decodeObjectAt (catalog : Catalog) (key : Text) :
    List (Text × Json) → Option (List (Text × Value))
  | [] => none
  | (name, .obj fields) :: rest =>
      if name = key then decodeFields catalog fields else decodeObjectAt catalog key rest
  | (name, _) :: rest => if name = key then none else decodeObjectAt catalog key rest

end

/-! ## The client's `decode` -/

/-- Data in the client, with numbers as the wire has them; an object made from a record
carries the name of its type. -/
inductive ClientValue where
  | null
  | boolean (value : Bool)
  | integer (value : ℤ)
  | number (value : PyJson.Float)
  | string (value : Text)
  | array (items : List ClientValue)
  | object (fields : List (Text × ClientValue)) (recordType : Option Text)

mutual

/-- A value that the decoder passes on. -/
def ClientValue.ofJson : Json → ClientValue
  | .null => .null
  | .bool value => .boolean value
  | .int value => .integer value
  | .float value => .number value
  | .str value => .string value
  | .arr items => .array (ofJsonItems items)
  | .obj fields => .object (ofJsonFields fields) none

def ClientValue.ofJsonItems : List Json → List ClientValue
  | [] => []
  | item :: rest => ofJson item :: ofJsonItems rest

def ClientValue.ofJsonFields : List (Text × Json) → List (Text × ClientValue)
  | [] => []
  | (key, value) :: rest => (key, ofJson value) :: ofJsonFields rest

end

/-- `Object.defineProperty(value, recordType, ...)`. -/
def ClientValue.withType (tag : Text) : ClientValue → Option ClientValue
  | .object fields _ => some (.object fields (some tag))
  | _ => none

mutual

/-- `none` where the decoder meets content of another kind than the tag says. -/
def decodeClient : Json → Option ClientValue
  | .arr items => do return .array (← decodeClientItems items)
  | .obj fields =>
      match lookup (lit "$type") fields with
      | some (.str tag) =>
          if tag = lit "tuple" ∨ tag = lit "frozenset" then do
            return .array (← decodeClientArrayAt (lit "items") fields)
          else if tag = lit "dict" then do
            return .object (← decodeClientObjectAt (lit "items") fields) none
          else
            match lookup (lit "value") fields with
            | some value => some (.ofJson value)
            | none => do (← decodeClientAt (lit "fields") fields).withType tag
      | _ => do return .object (← decodeClientFields fields) none
  | scalar => some (.ofJson scalar)

def decodeClientItems : List Json → Option (List ClientValue)
  | [] => some []
  | item :: rest => do return (← decodeClient item) :: (← decodeClientItems rest)

def decodeClientFields : List (Text × Json) → Option (List (Text × ClientValue))
  | [] => some []
  | (key, value) :: rest => do
      return (key, ← decodeClient value) :: (← decodeClientFields rest)

def decodeClientArrayAt (key : Text) : List (Text × Json) → Option (List ClientValue)
  | [] => none
  | (name, .arr items) :: rest =>
      if name = key then decodeClientItems items else decodeClientArrayAt key rest
  | (name, _) :: rest => if name = key then none else decodeClientArrayAt key rest

def decodeClientObjectAt (key : Text) : List (Text × Json) → Option (List (Text × ClientValue))
  | [] => none
  | (name, .obj fields) :: rest =>
      if name = key then decodeClientFields fields else decodeClientObjectAt key rest
  | (name, _) :: rest => if name = key then none else decodeClientObjectAt key rest

def decodeClientAt (key : Text) : List (Text × Json) → Option ClientValue
  | [] => none
  | (name, value) :: rest => if name = key then decodeClient value else decodeClientAt key rest

end

end ReuleauxCoder.Rpc.Codec
