import ReuleauxCoder.Library.Failing
import ReuleauxCoder.Rpc.CodecRoundTrip
import ReuleauxCoder.Rpc.Message

/-!
# Refused wire values

What the decoder raises for values that no client of ours would send.  The server turns
three kinds of exceptions into an error reply; the shapes that raise another one are those
where `.items()` is called on something that is no object.
-/

namespace ReuleauxCoder.Rpc.Codec

open PyText PyJson Failing

/-! ## `decode` with its exceptions -/

/-- What the constructor of a record may raise. -/
inductive ConstructError where
  | typeError
  | valueError
  deriving DecidableEq

inductive DecodeError where
  | keyError
  | typeError
  | valueError
  | attributeError
  | recursionError
  deriving DecidableEq

def ConstructError.toDecodeError : ConstructError → DecodeError
  | .typeError => .typeError
  | .valueError => .valueError

/-- An entry of `_TYPES`. -/
inductive WireType where
  | enum (members : List Text)
  | record (construct : List (Text × Value) → Except ConstructError Value)

/-- `_TYPES`, and which values have a hash and are equal. -/
structure WireCatalog where
  types : Text → Option WireType
  hashable : Value → Bool
  same : Value → Value → Bool

/-- One call of `decode`: it raises at once, or decodes parts in their order, has the hash of
each taken where they go into a set, and makes a value of them. -/
inductive Call where
  | raises (error : DecodeError)
  | parts (items : List Json) (accepts : Value → Bool)
      (finish : List Value → Except ConstructError Value)

namespace Call

def value (value : Value) : Call :=
  .parts [] (fun _ => true) fun _ => .ok value

/-- `[decode(item) for item in items]`, or a tuple of them. -/
def sequence (items : List Json) (finish : List Value → Value) : Call :=
  .parts items (fun _ => true) fun values => .ok (finish values)

/-- `{key: decode(item) for key, item in fields.items()}`. -/
def mapping (fields : List (Text × Json))
    (finish : List (Text × Value) → Except ConstructError Value) : Call :=
  .parts (fields.map Prod.snd) (fun _ => true) fun values =>
    finish ((fields.map Prod.fst).zip values)

end Call

/-- `value[key]`. -/
def Call.item (key : Text) (fields : List (Text × Json)) (use : Json → Call) : Call :=
  match lookup key fields with
  | some content => use content
  | none => .raises .keyError

/-- `content.items()`. -/
def Call.items (use : List (Text × Json) → Call) : Json → Call
  | .obj fields => use fields
  | _ => .raises .attributeError

/-- `for item in content`. -/
def Call.iterate (use : List Json → Call) : Json → Call
  | .arr items => use items
  | .obj fields => use (fields.map fun entry => .str entry.1)
  | .str text => use (text.map fun c => .str [c])
  | _ => .raises .typeError

/-- What `decode` does with a tagged object. -/
def tagCall (catalog : WireCatalog) (tag : Text) (fields : List (Text × Json)) : Call :=
  if tag = lit "dict" then
    .item (lit "items") fields (.items fun entries => .mapping entries fun data => .ok (.dict data))
  else if tag = lit "tuple" then
    .item (lit "items") fields (.iterate fun items => .sequence items .tuple)
  else if tag = lit "frozenset" then
    .item (lit "items") fields (.iterate fun items =>
      .parts items catalog.hashable fun values =>
        .ok (.frozenset (distinct catalog.same [] values)))
  else
    match catalog.types tag with
    | none => .raises .keyError
    | some (.enum members) =>
        .item (lit "value") fields fun content =>
          match member members tag (some content) with
          | some value => .value value
          | none => .raises .valueError
    | some (.record construct) =>
        .item (lit "fields") fields (.items fun entries => .mapping entries construct)

/-- What one call of `decode` does. -/
def decodeCall (catalog : WireCatalog) : Json → Call
  | .arr items => .sequence items .list
  | .obj fields =>
      match lookup (lit "$type") fields with
      | none | some .null => .mapping fields fun data => .ok (.dict data)
      | some (.str tag) => tagCall catalog tag fields
      -- A tag that has no hash cannot be looked up.
      | some (.arr _) | some (.obj _) => .raises .typeError
      | some _ => .raises .keyError
  | scalar => .value (plain scalar)

/-- A part, with its hash taken where it needs one. -/
def accepted (accepts : Value → Bool) (read : Json → Except DecodeError Value) (item : Json) :
    Except DecodeError Value :=
  (read item).bind fun value => if accepts value then .ok value else .error .typeError

/-- `decode`, where the interpreter allows so many nested calls. -/
def decodeWire (catalog : WireCatalog) : ℕ → Json → Except DecodeError Value
  | 0, _ => .error .recursionError
  | frames + 1, wire =>
      match decodeCall catalog wire with
      | .raises error => .error error
      | .parts items accepts finish =>
          (items.mapM (accepted accepts (decodeWire catalog frames))).bind fun values =>
            (finish values).mapError ConstructError.toDecodeError

/-! ## The server -/

/-- The exceptions that `RuntimeServer._decode` catches. -/
def DecodeError.isCaught : DecodeError → Bool
  | .keyError | .typeError | .valueError => true
  | .attributeError | .recursionError => false

def invalidWireValue : RpcError := ⟨.int (-32602), lit "Invalid wire value", .null⟩

inductive Refusal where
  | rpcError (error : RpcError)
  | raised (error : DecodeError)

/-- `RuntimeServer._decode`. -/
def serverDecode (catalog : WireCatalog) (frames : ℕ) (wire : Json) : Except Refusal Value :=
  match decodeWire catalog frames wire with
  | .ok value => .ok value
  | .error error =>
      if error.isCaught then .error (.rpcError invalidWireValue) else .error (.raised error)

/-! ## Where other exceptions come from -/

/-- The value that a wire value stands for, within so many nested calls. -/
def Reads (catalog : WireCatalog) : ℕ → Json → Value → Prop
  | 0, _, _ => False
  | frames + 1, wire, value =>
      match decodeCall catalog wire with
      | .raises _ => False
      | .parts items accepts finish =>
          ∃ values, List.Forall₂ (fun item part => Reads catalog frames item part ∧
            accepts part = true) items values ∧ finish values = .ok value

/-- An object whose tag asks for entries, under a key where something else stands. -/
def Misplaced (catalog : WireCatalog) (wire : Json) : Prop :=
  ∃ fields tag key content, wire = .obj fields ∧ lookup (lit "$type") fields = some (.str tag) ∧
    lookup key fields = some content ∧ (∀ entries, content ≠ .obj entries) ∧
    (tag = lit "dict" ∧ key = lit "items" ∨
      tag ∉ [lit "dict", lit "tuple", lit "frozenset"] ∧ key = lit "fields" ∧
        ∃ construct, catalog.types tag = some (.record construct))

/-- Going through a wire value in the order of the decoder, one comes to a misplaced part, or
to more nesting than there are calls left, before anything else is refused. -/
def Escapes (catalog : WireCatalog) : ℕ → Json → Prop
  | 0, _ => True
  | frames + 1, wire =>
      Misplaced catalog wire ∨
        ∃ items accepts finish, decodeCall catalog wire = .parts items accepts finish ∧
          ∃ front item rest, items = front ++ item :: rest ∧
            (∀ before ∈ front, ∃ value, Reads catalog frames before value ∧
              accepts value = true) ∧
            Escapes catalog frames item

section Decoding

variable {catalog : WireCatalog}

variable {accepts : Value → Bool} {error : DecodeError}

theorem accepted_eq_ok_iff {read : Json → Except DecodeError Value} {item : Json} {value : Value} :
    accepted accepts read item = .ok value ↔ read item = .ok value ∧ accepts value = true := by
  rw [accepted]
  cases hread : read item with
  | error error => exact iff_of_false (fun hok => nomatch hok) fun hok => nomatch hok.1
  | ok other =>
      cases haccepts : accepts other with
      | false =>
          refine iff_of_false ?_ ?_
          · intro hok
            simp [Except.bind, haccepts] at hok
          · rintro ⟨hsame, htrue⟩
            cases hsame
            rw [haccepts] at htrue
            cases htrue
      | true =>
          simp only [Except.bind, haccepts, if_true]
          refine ⟨fun hok => ⟨hok, ?_⟩, fun hok => hok.1⟩
          cases hok
          exact haccepts

/-- A part that is read and not accepted is an error that the server catches. -/
theorem accepted_eq_error_iff {read : Json → Except DecodeError Value} {item : Json}
    (herror : error.isCaught = false) :
    accepted accepts read item = .error error ↔ read item = .error error := by
  rw [accepted]
  cases hread : read item with
  | error other => exact ⟨fun hsame => by cases hsame; rfl, fun hsame => by cases hsame; rfl⟩
  | ok value =>
      refine iff_of_false ?_ (fun hsame => nomatch hsame)
      intro hsame
      simp only [Except.bind] at hsame
      split at hsame
      · cases hsame
      · cases hsame
        cases herror

theorem isCaught_toDecodeError (error : ConstructError) :
    error.toDecodeError.isCaught = true := by
  cases error <;> rfl

/-! ## One call -/

/-- The call raises at once what the server does not catch. -/
def Call.Uncaught (call : Call) : Prop :=
  ∃ error, call = .raises error ∧ error.isCaught = false

variable {finish : List Value → Except ConstructError Value}

theorem not_uncaught_parts {items : List Json} : ¬ (Call.parts items accepts finish).Uncaught := by
  rintro ⟨error, hraises, -⟩
  cases hraises

theorem not_uncaught_raises (hcaught : error.isCaught = true) :
    ¬ (Call.raises error).Uncaught := by
  rintro ⟨other, hraises, huncaught⟩
  cases hraises
  rw [hcaught] at huncaught
  cases huncaught

theorem uncaught_item_iff {key : Text} {fields : List (Text × Json)} {use : Json → Call} :
    (Call.item key fields use).Uncaught ↔
      ∃ content, lookup key fields = some content ∧ (use content).Uncaught := by
  rw [Call.item]
  cases lookup key fields with
  | none =>
      refine iff_of_false (not_uncaught_raises rfl) ?_
      rintro ⟨content, hnone, -⟩
      cases hnone
  | some content =>
      constructor
      · exact fun huncaught => ⟨content, rfl, huncaught⟩
      · rintro ⟨other, hsame, huncaught⟩
        cases hsame
        exact huncaught

theorem uncaught_items_iff {use : List (Text × Json) → Call} {content : Json}
    (huse : ∀ entries, ¬ (use entries).Uncaught) :
    (Call.items use content).Uncaught ↔ ∀ entries, content ≠ .obj entries := by
  cases content with
  | obj entries => exact iff_of_false (huse entries) fun hnone => hnone entries rfl
  | _ => exact iff_of_true ⟨.attributeError, rfl, rfl⟩ fun entries hsame => nomatch hsame

theorem not_uncaught_iterate {use : List Json → Call} {content : Json}
    (huse : ∀ items, ¬ (use items).Uncaught) : ¬ (Call.iterate use content).Uncaught := by
  cases content with
  | arr items => exact huse items
  | obj fields => exact huse _
  | str text => exact huse _
  | _ => exact not_uncaught_raises rfl

/-- What a tag asks for stands under its key, but is no object. -/
theorem uncaught_tagCall_iff {tag : Text} {fields : List (Text × Json)} :
    (tagCall catalog tag fields).Uncaught ↔
      ∃ key content, lookup key fields = some content ∧ (∀ entries, content ≠ .obj entries) ∧
        (tag = lit "dict" ∧ key = lit "items" ∨
          tag ∉ [lit "dict", lit "tuple", lit "frozenset"] ∧ key = lit "fields" ∧
            ∃ construct, catalog.types tag = some (.record construct)) := by
  have hentries (finish : List (Text × Value) → Except ConstructError Value) (content : Json) :
      (Call.items (fun entries => .mapping entries finish) content).Uncaught ↔
        ∀ entries, content ≠ .obj entries :=
    uncaught_items_iff fun entries => not_uncaught_parts
  have hother {key : Text} (htag : tag ∈ [lit "dict", lit "tuple", lit "frozenset"])
      (hdict : tag ≠ lit "dict") :
      ¬ (tag = lit "dict" ∧ key = lit "items" ∨
        tag ∉ [lit "dict", lit "tuple", lit "frozenset"] ∧ key = lit "fields" ∧
          ∃ construct, catalog.types tag = some (.record construct)) := by
    rintro (⟨hsame, -⟩ | ⟨hnot, -⟩)
    · exact hdict hsame
    · exact hnot htag
  rw [tagCall]
  split
  next hdict =>
    rw [uncaught_item_iff]
    constructor
    · rintro ⟨content, hcontent, huncaught⟩
      exact ⟨_, content, hcontent, (hentries _ content).mp huncaught, .inl ⟨hdict, rfl⟩⟩
    · rintro ⟨key, content, hcontent, hnone, ⟨-, hkey⟩ | ⟨hnot, -⟩⟩
      · exact ⟨content, hkey ▸ hcontent, (hentries _ content).mpr hnone⟩
      · exact absurd (by rw [hdict]; exact List.mem_cons_self) hnot
  next hdict =>
    split
    next htuple =>
      rw [uncaught_item_iff]
      refine iff_of_false ?_ ?_
      · rintro ⟨content, -, huncaught⟩
        exact not_uncaught_iterate (fun items => not_uncaught_parts) huncaught
      · rintro ⟨key, content, -, -, hplace⟩
        exact hother (by simp [htuple]) hdict hplace
    next htuple =>
      split
      next hfrozenset =>
        rw [uncaught_item_iff]
        refine iff_of_false ?_ ?_
        · rintro ⟨content, -, huncaught⟩
          exact not_uncaught_iterate (fun items => not_uncaught_parts) huncaught
        · rintro ⟨key, content, -, -, hplace⟩
          exact hother (by simp [hfrozenset]) hdict hplace
      next hfrozenset =>
        have hnamed : tag ∉ [lit "dict", lit "tuple", lit "frozenset"] := by
          simp [hdict, htuple, hfrozenset]
        cases htype : catalog.types tag with
        | none =>
            refine iff_of_false (not_uncaught_raises rfl) ?_
            rintro ⟨key, content, -, -, ⟨hsame, -⟩ | ⟨-, -, construct, hrecord⟩⟩
            · exact hdict hsame
            · cases hrecord
        | some known =>
            cases known with
            | enum members =>
                rw [uncaught_item_iff]
                refine iff_of_false ?_ ?_
                · rintro ⟨content, -, huncaught⟩
                  cases hmember : member members tag (some content) with
                  | none =>
                      rw [hmember] at huncaught
                      exact not_uncaught_raises rfl huncaught
                  | some value =>
                      rw [hmember] at huncaught
                      exact not_uncaught_parts huncaught
                · rintro ⟨key, content, -, -, ⟨hsame, -⟩ | ⟨-, -, construct, hrecord⟩⟩
                  · exact hdict hsame
                  · cases hrecord
            | record construct =>
                rw [uncaught_item_iff]
                constructor
                · rintro ⟨content, hcontent, huncaught⟩
                  exact ⟨_, content, hcontent, (hentries _ content).mp huncaught,
                    .inr ⟨hnamed, rfl, construct, rfl⟩⟩
                · rintro ⟨key, content, hcontent, hnone, ⟨hsame, -⟩ | ⟨-, hkey, -⟩⟩
                  · exact absurd hsame hdict
                  · exact ⟨content, hkey ▸ hcontent, (hentries _ content).mpr hnone⟩

/-- A call raises what the server does not catch only where something is misplaced. -/
theorem uncaught_decodeCall_iff {wire : Json} :
    (decodeCall catalog wire).Uncaught ↔ Misplaced catalog wire := by
  have hnone (htagged : ∀ fields tag, wire = .obj fields →
      lookup (lit "$type") fields = some (.str tag) → False) : ¬ Misplaced catalog wire := by
    rintro ⟨fields, tag, key, content, hwire, htag, -⟩
    exact htagged fields tag hwire htag
  cases wire with
  | obj fields =>
      rw [decodeCall]
      cases htag : lookup (lit "$type") fields with
      | none =>
          refine iff_of_false not_uncaught_parts (hnone ?_)
          intro others tag hwire hsome
          cases hwire
          rw [htag] at hsome
          cases hsome
      | some content =>
          cases content with
          | str tag =>
              rw [uncaught_tagCall_iff]
              constructor
              · rintro ⟨key, content, hcontent, hnot, hplace⟩
                exact ⟨fields, tag, key, content, rfl, htag, hcontent, hnot, hplace⟩
              · rintro ⟨others, other, key, content, hwire, hsome, hcontent, hnot, hplace⟩
                cases hwire
                rw [htag] at hsome
                cases hsome
                exact ⟨key, content, hcontent, hnot, hplace⟩
          | null =>
              refine iff_of_false not_uncaught_parts (hnone ?_)
              intro others tag hwire hsome
              cases hwire
              rw [htag] at hsome
              cases hsome
          | _ =>
              refine iff_of_false (not_uncaught_raises rfl) (hnone ?_)
              intro others tag hwire hsome
              cases hwire
              rw [htag] at hsome
              cases hsome
  | _ =>
      refine iff_of_false not_uncaught_parts (hnone ?_)
      intro fields tag hwire
      cases hwire

/-! ## Every call -/

theorem bind_mapError_eq_ok_iff {result : Except DecodeError (List Value)} {value : Value} :
    (result.bind fun values => (finish values).mapError ConstructError.toDecodeError) =
        .ok value ↔ ∃ values, result = .ok values ∧ finish values = .ok value := by
  cases result with
  | error error =>
      refine iff_of_false (fun hok => nomatch hok) ?_
      rintro ⟨values, hok, -⟩
      cases hok
  | ok values =>
      simp only [Except.bind]
      constructor
      · intro hok
        refine ⟨values, rfl, ?_⟩
        cases hfinish : finish values with
        | error error =>
            rw [hfinish] at hok
            cases hok
        | ok made =>
            rw [hfinish] at hok
            cases hok
            rfl
      · rintro ⟨others, hsame, hfinish⟩
        cases hsame
        rw [hfinish]
        rfl

/-- The server catches what a constructor raises. -/
theorem bind_mapError_eq_error_iff {result : Except DecodeError (List Value)}
    (herror : error.isCaught = false) :
    (result.bind fun values => (finish values).mapError ConstructError.toDecodeError) =
        .error error ↔ result = .error error := by
  cases result with
  | error other => exact ⟨fun hsame => by cases hsame; rfl, fun hsame => by cases hsame; rfl⟩
  | ok values =>
      refine iff_of_false ?_ fun hsame => nomatch hsame
      intro hsame
      simp only [Except.bind] at hsame
      cases hfinish : finish values with
      | ok made =>
          rw [hfinish] at hsame
          cases hsame
      | error other =>
          rw [hfinish] at hsame
          cases hsame
          rw [isCaught_toDecodeError] at herror
          cases herror

/-- The decoder returns what the wire value stands for. -/
theorem decodeWire_eq_ok_iff (frames : ℕ) (wire : Json) (value : Value) :
    decodeWire catalog frames wire = .ok value ↔ Reads catalog frames wire value := by
  induction frames generalizing wire value with
  | zero => exact iff_of_false (fun hok => nomatch hok) fun hreads => hreads
  | succ frames ih =>
      rw [decodeWire, Reads]
      cases decodeCall catalog wire with
      | raises error => exact iff_of_false (fun hok => nomatch hok) fun hreads => hreads
      | parts items accepts finish =>
          dsimp only
          rw [bind_mapError_eq_ok_iff]
          apply exists_congr
          intro values
          rw [mapM_eq_ok_iff]
          simp only [accepted_eq_ok_iff, ih]

/-- The decoder raises what the server does not catch exactly where the wire value escapes. -/
theorem decodeWire_escapes_iff (frames : ℕ) (wire : Json) :
    (∃ error, decodeWire catalog frames wire = .error error ∧ error.isCaught = false) ↔
      Escapes catalog frames wire := by
  induction frames generalizing wire with
  | zero => exact iff_of_true ⟨.recursionError, rfl, rfl⟩ trivial
  | succ frames ih =>
      rw [Escapes, ← uncaught_decodeCall_iff, decodeWire]
      cases hcall : decodeCall catalog wire with
      | raises error =>
          constructor
          · rintro ⟨other, hsame, huncaught⟩
            cases hsame
            exact .inl ⟨error, rfl, huncaught⟩
          · rintro (⟨other, hraises, huncaught⟩ | ⟨items, accepts, finish, hparts, -⟩)
            · cases hraises
              exact ⟨error, rfl, huncaught⟩
            · cases hparts
      | parts items accepts finish =>
          constructor
          · rintro ⟨error, herror, huncaught⟩
            rw [bind_mapError_eq_error_iff huncaught, mapM_eq_error_iff] at herror
            obtain ⟨front, item, rest, hitems, hfront, hitem⟩ := herror
            rw [accepted_eq_error_iff huncaught] at hitem
            refine .inr ⟨items, accepts, finish, rfl, front, item, rest, hitems, ?_,
              (ih item).mp ⟨error, hitem, huncaught⟩⟩
            intro before hbefore
            obtain ⟨value, hvalue⟩ := hfront before hbefore
            rw [accepted_eq_ok_iff, decodeWire_eq_ok_iff] at hvalue
            exact ⟨value, hvalue⟩
          · rintro (huncaught | ⟨others, checks, made, hparts, front, item, rest, hitems, hfront,
              hitem⟩)
            · exact absurd huncaught not_uncaught_parts
            · cases hparts
              obtain ⟨error, herror, huncaught⟩ := (ih item).mpr hitem
              refine ⟨error, ?_, huncaught⟩
              rw [bind_mapError_eq_error_iff huncaught, mapM_eq_error_iff]
              refine ⟨front, item, rest, hitems, ?_, (accepted_eq_error_iff huncaught).mpr herror⟩
              intro before hbefore
              obtain ⟨value, hvalue, haccepts⟩ := hfront before hbefore
              refine ⟨value, accepted_eq_ok_iff.mpr ⟨?_, haccepts⟩⟩
              exact (decodeWire_eq_ok_iff frames before value).mpr hvalue

/-- The server returns a value or refuses with its error, unless the wire value escapes: by a
misplaced part, or by its nesting. -/
theorem serverDecode_clean_iff (catalog : WireCatalog) (frames : ℕ) (wire : Json) :
    ((∃ value, serverDecode catalog frames wire = .ok value) ∨
        serverDecode catalog frames wire = .error (.rpcError invalidWireValue)) ↔
      ¬ Escapes catalog frames wire := by
  rw [← decodeWire_escapes_iff, serverDecode]
  cases decodeWire catalog frames wire with
  | ok value =>
      refine iff_of_true (.inl ⟨value, rfl⟩) ?_
      rintro ⟨error, herror, -⟩
      cases herror
  | error error =>
      cases hcaught : error.isCaught with
      | true =>
          refine iff_of_true (.inr (by simp only [hcaught, if_true])) ?_
          rintro ⟨other, hsame, huncaught⟩
          cases hsame
          rw [hcaught] at huncaught
          cases huncaught
      | false =>
          refine iff_of_false ?_ fun hnone => hnone ⟨error, rfl, hcaught⟩
          simp [hcaught]

end Decoding

/-- A catalog that registers nothing. -/
def bareCatalog : WireCatalog where
  types := fun _ => none
  hashable := fun _ => true
  same := fun _ _ => false

/-- A dictionary whose items are a number is no error that the server catches. -/
theorem serverDecode_dict_of_number :
    ¬ ((∃ value, serverDecode bareCatalog 100
          (.obj [(lit "$type", .str (lit "dict")), (lit "items", .int 5)]) = .ok value) ∨
        serverDecode bareCatalog 100
          (.obj [(lit "$type", .str (lit "dict")), (lit "items", .int 5)]) =
            .error (.rpcError invalidWireValue)) := by
  have hraised : serverDecode bareCatalog 100
      (.obj [(lit "$type", .str (lit "dict")), (lit "items", .int 5)]) =
        .error (.raised .attributeError) := by
    rfl
  rw [hraised]
  rintro (⟨value, hok⟩ | hrefused)
  · cases hok
  · cases hrefused

end ReuleauxCoder.Rpc.Codec
