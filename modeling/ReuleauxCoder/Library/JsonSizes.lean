import ReuleauxCoder.Library.JsonRoundTrip

/-!
# Sizes of encoded JSON

How many bytes a value takes as compact JSON in UTF-8, escapes included.  A text inside
an object adds the bytes of its escaped characters, whatever is around it, so a longer
text never makes the object smaller.  Lone surrogates have no encoding at all.
-/

namespace PyJson

open PyText List

/-! ## Text that can be encoded -/

variable {text left right : Text}

theorem utf8Encodable_iff : utf8Encodable text = true ↔ ∀ c ∈ text, isSurrogate c = false := by
  simp [utf8Encodable]

@[simp]
theorem utf8Encodable_append :
    utf8Encodable (left ++ right) = (utf8Encodable left && utf8Encodable right) :=
  all_append

theorem utf8Encodable_decimal (value : ℕ) : utf8Encodable (decimal value) = true := by
  rw [utf8Encodable_iff]
  intro c hc
  have hdigit := isDigit_decimal value hc
  rw [isDigit, Bool.and_eq_true, decide_eq_true_iff, decide_eq_true_iff] at hdigit
  rw [isSurrogate, decide_eq_false (by omega), Bool.false_and]

theorem utf8Encodable_intText (value : ℤ) : utf8Encodable (intText value) = true := by
  have hdecimal := utf8Encodable_decimal value.natAbs
  rw [intText]
  split
  · rw [utf8Encodable, all_cons, ← utf8Encodable, hdecimal]
    decide
  · exact hdecimal

theorem isSurrogate_hexDigit {value : ℕ} (hvalue : value < 16) :
    isSurrogate (hexDigit value) = false := by
  have hall : ∀ value < 16, isSurrogate (hexDigit value) = false := by decide
  exact hall value hvalue

theorem utf8Encodable_escape {c : CodePoint} (hc : isSurrogate c = false) :
    utf8Encodable (escape c) = true := by
  rw [escape]
  iterate 7
    split
    · decide
  split
  next hcontrol =>
    have hhigh := isSurrogate_hexDigit (show c.val / 16 < 16 by omega)
    have hlow := isSurrogate_hexDigit (show c.val % 16 < 16 by omega)
    rw [utf8Encodable_append]
    simp only [utf8Encodable, all_cons, all_nil, hhigh, hlow]
    decide
  next => simp [utf8Encodable, hc]

/-- Escapes leave lone surrogates as they are. -/
theorem mem_escape_of_isSurrogate {c : CodePoint} (hc : isSurrogate c = true) :
    c ∈ escape c := by
  simp only [isSurrogate, Bool.and_eq_true, decide_eq_true_eq] at hc
  have hplain : escape c = [c] := by
    rw [escape]
    iterate 7
      split
      next heq =>
        rw [heq] at hc
        exact absurd hc.1 (by decide)
    rw [if_neg (by omega)]
  rw [hplain]
  exact mem_singleton_self c

theorem utf8Encodable_escapeAll (text : Text) :
    utf8Encodable (escapeAll text) = utf8Encodable text := by
  rw [Bool.eq_iff_iff, utf8Encodable_iff, utf8Encodable_iff]
  constructor
  · intro hescaped c hc
    by_contra hsurrogate
    rw [Bool.not_eq_false] at hsurrogate
    have hmem : c ∈ escapeAll text :=
      mem_flatMap.mpr ⟨c, hc, mem_escape_of_isSurrogate hsurrogate⟩
    rw [hescaped c hmem] at hsurrogate
    exact Bool.false_ne_true hsurrogate
  · intro htext c hc
    obtain ⟨d, hd, hmem⟩ := mem_flatMap.mp hc
    exact utf8Encodable_iff.mp (utf8Encodable_escape (htext d hd)) c hmem

theorem utf8Encodable_quoted (htext : utf8Encodable text = true) :
    utf8Encodable (quoted text) = true := by
  rw [quoted, utf8Encodable, all_cons, all_append, ← utf8Encodable,
    utf8Encodable_escapeAll, htext]
  decide

@[simp]
theorem utf8Size_append (left right : Text) :
    utf8Size (left ++ right) = utf8Size left + utf8Size right := by
  simp [utf8Size]

theorem length_le_utf8Size (text : Text) : text.length ≤ utf8Size text := by
  induction text with
  | nil => exact Nat.zero_le _
  | cons c rest ih =>
      have hc : 1 ≤ utf8Size [c] := by
        simp only [utf8Size, map_cons, map_nil, sum_cons, sum_nil]
        split_ifs <;> omega
      have hcons : utf8Size (c :: rest) = utf8Size [c] + utf8Size rest := by
        rw [← utf8Size_append]
        rfl
      rw [hcons, length_cons]
      omega

/-! ## Bytes of values -/

/-- The bytes of compact JSON. -/
def jsonBytes (value : Json) : ℕ :=
  utf8Size (dumps compact value)

/-- `len(json.dumps(value, ensure_ascii=False, separators=(",", ":")).encode("utf-8"))`,
where the text can be encoded. -/
def encodedSize (value : Json) : Option ℕ :=
  if utf8Encodable (dumps compact value) then some (jsonBytes value) else none

theorem encodedSize_eq_some {value : Json} {size : ℕ} :
    encodedSize value = some size ↔
      utf8Encodable (dumps compact value) = true ∧ jsonBytes value = size := by
  simp [encodedSize]

/-- Storing what is there changes nothing. -/
theorem store_of_lookup_eq_some {α : Type*} {key : Text} {value : α} {fields : List (Text × α)}
    (hlookup : lookup key fields = some value) : store key value fields = fields := by
  induction fields with
  | nil => cases hlookup
  | cons field rest ih =>
      obtain ⟨name, other⟩ := field
      rw [lookup_cons] at hlookup
      by_cases hname : name = key
      · rw [if_pos hname, Option.some.injEq] at hlookup
        rw [store, if_pos hname, hlookup, hname]
      · rw [if_neg hname] at hlookup
        rw [store, if_neg hname, ih hlookup]

/-- The fields of an object, each with a comma before it, are the object but for its ends. -/
theorem dumps_obj_of_fields {fields : List (Text × Json)} {body : Text}
    (hfields : dumpsFields compact fields 0 = ofChar ',' :: body) :
    dumps compact (.obj fields) = ofChar '\x7b' :: (body ++ [ofChar '\x7d']) := by
  cases fields with
  | nil => simp [dumpsFields] at hfields
  | cons field rest =>
      obtain ⟨key, value⟩ := field
      rw [dumpsFields, List.cons.injEq] at hfields
      rw [dumps, dumpsAt, ← hfields.2, dumpsAt_compact, dumpsFields_compact, dumpsAt_compact]
      simp [compact]

theorem dumpsFields_store (key : Text) (fields : List (Text × Json)) :
    ∃ front back, ∀ text, dumpsFields compact (store key (.str text) fields) 0 =
      ofChar ',' :: (front ++ (escapeAll text ++ back)) := by
  induction fields with
  | nil =>
      refine ⟨quoted key ++ [ofChar ':', ofChar '"'], [ofChar '"'], fun text => ?_⟩
      simp [store, dumpsFields, dumpsAt, compact, quoted]
  | cons field rest ih =>
      obtain ⟨name, value⟩ := field
      by_cases hname : name = key
      · refine ⟨quoted name ++ [ofChar ':', ofChar '"'],
          ofChar '"' :: dumpsFields compact rest 0, fun text => ?_⟩
        simp [store, hname, dumpsFields, dumpsAt, compact, quoted]
      · obtain ⟨front, back, hrest⟩ := ih
        refine ⟨quoted name ++ (ofChar ':' :: (dumps compact value ++ (ofChar ',' :: front))),
          back, fun text => ?_⟩
        rw [store, if_neg hname, dumpsFields, hrest, dumpsAt_compact]
        simp [compact]

/-- Where a stored text stands in the JSON of its object. -/
theorem dumps_store (key : Text) (fields : List (Text × Json)) :
    ∃ front back, ∀ text, dumps compact (.obj (store key (.str text) fields)) =
      front ++ (escapeAll text ++ back) := by
  obtain ⟨front, back, hfields⟩ := dumpsFields_store key fields
  refine ⟨ofChar '\x7b' :: front, back ++ [ofChar '\x7d'], fun text => ?_⟩
  rw [dumps_obj_of_fields (hfields text)]
  simp

/-- A longer text makes its object no smaller. -/
theorem jsonBytes_store_mono (key : Text) (fields : List (Text × Json))
    (hle : utf8Size (escapeAll left) ≤ utf8Size (escapeAll right)) :
    jsonBytes (.obj (store key (.str left) fields)) ≤
      jsonBytes (.obj (store key (.str right) fields)) := by
  obtain ⟨front, back, hdumps⟩ := dumps_store key fields
  rw [jsonBytes, jsonBytes, hdumps, hdumps]
  simp only [utf8Size_append]
  omega

theorem length_le_jsonBytes_store (key : Text) (fields : List (Text × Json)) (text : Text) :
    text.length ≤ jsonBytes (.obj (store key (.str text) fields)) := by
  obtain ⟨front, back, hdumps⟩ := dumps_store key fields
  have hescaped := (length_le_escapeAll text).trans (length_le_utf8Size _)
  rw [jsonBytes, hdumps, utf8Size_append, utf8Size_append]
  omega

/-- Replacing a text by one that can be encoded. -/
theorem utf8Encodable_store (key : Text) (fields : List (Text × Json))
    (hleft : utf8Encodable (dumps compact (.obj (store key (.str left) fields))) = true)
    (hright : utf8Encodable right = true) :
    utf8Encodable (dumps compact (.obj (store key (.str right) fields))) = true := by
  obtain ⟨front, back, hdumps⟩ := dumps_store key fields
  rw [hdumps] at hleft ⊢
  simp only [utf8Encodable_append, utf8Encodable_escapeAll, Bool.and_eq_true] at hleft ⊢
  exact ⟨hleft.1, hright, hleft.2.2⟩

theorem utf8Encodable_of_store {key : Text} {fields : List (Text × Json)}
    (hstore : utf8Encodable (dumps compact (.obj (store key (.str text) fields))) = true) :
    utf8Encodable text = true := by
  obtain ⟨front, back, hdumps⟩ := dumps_store key fields
  rw [hdumps] at hstore
  simp only [utf8Encodable_append, utf8Encodable_escapeAll, Bool.and_eq_true] at hstore
  exact hstore.2.1

/-! ## Arrays -/

theorem dumps_arr_of_items {items : List Json} {body : Text}
    (hitems : dumpsItems compact items 0 = ofChar ',' :: body) :
    dumps compact (.arr items) = ofChar '[' :: (body ++ [ofChar ']']) := by
  cases items with
  | nil => simp [dumpsItems] at hitems
  | cons item rest =>
      rw [dumpsItems, List.cons.injEq] at hitems
      rw [dumps, dumpsAt, ← hitems.2, dumpsAt_compact, dumpsItems_compact, dumpsAt_compact]
      simp [compact]

theorem dumpsItems_eq_flatMap (items : List Json) :
    dumpsItems compact items 0 = items.flatMap fun item => ofChar ',' :: dumps compact item := by
  induction items with
  | nil => rfl
  | cons item rest ih =>
      rw [dumpsItems, ih, dumpsAt_compact]
      rfl

/-- An array is its items, with a comma or a bracket after each of them. -/
theorem dumps_arr_cons (item : Json) (rest : List Json) :
    dumps compact (.arr (item :: rest)) = ofChar '[' :: (dumps compact item ++
      (rest.flatMap fun item => ofChar ',' :: dumps compact item) ++ [ofChar ']']) := by
  apply dumps_arr_of_items
  rw [dumpsItems_eq_flatMap, flatMap_cons]
  rfl

theorem utf8Size_flatMap_comma (items : List Json) :
    utf8Size (items.flatMap fun item => ofChar ',' :: dumps compact item) =
      (items.map fun item => jsonBytes item + 1).sum := by
  induction items with
  | nil => rfl
  | cons item rest ih =>
      have hcons : utf8Size (ofChar ',' :: dumps compact item) = jsonBytes item + 1 := by
        have hsplit := utf8Size_append [ofChar ','] (dumps compact item)
        have hcomma : utf8Size [ofChar ','] = 1 := by decide
        rw [singleton_append, hcomma] at hsplit
        rw [hsplit, jsonBytes, Nat.add_comm]
      rw [flatMap_cons, utf8Size_append, ih, hcons, map_cons, sum_cons]

theorem jsonBytes_arr_le (items : List Json) :
    jsonBytes (.arr items) ≤ 2 + (items.map fun item => jsonBytes item + 1).sum := by
  cases items with
  | nil => decide
  | cons item rest =>
      have hsplit : dumps compact (.arr (item :: rest)) = [ofChar '['] ++ (dumps compact item ++
          (rest.flatMap fun item => ofChar ',' :: dumps compact item) ++ [ofChar ']']) :=
        dumps_arr_cons item rest
      have hopen : utf8Size [ofChar '['] = 1 := by decide
      have hclose : utf8Size [ofChar ']'] = 1 := by decide
      rw [jsonBytes, hsplit, utf8Size_append, utf8Size_append, utf8Size_append, hopen, hclose,
        utf8Size_flatMap_comma, map_cons, sum_cons, ← jsonBytes]
      omega

theorem utf8Encodable_arr {items : List Json}
    (hitems : ∀ item ∈ items, utf8Encodable (dumps compact item) = true) :
    utf8Encodable (dumps compact (.arr items)) = true := by
  cases items with
  | nil => decide
  | cons item rest =>
      rw [utf8Encodable_iff]
      intro c hc
      rw [dumps_arr_cons] at hc
      simp only [mem_cons, mem_append, mem_flatMap, not_mem_nil,
        or_false] at hc
      rcases hc with rfl | (hc | ⟨other, hother, rfl | hc⟩) | rfl
      · decide
      · exact utf8Encodable_iff.mp (hitems item (mem_cons_self ..)) c hc
      · decide
      · exact utf8Encodable_iff.mp (hitems other (mem_cons_of_mem _ hother)) c hc
      · decide

end PyJson
