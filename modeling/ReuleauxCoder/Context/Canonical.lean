import ReuleauxCoder.Library.JsonRoundTrip
import ReuleauxCoder.Library.LineBreaks

/-!
# Canonical values

`canonicalize` rewrites the strings of a value, drops the token counts the
runtime attaches to messages and puts the keys of every object in order.  The
string rewriting is a parameter of the traversal here: traversals compose, and
two of them agree on a value exactly when their rewritings agree on its strings.
-/

namespace ReuleauxCoder.Context

open PyText PyJson
open List hiding drop

abbrev Dict := List (Text × Json)

def tokenCountKey : Text := lit "_rc_token_count"

def byKey {α : Type*} (left right : Text × α) : Prop :=
  left.1 ≤ right.1

instance {α : Type*} : DecidableRel (byKey (α := α)) :=
  fun left right => inferInstanceAs (Decidable (left.1 ≤ right.1))

instance {α : Type*} : Std.Total (byKey (α := α)) :=
  ⟨fun left right => le_total left.1 right.1⟩

instance {α : Type*} : IsTrans (Text × α) byKey :=
  ⟨fun _ _ _ hleft hright => le_trans hleft hright⟩

mutual

def rewrite (rewriteText : Text → Text) : Json → Json
  | .str text => .str (rewriteText text)
  | .arr items => .arr (rewriteItems rewriteText items)
  | .obj fields => .obj ((rewriteFields rewriteText fields).insertionSort byKey)
  | .null => .null
  | .bool value => .bool value
  | .int value => .int value
  | .float value => .float value

def rewriteItems (rewriteText : Text → Text) : List Json → List Json
  | [] => []
  | item :: rest => rewrite rewriteText item :: rewriteItems rewriteText rest

def rewriteFields (rewriteText : Text → Text) : Dict → Dict
  | [] => []
  | (key, value) :: rest =>
      if key = tokenCountKey then rewriteFields rewriteText rest
      else (key, rewrite rewriteText value) :: rewriteFields rewriteText rest

end

mutual

/-- The strings a traversal rewrites. -/
def strings : Json → List Text
  | .str text => [text]
  | .arr items => stringsOfItems items
  | .obj fields => stringsOfFields fields
  | .null | .bool _ | .int _ | .float _ => []

def stringsOfItems : List Json → List Text
  | [] => []
  | item :: rest => strings item ++ stringsOfItems rest

def stringsOfFields : Dict → List Text
  | [] => []
  | (key, value) :: rest =>
      if key = tokenCountKey then stringsOfFields rest
      else strings value ++ stringsOfFields rest

end

/-! ## The traversal of lists and objects -/

theorem rewriteItems_eq_map (rewriteText : Text → Text) (items : List Json) :
    rewriteItems rewriteText items = items.map (rewrite rewriteText) := by
  induction items with
  | nil => rfl
  | cons item rest ih => rw [rewriteItems, ih, map_cons]

/-- Rewriting the value under a key. -/
def rewriteField (rewriteText : Text → Text) (field : Text × Json) : Text × Json :=
  (field.1, rewrite rewriteText field.2)

theorem rewriteField_fst (rewriteText : Text → Text) (field : Text × Json) :
    (rewriteField rewriteText field).1 = field.1 := rfl

theorem rewriteFields_eq_map (rewriteText : Text → Text) (fields : Dict) :
    rewriteFields rewriteText fields =
      (drop tokenCountKey fields).map (rewriteField rewriteText) := by
  induction fields with
  | nil => rfl
  | cons field rest ih =>
      rw [rewriteFields, drop]
      split
      · exact ih
      · rw [ih, map_cons]
        rfl

theorem drop_eq_self {α : Type*} {key : Text} {fields : List (Text × α)}
    (hkey : key ∉ fields.map Prod.fst) : drop key fields = fields := by
  induction fields with
  | nil => rfl
  | cons field rest ih =>
      rw [map_cons, mem_cons, not_or] at hkey
      rw [drop, if_neg (Ne.symm hkey.1), ih hkey.2]

theorem notMem_keys_drop {α : Type*} (key : Text) (fields : List (Text × α)) :
    key ∉ (drop key fields).map Prod.fst := by
  induction fields with
  | nil => simp [drop]
  | cons field rest ih =>
      rw [drop]
      split
      · exact ih
      · rename_i hne
        rw [map_cons, mem_cons, not_or]
        exact ⟨Ne.symm hne, ih⟩

theorem map_fst_rewriteField (rewriteText : Text → Text) (fields : Dict) :
    (fields.map (rewriteField rewriteText)).map Prod.fst = fields.map Prod.fst := by
  rw [map_map]
  rfl

/-- Sorting by key commutes with anything that keeps the keys. -/
theorem map_insertionSort_byKey {α β : Type*} (change : Text × α → Text × β)
    (hkey : ∀ entry, (change entry).1 = entry.1) (entries : List (Text × α)) :
    (entries.insertionSort byKey).map change = (entries.map change).insertionSort byKey := by
  apply map_insertionSort
  intro left _ right _
  rw [byKey, byKey, hkey, hkey]

theorem insertionSort_idem {α : Type*} (entries : List (Text × α)) :
    (entries.insertionSort byKey).insertionSort byKey = entries.insertionSort byKey :=
  (pairwise_insertionSort byKey entries).insertionSort_eq

theorem notMem_keys_sorted (rewriteText : Text → Text) (fields : Dict) :
    tokenCountKey ∉ ((rewriteFields rewriteText fields).insertionSort byKey).map Prod.fst := by
  intro hmem
  have hperm := (perm_insertionSort byKey (rewriteFields rewriteText fields)).map Prod.fst
  rw [hperm.mem_iff, rewriteFields_eq_map, map_fst_rewriteField] at hmem
  exact notMem_keys_drop tokenCountKey fields hmem

/-! ## Composition -/

mutual

theorem rewrite_rewrite (outer inner : Text → Text) (value : Json) :
    rewrite outer (rewrite inner value) = rewrite (outer ∘ inner) value := by
  match value with
  | .null | .bool _ | .int _ | .float _ | .str _ => simp [rewrite]
  | .arr items =>
      rw [rewrite, rewrite, rewrite, rewriteItems_rewriteItems]
  | .obj fields =>
      rw [rewrite, rewrite, rewrite, rewriteFields_eq_map outer,
        drop_eq_self (notMem_keys_sorted inner fields),
        map_insertionSort_byKey _ (rewriteField_fst outer), insertionSort_idem,
        map_rewriteFields outer inner fields]

theorem rewriteItems_rewriteItems (outer inner : Text → Text) (items : List Json) :
    rewriteItems outer (rewriteItems inner items) = rewriteItems (outer ∘ inner) items := by
  match items with
  | [] => rfl
  | item :: rest =>
      rw [rewriteItems, rewriteItems, rewriteItems, rewrite_rewrite outer inner item,
        rewriteItems_rewriteItems outer inner rest]

theorem map_rewriteFields (outer inner : Text → Text) (fields : Dict) :
    (rewriteFields inner fields).map (rewriteField outer) =
      rewriteFields (outer ∘ inner) fields := by
  match fields with
  | [] => rfl
  | (key, value) :: rest =>
      rw [rewriteFields, rewriteFields]
      split
      · exact map_rewriteFields outer inner rest
      · rw [map_cons, map_rewriteFields outer inner rest, rewriteField,
          rewrite_rewrite outer inner value]

end

theorem rewrite_iterate (rewriteText : Text → Text) (rounds : ℕ) (value : Json) :
    (rewrite rewriteText)^[rounds] (rewrite rewriteText value) =
      rewrite (rewriteText^[rounds + 1]) value := by
  induction rounds with
  | zero => rfl
  | succ rounds ih =>
      rw [Function.iterate_succ_apply', ih, rewrite_rewrite, ← Function.iterate_succ']

/-! ## Agreement -/

/-- Two changes of the values of one list of entries agree after sorting exactly
when they agree on every entry. -/
theorem sorted_map_eq_iff {α β : Type*} (left right : Text × α → Text × β)
    (hleft : ∀ entry, (left entry).1 = entry.1) (hright : ∀ entry, (right entry).1 = entry.1)
    (entries : List (Text × α)) :
    (entries.map left).insertionSort byKey = (entries.map right).insertionSort byKey ↔
      ∀ entry ∈ entries, left entry = right entry := by
  rw [← map_insertionSort_byKey left hleft, ← map_insertionSort_byKey right hright,
    map_inj_left]
  simp only [mem_insertionSort]

mutual

/-- Two rewritings agree on a value exactly when they agree on its strings. -/
theorem rewrite_eq_iff (left right : Text → Text) (value : Json) :
    rewrite left value = rewrite right value ↔
      ∀ text ∈ strings value, left text = right text := by
  match value with
  | .null | .bool _ | .int _ | .float _ | .str _ => simp [rewrite, strings]
  | .arr items =>
      rw [rewrite, rewrite, strings, Json.arr.injEq, rewriteItems_eq_iff left right items]
  | .obj fields =>
      rw [rewrite, rewrite, strings, Json.obj.injEq, rewriteFields_eq_map, rewriteFields_eq_map,
        sorted_map_eq_iff _ _ (rewriteField_fst left) (rewriteField_fst right),
        ← map_inj_left,
        ← rewriteFields_eq_map, ← rewriteFields_eq_map, rewriteFields_eq_iff left right fields]

theorem rewriteItems_eq_iff (left right : Text → Text) (items : List Json) :
    rewriteItems left items = rewriteItems right items ↔
      ∀ text ∈ stringsOfItems items, left text = right text := by
  match items with
  | [] => simp [rewriteItems, stringsOfItems]
  | item :: rest =>
      rw [rewriteItems, rewriteItems, List.cons.injEq, rewrite_eq_iff left right item,
        rewriteItems_eq_iff left right rest, stringsOfItems, forall_mem_append]

theorem rewriteFields_eq_iff (left right : Text → Text) (fields : Dict) :
    rewriteFields left fields = rewriteFields right fields ↔
      ∀ text ∈ stringsOfFields fields, left text = right text := by
  match fields with
  | [] => simp [rewriteFields, stringsOfFields]
  | (key, value) :: rest =>
      rw [rewriteFields, rewriteFields, stringsOfFields]
      split
      · exact rewriteFields_eq_iff left right rest
      · rw [List.cons.injEq, Prod.mk.injEq, rewrite_eq_iff left right value,
          rewriteFields_eq_iff left right rest, forall_mem_append]
        simp

end

/-! ## Order and keys -/

def sortField (field : Text × Json) : Text × Json :=
  (field.1, field.2.sortKeys)

theorem sortField_fst (field : Text × Json) : (sortField field).1 = field.1 := rfl

theorem sortKeysFields_eq_map (fields : Dict) :
    Json.sortKeysFields fields = fields.map sortField := by
  induction fields with
  | nil => rfl
  | cons field rest ih =>
      rw [Json.sortKeysFields, ih]
      rfl

mutual

/-- Canonical objects are sorted already. -/
theorem sortKeys_rewrite (rewriteText : Text → Text) (value : Json) :
    (rewrite rewriteText value).sortKeys = rewrite rewriteText value := by
  match value with
  | .null | .bool _ | .int _ | .float _ | .str _ => simp [rewrite, Json.sortKeys]
  | .arr items => rw [rewrite, Json.sortKeys, sortKeysItems_rewriteItems]
  | .obj fields =>
      rw [rewrite, Json.sortKeys, sortKeysFields_eq_map,
        map_insertionSort_byKey sortField sortField_fst, map_sortField_rewriteFields]
      exact congrArg Json.obj (insertionSort_idem _)

theorem sortKeysItems_rewriteItems (rewriteText : Text → Text) (items : List Json) :
    Json.sortKeysItems (rewriteItems rewriteText items) = rewriteItems rewriteText items := by
  match items with
  | [] => rfl
  | item :: rest =>
      rw [rewriteItems, Json.sortKeysItems, sortKeys_rewrite rewriteText item,
        sortKeysItems_rewriteItems rewriteText rest]

theorem map_sortField_rewriteFields (rewriteText : Text → Text) (fields : Dict) :
    (rewriteFields rewriteText fields).map sortField = rewriteFields rewriteText fields := by
  match fields with
  | [] => rfl
  | (key, value) :: rest =>
      rw [rewriteFields]
      split
      · exact map_sortField_rewriteFields rewriteText rest
      · rw [map_cons, map_sortField_rewriteFields rewriteText rest, sortField,
          sortKeys_rewrite rewriteText value]

end

theorem nodup_keys_rewriteFields {fields : Dict} (hnodup : (fields.map Prod.fst).Nodup)
    (rewriteText : Text → Text) :
    (((rewriteFields rewriteText fields).insertionSort byKey).map Prod.fst).Nodup := by
  have hperm := (perm_insertionSort byKey (rewriteFields rewriteText fields)).map Prod.fst
  rw [hperm.nodup_iff, rewriteFields_eq_map, map_fst_rewriteField]
  exact ((PyJson.drop_sublist tokenCountKey fields).map Prod.fst).nodup hnodup

mutual

theorem wellKeyed_rewrite (rewriteText : Text → Text) {value : Json} (hkeyed : value.WellKeyed) :
    (rewrite rewriteText value).WellKeyed := by
  match value with
  | .null | .bool _ | .int _ | .float _ | .str _ => trivial
  | .arr items => exact wellKeyed_rewriteItems rewriteText hkeyed
  | .obj fields =>
      refine ⟨nodup_keys_rewriteFields hkeyed.1 rewriteText, ?_⟩
      rw [Json.wellKeyedFields_iff]
      intro field hfield
      exact wellKeyed_rewriteFields rewriteText hkeyed.2 field ((mem_insertionSort _).mp hfield)

theorem wellKeyed_rewriteItems (rewriteText : Text → Text) {items : List Json}
    (hkeyed : Json.WellKeyedItems items) :
    Json.WellKeyedItems (rewriteItems rewriteText items) := by
  match items with
  | [] => trivial
  | item :: rest =>
      exact ⟨wellKeyed_rewrite rewriteText hkeyed.1, wellKeyed_rewriteItems rewriteText hkeyed.2⟩

theorem wellKeyed_rewriteFields (rewriteText : Text → Text) {fields : Dict}
    (hkeyed : Json.WellKeyedFields fields) :
    ∀ field ∈ rewriteFields rewriteText fields, field.2.WellKeyed := by
  match fields with
  | [] =>
      intro field hfield
      cases hfield
  | (key, value) :: rest =>
      rw [rewriteFields]
      split
      · exact wellKeyed_rewriteFields rewriteText hkeyed.2
      · intro field hfield
        rcases mem_cons.mp hfield with rfl | hrest
        · exact wellKeyed_rewrite rewriteText hkeyed.1
        · exact wellKeyed_rewriteFields rewriteText hkeyed.2 field hrest

end

/-! ## Canonical JSON -/

/-- `canonicalize`, for the normalization form the runtime uses. -/
def canonicalize (normalizer : Normalizer) (value : Json) : Json :=
  rewrite normalizer.canonicalText value

/-- `canonical_json`: `sort_keys` is applied to the canonical value once more. -/
def canonicalJson (normalizer : Normalizer) (value : Json) : Text :=
  dumps compact (canonicalize normalizer value).sortKeys

/-- `content_hash`, for any hash of the canonical text; `none` when the text has
no UTF-8 encoding. -/
def contentHash (normalizer : Normalizer) (hash : Text → Text) (value : Json) : Option Text :=
  if utf8Encodable (canonicalJson normalizer value) then
    some (hash (canonicalJson normalizer value))
  else none

theorem canonicalJson_eq_iff (normalizer : Normalizer) {left right : Json}
    (hleft : left.WellKeyed) (hright : right.WellKeyed) :
    canonicalJson normalizer left = canonicalJson normalizer right ↔
      canonicalize normalizer left = canonicalize normalizer right := by
  simp only [canonicalJson, canonicalize, sortKeys_rewrite]
  constructor
  · exact dumps_inj compact_blank (wellKeyed_rewrite _ hleft) (wellKeyed_rewrite _ hright)
  · exact congrArg (dumps compact)

/-- Objects with the same keys have the same canonical form exactly when the
values under each key do. -/
theorem canonicalize_obj_eq_iff (normalizer : Normalizer) {entries : List (Text × Json × Json)}
    (hkeys : tokenCountKey ∉ entries.map Prod.fst) :
    canonicalize normalizer (.obj (entries.map fun entry => (entry.1, entry.2.1))) =
        canonicalize normalizer (.obj (entries.map fun entry => (entry.1, entry.2.2))) ↔
      ∀ entry ∈ entries, canonicalize normalizer entry.2.1 = canonicalize normalizer entry.2.2 := by
  have hsame : ∀ change : Text × Json × Json → Text × Json,
      (∀ entry, (change entry).1 = entry.1) →
      drop tokenCountKey (entries.map change) = entries.map change := by
    intro change hchange
    apply drop_eq_self
    rw [map_map, show Prod.fst ∘ change = Prod.fst from funext hchange]
    exact hkeys
  simp only [canonicalize, rewrite, Json.obj.injEq, rewriteFields_eq_map]
  rw [hsame _ (fun _ => rfl), hsame _ (fun _ => rfl), map_map, map_map,
    sorted_map_eq_iff]
  · simp [rewriteField]
  · exact fun _ => rfl
  · exact fun _ => rfl

end ReuleauxCoder.Context
