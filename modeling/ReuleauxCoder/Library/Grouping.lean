import ReuleauxCoder.Library.Json

/-!
# Grouping a log by key

A dictionary is filled from a log with `setdefault`: the first item of a key
creates the entry and every item of the key is added to it.  The dictionary
lists the keys in the order of their first items, and the entry of a key depends
on the items of that key alone.
-/

namespace Grouping

open PyText PyJson
open List hiding lookup

variable {Item Value Rank : Type*} (key : Item → Text) (start : Item → Value)
  (add : Value → Item → Value)

/-- `entry = entries.setdefault(key(item), start(item))`, then `item` is added
to the entry. -/
def put (entries : List (Text × Value)) (item : Item) : List (Text × Value) :=
  store (key item) (add ((lookup (key item) entries).getD (start item)) item) entries

def collect (items : List Item) : List (Text × Value) :=
  items.foldl (put key start add) []

/-- The entry that the items of one key build up. -/
def entry : List Item → Option Value
  | [] => none
  | first :: rest => some (rest.foldl add (add (start first) first))

def keys (items : List Item) : List Text :=
  (collect key start add items).map Prod.fst

theorem collect_concat (items : List Item) (item : Item) :
    collect key start add (items ++ [item]) =
      put key start add (collect key start add items) item := by
  simp [collect]

theorem entry_concat (items : List Item) (item : Item) :
    entry start add (items ++ [item]) =
      some (add ((entry start add items).getD (start item)) item) := by
  cases items with
  | nil => rfl
  | cons first rest => simp [entry]

/-- Storing under a key adds the key at the end, unless it is there. -/
theorem map_fst_store {α : Type*} (name : Text) (value : α) (fields : List (Text × α)) :
    (store name value fields).map Prod.fst =
      if name ∈ fields.map Prod.fst then fields.map Prod.fst
      else fields.map Prod.fst ++ [name] := by
  induction fields with
  | nil => simp [store]
  | cons field rest ih =>
      obtain ⟨other, old⟩ := field
      by_cases hname : other = name
      · simp [store, hname]
      · have hne : name ≠ other := fun heq => hname heq.symm
        by_cases hmem : name ∈ rest.map Prod.fst
        · simp only [store, if_neg hname, map_cons, ih, if_pos hmem,
            if_pos (mem_cons_of_mem other hmem)]
        · have hcons : name ∉ other :: rest.map Prod.fst := by
            rw [mem_cons]
            rintro (heq | hrest)
            · exact hne heq
            · exact hmem hrest
          simp only [store, if_neg hname, map_cons, ih, if_neg hmem, if_neg hcons,
            cons_append]

theorem keys_concat (items : List Item) (item : Item) :
    keys key start add (items ++ [item]) =
      if key item ∈ keys key start add items then keys key start add items
      else keys key start add items ++ [key item] := by
  rw [keys, collect_concat, put, map_fst_store]
  rfl

theorem mem_keys {items : List Item} {name : Text} :
    name ∈ keys key start add items ↔ ∃ item ∈ items, key item = name := by
  induction items using List.reverseRecOn with
  | nil => simp [keys, collect]
  | append_singleton items item ih =>
      have hstore : name ∈ keys key start add (items ++ [item]) ↔
          name = key item ∨ name ∈ keys key start add items := by
        rw [keys, collect_concat]
        exact mem_keys_store
      rw [hstore, ih]
      simp [or_and_right, exists_or, or_comm, eq_comm]

theorem nodup_keys (items : List Item) : (keys key start add items).Nodup := by
  induction items using List.reverseRecOn with
  | nil => exact nodup_nil
  | append_singleton items item ih =>
      rw [keys, collect_concat]
      exact nodup_keys_store _ _ ih

/-- The entry of a key is built from the items of that key. -/
theorem lookup_collect (items : List Item) (name : Text) :
    lookup name (collect key start add items) =
      entry start add (items.filter fun item => key item = name) := by
  induction items using List.reverseRecOn with
  | nil => rfl
  | append_singleton items item ih =>
      rw [collect_concat, put, filter_append]
      by_cases hname : key item = name
      · subst hname
        simp [entry_concat, ih]
      · rw [lookup_store_of_ne (fun heq => hname heq.symm), ih]
        simp [hname]

/-- Items with new and distinct keys add their keys in order. -/
theorem keys_append (items more : List Item) (hnodup : (more.map key).Nodup) :
    keys key start add (items ++ more) =
      keys key start add items ++
        (more.map key).filter fun name => name ∉ keys key start add items := by
  induction more using List.reverseRecOn with
  | nil => simp
  | append_singleton more item ih =>
      rw [map_append, nodup_append] at hnodup
      obtain ⟨hmore, -, hdisjoint⟩ := hnodup
      have hfresh : key item ∉ more.map key := by
        intro hmem
        exact hdisjoint _ hmem _ (by simp) rfl
      rw [← append_assoc, keys_concat, ih hmore]
      by_cases hmem : key item ∈ keys key start add items
      · rw [if_pos (mem_append_left _ hmem)]
        simp [hmem]
      · rw [if_neg]
        · simp [hmem]
        · rw [mem_append, mem_filter]
          rintro (hold | hnew)
          · exact hmem hold
          · exact hfresh hnew.1

/-- Leaving out the items of some keys leaves out those keys. -/
theorem keys_filter (keep : Text → Bool) (items : List Item) :
    keys key start add (items.filter fun item => keep (key item)) =
      (keys key start add items).filter keep := by
  induction items using List.reverseRecOn with
  | nil => rfl
  | append_singleton items item ih =>
      rw [filter_append, keys_concat]
      by_cases hkeep : keep (key item) = true
      · have hlast : ([item].filter fun item => keep (key item)) = [item] := by
          simp [hkeep]
        rw [hlast, keys_concat, ih]
        by_cases hmem : key item ∈ keys key start add items
        · rw [if_pos hmem, if_pos (mem_filter.mpr ⟨hmem, hkeep⟩)]
        · rw [if_neg hmem, if_neg fun h => hmem (mem_filter.mp h).1]
          simp [hkeep]
      · have hlast : ([item].filter fun item => keep (key item)) = [] := by
          simp [hkeep]
        rw [hlast, append_nil, ih]
        by_cases hmem : key item ∈ keys key start add items
        · rw [if_pos hmem]
        · rw [if_neg hmem]
          simp [hkeep]

/-- A rank that an entry takes from its first item is listed in the items' order. -/
theorem sublist_rank (rankOf : Value → Rank) (rank : Item → Rank)
    (hstart : ∀ item, rankOf (start item) = rank item)
    (hadd : ∀ value item, rankOf (add value item) = rankOf value) (items : List Item) :
    ((collect key start add items).map fun field => rankOf field.2).Sublist
      (items.map rank) := by
  have hstore : ∀ (name : Text) (item : Item) (entries : List (Text × Value)),
      (store name (add ((lookup name entries).getD (start item)) item) entries).map
          (fun field => rankOf field.2) =
        entries.map (fun field => rankOf field.2) ∨
      (store name (add ((lookup name entries).getD (start item)) item) entries).map
          (fun field => rankOf field.2) =
        entries.map (fun field => rankOf field.2) ++ [rank item] := by
    intro name item entries
    induction entries with
    | nil =>
        right
        simp [store, hadd, hstart]
    | cons field rest ih =>
        obtain ⟨other, value⟩ := field
        by_cases hname : other = name
        · left
          simp [store, lookup, hname, hadd]
        · simp only [store, lookup, if_neg hname, map_cons]
          rcases ih with hsame | hnew
          · left
            rw [hsame]
          · right
            rw [hnew, cons_append]
  induction items using List.reverseRecOn with
  | nil => exact List.Sublist.refl _
  | append_singleton items item ih =>
      rw [collect_concat, put, map_append]
      rcases hstore (key item) item (collect key start add items) with hsame | hnew
      · rw [hsame]
        exact ih.trans (sublist_append_left _ _)
      · rw [hnew]
        exact ih.append (List.Sublist.refl _)

/-- Among items with distinct keys, a key selects one item. -/
theorem filter_key_eq_singleton {items : List Item} (hnodup : (items.map key).Nodup)
    {item : Item} (hmem : item ∈ items) :
    (items.filter fun other => key other = key item) = [item] := by
  induction items with
  | nil => simp at hmem
  | cons head rest ih =>
      rw [map_cons, nodup_cons] at hnodup
      rcases mem_cons.mp hmem with rfl | hrest
      · have hnone : (rest.filter fun other => key other = key item) = [] := by
          rw [filter_eq_nil_iff]
          intro other hother
          simp only [decide_eq_true_eq]
          intro heq
          exact hnodup.1 (heq ▸ mem_map_of_mem hother)
        simp [hnone]
      · have hne : key head ≠ key item := by
          intro heq
          exact hnodup.1 (heq ▸ mem_map_of_mem hrest)
        simp [hne, ih hnodup.2 hrest]

/-- A dictionary is determined by its keys and what it holds under them. -/
theorem eq_map_of_lookup {entries : List (Text × Value)} (value : Text → Value)
    (hnodup : (entries.map Prod.fst).Nodup)
    (hlookup : ∀ name ∈ entries.map Prod.fst, lookup name entries = some (value name)) :
    entries = (entries.map Prod.fst).map fun name => (name, value name) := by
  rw [map_map]
  conv_lhs => rw [← map_id entries]
  apply map_congr_left
  intro field hfield
  have hname := hlookup field.1 (mem_map_of_mem hfield)
  rw [lookup_eq_some_of_mem hnodup hfield, Option.some.injEq] at hname
  exact Prod.ext rfl hname

end Grouping
