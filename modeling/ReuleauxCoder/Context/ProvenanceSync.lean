import ReuleauxCoder.Context.Provenance

/-!
# A kept index is a fresh one

Whatever happened to the events between two calls, `_sync` leaves the index that a fresh one would
build from the events of the call: it goes on where its own events are the first of them, and
starts again everywhere else.
-/

namespace ReuleauxCoder.Context.ItemProvenanceIndex

open PyText PyJson
open History (HistoryEvent)

variable {Reference : Type} [DecidableEq Reference] (normalizer : Normalizer)
  (hash : Text → Text) (read : Reference → HistoryEvent)

/-! ## The invariant -/

/-- An index that holds what its events give from the start. -/
def Current (index : ItemProvenanceIndex Reference) : Prop :=
  extend normalizer hash read {} index.events = some index

omit [DecidableEq Reference] in
theorem current_empty : Current normalizer hash read ({} : ItemProvenanceIndex Reference) := rfl

variable {index : ItemProvenanceIndex Reference}

omit [DecidableEq Reference] in
theorem events_extend {extended : ItemProvenanceIndex Reference} {fresh : List Reference}
    (hextended : index.extend normalizer hash read fresh = some extended) :
    extended.events = index.events ++ fresh := by
  rw [extend] at hextended
  obtain ⟨messages, -, hview⟩ := Option.bind_eq_some_iff.mp hextended
  cases hfind : (fresh.map read).reverse.find? isView with
  | none =>
      rw [hfind] at hview
      cases hview
      rfl
  | some view =>
      rw [hfind] at hview
      obtain ⟨hashes, -, hsame⟩ := Option.bind_eq_some_iff.mp hview
      cases hsame
      rfl

omit [DecidableEq Reference] in
/-- Going on from the index of some events gives the index of all of them. -/
theorem extend_append (hcurrent : Current normalizer hash read index) (fresh : List Reference) :
    index.extend normalizer hash read fresh =
      extend normalizer hash read {} (index.events ++ fresh) := by
  obtain ⟨events, messages, hashes, source⟩ := index
  rw [Current, extend] at hcurrent
  obtain ⟨indexed, hindexed, hview⟩ := Option.bind_eq_some_iff.mp hcurrent
  -- The last view of all events is the last one of the new events, where there is one.
  rw [extend, extend, List.map_append, List.foldlM_append, hindexed, List.reverse_append,
    List.find?_append]
  cases hfind : (events.map read).reverse.find? isView with
  | none =>
      rw [hfind] at hview
      cases hview
      cases (fresh.map read).reverse.find? isView with
      | none => rfl
      | some view => rfl
  | some view =>
      rw [hfind] at hview
      obtain ⟨found, hfound, hsame⟩ := Option.bind_eq_some_iff.mp hview
      cases hsame
      cases (fresh.map read).reverse.find? isView with
      | none => simp [hfound]
      | some later => rfl

/-! ## Synchronizing -/

/-- `_sync` builds the index of the current events, or raises as a fresh index does. -/
theorem sync_eq_extend (hcurrent : Current normalizer hash read index) (events : List Reference) :
    index.sync normalizer hash read events = extend normalizer hash read {} events := by
  rw [sync]
  split
  · rename_i hbegins
    obtain ⟨fresh, rfl⟩ := List.isPrefixOf_iff_prefix.mp hbegins
    rw [List.drop_left, extend_append normalizer hash read hcurrent]
  · rfl

omit [DecidableEq Reference] in
theorem current_extend {events : List Reference}
    (hextended : extend normalizer hash read {} events = some index) :
    Current normalizer hash read index := by
  have hevents := events_extend normalizer hash read hextended
  rw [List.nil_append] at hevents
  rw [Current, hevents, hextended]

theorem align_eq_fresh (hcurrent : Current normalizer hash read index) (items : List Dict)
    (events : List Reference) (fallbackEventId : Option Text) :
    index.align normalizer hash read items events fallbackEventId =
      align normalizer hash read {} items events fallbackEventId := by
  rw [align, align, sync_eq_extend normalizer hash read hcurrent,
    sync_eq_extend normalizer hash read (current_empty normalizer hash read)]

theorem current_align (hcurrent : Current normalizer hash read index) (items : List Dict)
    (events : List Reference) (fallbackEventId : Option Text) :
    Current normalizer hash read
      (index.align normalizer hash read items events fallbackEventId).2 := by
  rw [align, sync_eq_extend normalizer hash read hcurrent]
  cases hsync : extend normalizer hash read {} events with
  | none => exact current_empty normalizer hash read
  | some synced => exact current_extend normalizer hash read hsync

/-! ## Runs -/

/-- One call of `align`, with the events of the ledger at its time. -/
structure Call (Reference : Type) where
  items : List Dict
  events : List Reference
  fallbackEventId : Option Text

/-- The results of calls of one index, and the index that they leave. -/
def alignAll (index : ItemProvenanceIndex Reference) :
    List (Call Reference) → List (Option (List Dict)) × ItemProvenanceIndex Reference
  | [] => ([], index)
  | call :: rest =>
      let aligned := index.align normalizer hash read call.items call.events call.fallbackEventId
      let others := alignAll aligned.2 rest
      (aligned.1 :: others.1, others.2)

theorem current_alignAll (hcurrent : Current normalizer hash read index)
    (calls : List (Call Reference)) :
    Current normalizer hash read (index.alignAll normalizer hash read calls).2 := by
  induction calls generalizing index with
  | nil => exact hcurrent
  | cons call rest ih => exact ih (current_align normalizer hash read hcurrent _ _ _)

theorem alignAll_of_current (hcurrent : Current normalizer hash read index)
    (calls : List (Call Reference)) :
    (index.alignAll normalizer hash read calls).1 = calls.map fun call =>
      (align normalizer hash read {} call.items call.events call.fallbackEventId).1 := by
  induction calls generalizing index with
  | nil => rfl
  | cons call rest ih =>
      rw [alignAll, List.map_cons, ih (current_align normalizer hash read hcurrent _ _ _),
        align_eq_fresh normalizer hash read hcurrent]

/-- Every call of one index returns or raises what a fresh index does: by induction on the calls,
each of which leaves the index current. -/
theorem alignAll_rebuilds (calls : List (Call Reference)) :
    (alignAll normalizer hash read {} calls).1 = calls.map fun call =>
      (align normalizer hash read {} call.items call.events call.fallbackEventId).1 :=
  alignAll_of_current normalizer hash read (current_empty normalizer hash read) calls

end ReuleauxCoder.Context.ItemProvenanceIndex
