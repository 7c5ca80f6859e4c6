import ReuleauxCoder.Context.Canonical
import ReuleauxCoder.History.Ledger

/-!
# Provenance of model items

`ItemProvenanceIndex` keeps the hashes of the messages in a ledger and of the items of its last
context view.  An item of a request is traced to the view while the view's items follow in order,
and otherwise to the newest message with its content that no earlier item was traced to.
-/

namespace ReuleauxCoder.Context

open PyText PyJson
open History (HistoryEvent)

/-- Where an item comes from. -/
structure ProvenanceSource where
  eventId : Text
  artifactRefs : List Text
  checkpointId : Json := .null
  deriving DecidableEq

def ProvenanceSource.toDict (source : ProvenanceSource) : Dict :=
  [(lit "source_event_ids", .arr [.str source.eventId]),
    (lit "artifact_refs", .arr (source.artifactRefs.map Json.str)),
    (lit "checkpoint_id", source.checkpointId)]

/-- The entry of an item without a source. -/
def unattributed (fallbackEventId : Option Text) : Dict :=
  [(lit "source_event_ids",
      .arr ((fallbackEventId.filter fun eventId => eventId ≠ []).map Json.str).toList),
    (lit "artifact_refs", .arr []),
    (lit "checkpoint_id", .null)]

section Hashing

variable (normalizer : Normalizer) (hash : Text → Text)

/-- `_provenance_hash`; `none` where the hash raises. -/
def provenanceHash (message : Dict) : Option Text :=
  contentHash normalizer hash
    (.obj (message.filter fun entry => !(lit "_rc_").isPrefixOf entry.1))

/-- The messages that events committed, by their hashes, in the order of the events. -/
abbrev MessageIndex := List (Text × List ProvenanceSource)

/-- `payload.get("message")`, where it is a dictionary. -/
def committedMessage (event : HistoryEvent) : Option Dict :=
  if event.kind = lit "message_committed" then
    match field event.payload "message" with
    | .obj message => some message
    | _ => none
  else none

def messageSource (event : HistoryEvent) : ProvenanceSource where
  eventId := event.eventId
  artifactRefs := event.artifactRefs

/-- The body of the loop of `_sync` for a message. -/
def indexMessage (messages : MessageIndex) (event : HistoryEvent) : Option MessageIndex :=
  match committedMessage event with
  | none => some messages
  | some message => do
      let key ← provenanceHash normalizer hash message
      return store key ((lookup key messages).getD [] ++ [messageSource event]) messages

def isView (event : HistoryEvent) : Bool :=
  event.kind = lit "context_view_committed"

/-- The items of a view; `none` where one of them is no dictionary. -/
def viewItems (view : HistoryEvent) : Option (List Dict) := do
  let items ← if (field view.payload "items").truthy then listOf (field view.payload "items")
    else some []
  items.mapM fun item =>
    match item with
    | .obj message => some message
    | _ => none

/-- The hashes of the items of a view. -/
def viewHashes (view : HistoryEvent) : Option (List Text) := do
  (← viewItems view).mapM (provenanceHash normalizer hash)

def viewSource (view : HistoryEvent) : ProvenanceSource where
  eventId := view.eventId
  artifactRefs := view.artifactRefs
  checkpointId := field view.payload "checkpoint_id"

end Hashing

/-! ## The index -/

/-- `ItemProvenanceIndex` over events that are told apart by their references. -/
structure ItemProvenanceIndex (Reference : Type) where
  events : List Reference := []
  messages : MessageIndex := []
  viewHashes : List Text := []
  viewSource : Option ProvenanceSource := none

namespace ItemProvenanceIndex

section Sync

variable {Reference : Type} (normalizer : Normalizer) (hash : Text → Text)
  (read : Reference → HistoryEvent)

/-- `_sync` behind the check of the prefix: `fresh` are the events it has not seen. -/
def extend (index : ItemProvenanceIndex Reference) (fresh : List Reference) :
    Option (ItemProvenanceIndex Reference) := do
  let events := fresh.map read
  let messages ← events.foldlM (indexMessage normalizer hash) index.messages
  match events.reverse.find? isView with
  | none => return { index with events := index.events ++ fresh, messages }
  | some view => do
      let hashes ← Context.viewHashes normalizer hash view
      return {
        events := index.events ++ fresh
        messages
        viewHashes := hashes
        viewSource := some (Context.viewSource view) }

/-- `_sync`; where it raises, the index is reset. -/
def sync [DecidableEq Reference] (index : ItemProvenanceIndex Reference)
    (current : List Reference) : Option (ItemProvenanceIndex Reference) :=
  if index.events.isPrefixOf current then
    index.extend normalizer hash read (current.drop index.events.length)
  else extend normalizer hash read {} current

end Sync

/-! ## Alignment -/

/-- The inner loop over the view: whether it finds the hash, and the hashes behind its cursor. -/
def seek (itemHash : Text) : List Text → Bool × List Text
  | [] => (false, [])
  | candidate :: rest => if candidate = itemHash then (true, rest) else seek itemHash rest

/-- The items that the view accounts for. -/
def matchView : List Text → List Text → List Bool
  | _, [] => []
  | cursor, itemHash :: rest =>
      let found := seek itemHash cursor
      found.1 :: matchView found.2 rest

/-- The inner loop over the candidates, downwards from a position. -/
def takeNewest (used : List Text) (candidates : List ProvenanceSource) :
    ℕ → Option ProvenanceSource × ℕ
  | 0 => (none, 0)
  | position + 1 =>
      match candidates[position]? with
      | none => (none, position)
      | some source =>
          if source.eventId ∈ used then takeNewest used candidates position
          else (some source, position)

/-- The second loop, over the items with the mark that the view accounts for them: the sources
that it finds for the others. -/
def matchMessages (messages : MessageIndex) :
    List Text → List (Text × ℕ) → List (Text × Bool) → List (Option ProvenanceSource)
  | _, _, [] => []
  | used, positions, (itemHash, matched) :: rest =>
      if matched then none :: matchMessages messages used positions rest
      else
        let candidates := (lookup itemHash messages).getD []
        let taken := takeNewest used candidates
          ((lookup itemHash positions).getD candidates.length)
        let used := used ++ (taken.1.map ProvenanceSource.eventId).toList
        taken.1 :: matchMessages messages used (store itemHash taken.2 positions) rest

/-- `align` behind `_sync`. -/
def entries {Reference : Type} (index : ItemProvenanceIndex Reference) (hashes : List Text)
    (fallbackEventId : Option Text) : List Dict :=
  let matched := match index.viewSource with
    | none => hashes.map fun _ => false
    | some _ => matchView index.viewHashes hashes
  let sources := matchMessages index.messages [] [] (hashes.zip matched)
  (matched.zip sources).map fun item =>
    if item.1 then (index.viewSource.map ProvenanceSource.toDict).getD []
    else (item.2.map ProvenanceSource.toDict).getD (unattributed fallbackEventId)

/-- `align`: the entries, `none` where it raises, and the index it leaves. -/
def align {Reference : Type} [DecidableEq Reference] (normalizer : Normalizer)
    (hash : Text → Text) (read : Reference → HistoryEvent) (index : ItemProvenanceIndex Reference)
    (items : List Dict) (events : List Reference) (fallbackEventId : Option Text) :
    Option (List Dict) × ItemProvenanceIndex Reference :=
  match index.sync normalizer hash read events with
  | none => (none, {})
  | some synced =>
      ((items.mapM (provenanceHash normalizer hash)).map fun hashes =>
        synced.entries hashes fallbackEventId, synced)

end ItemProvenanceIndex

end ReuleauxCoder.Context
