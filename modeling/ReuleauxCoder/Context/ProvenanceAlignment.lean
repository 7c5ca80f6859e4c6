import ReuleauxCoder.Library.Converting
import ReuleauxCoder.Context.ProvenanceSync

/-!
# What items are traced to

Items that begin with those of the last view are traced to it as far as the view goes.  Each later
item, recorded or injected, takes the newest message with its content that none before it took.
-/

namespace ReuleauxCoder.Context.ItemProvenanceIndex

open PyText PyJson
open List hiding lookup
open History (HistoryEvent)

variable (normalizer : Normalizer) (hash : Text → Text)

/-- The sources of the messages with a hash, in the order of the events. -/
def recorded (key : Text) (events : List HistoryEvent) : List ProvenanceSource :=
  (events.filter fun event =>
    (committedMessage event).bind (provenanceHash normalizer hash) = some key).map messageSource

variable {normalizer hash}

variable {events : List HistoryEvent}

theorem lookup_indexed {start messages : MessageIndex}
    (hindexed : events.foldlM (indexMessage normalizer hash) start = some messages) (key : Text) :
    (lookup key messages).getD [] =
      (lookup key start).getD [] ++ recorded normalizer hash key events := by
  induction events generalizing start with
  | nil =>
      cases hindexed
      simp [recorded]
  | cons event rest ih =>
      rw [foldlM_cons] at hindexed
      obtain ⟨next, hnext, hrest⟩ := Option.bind_eq_some_iff.mp hindexed
      rw [ih hrest, recorded, recorded, filter_cons]
      rw [indexMessage] at hnext
      cases hcommitted : committedMessage event with
      | none =>
          rw [hcommitted] at hnext
          cases hnext
          simp
      | some message =>
          rw [hcommitted] at hnext
          obtain ⟨name, hname, hstored⟩ := Option.bind_eq_some_iff.mp hnext
          cases hstored
          by_cases hkey : name = key
          · subst hkey
            simp [hname]
          · have hother : lookup key (store name ((lookup name start).getD [] ++
                [messageSource event]) start) = lookup key start :=
              lookup_store_of_ne (Ne.symm hkey) _ _
            simp [hname, hkey, hother]

theorem matchView_nil (hashes : List Text) :
    matchView [] hashes = hashes.map fun _ => false := by
  induction hashes with
  | nil => rfl
  | cons itemHash rest ih =>
      rw [matchView, map_cons]
      exact congrArg (false :: ·) ih

theorem matchView_append (cursor hashes : List Text) :
    matchView cursor (cursor ++ hashes) =
      (cursor.map fun _ => true) ++ hashes.map fun _ => false := by
  induction cursor with
  | nil => exact matchView_nil hashes
  | cons candidate rest ih =>
      rw [cons_append, matchView, seek, if_pos rfl]
      exact congrArg (true :: ·) ih

/-! ## The newest message -/

/-- The newest of the sources whose event is not used. -/
def newest (used : List Text) (candidates : List ProvenanceSource) : Option ProvenanceSource :=
  candidates.reverse.find? fun source => source.eventId ∉ used

/-- The events that sources name. -/
def eventIds (sources : List (Option ProvenanceSource)) : List Text :=
  sources.flatMap fun source => (source.map ProvenanceSource.eventId).toList

variable {candidates : List ProvenanceSource}

theorem takeNewest_fst {used : List Text} {position : ℕ}
    (hposition : position ≤ candidates.length) :
    (takeNewest used candidates position).1 = newest used (candidates.take position) := by
  induction position with
  | zero => rfl
  | succ position ih =>
      have hsource : candidates[position]? = some candidates[position] :=
        getElem?_eq_getElem hposition
      have htake : candidates.take (position + 1) =
          candidates.take position ++ [candidates[position]] := by
        rw [take_add_one, hsource, Option.toList_some]
      rw [takeNewest, hsource, newest, htake, reverse_append, reverse_singleton,
        singleton_append, find?_cons]
      by_cases hused : candidates[position].eventId ∈ used
      · simp only [hused, if_true, not_true, decide_false]
        exact ih (Nat.le_of_succ_le hposition)
      · simp [hused]

/-- Behind the new position every source is used, or the one that is taken. -/
theorem takeNewest_snd {used : List Text} {position : ℕ} (hposition : position ≤ candidates.length)
    (hused : ∀ source ∈ candidates.drop position, source.eventId ∈ used) :
    ∀ source ∈ candidates.drop (takeNewest used candidates position).2,
      source.eventId ∈ used ++ eventIds [(takeNewest used candidates position).1] := by
  induction position with
  | zero =>
      intro source hsource
      exact mem_append_left _ (hused source hsource)
  | succ position ih =>
      have hfound : candidates[position]? = some candidates[position] :=
        getElem?_eq_getElem hposition
      have hdrop : candidates.drop position =
          candidates[position] :: candidates.drop (position + 1) :=
        drop_eq_getElem_cons hposition
      rw [takeNewest, hfound]
      by_cases hmem : candidates[position].eventId ∈ used
      · simp only [hmem, if_true]
        refine ih (Nat.le_of_succ_le hposition) fun source hsource => ?_
        rw [hdrop] at hsource
        rcases mem_cons.mp hsource with rfl | hbehind
        · exact hmem
        · exact hused source hbehind
      · simp only [hmem, if_false]
        intro source hsource
        rw [hdrop] at hsource
        rcases mem_cons.mp hsource with rfl | hbehind
        · exact mem_append_right _ (by simp [eventIds])
        · exact mem_append_left _ (hused source hbehind)

/-! ## The loop over the items -/

/-- Behind the position of a hash every candidate is used. -/
def Scanned (messages : MessageIndex) (used : List Text) (positions : List (Text × ℕ)) : Prop :=
  ∀ key position, lookup key positions = some position →
    position ≤ ((lookup key messages).getD []).length ∧
      ∀ source ∈ ((lookup key messages).getD []).drop position, source.eventId ∈ used

theorem scanned_nil (messages : MessageIndex) (used : List Text) : Scanned messages used [] :=
  fun _ _ hposition => by cases hposition

theorem takeNewest_le {used : List Text} (position : ℕ) :
    (takeNewest used candidates position).2 ≤ position := by
  induction position with
  | zero => exact le_rfl
  | succ position ih =>
      rw [takeNewest]
      split
      · exact Nat.le_succ position
      · split
        · exact ih.trans (Nat.le_succ position)
        · exact Nat.le_succ position

section Loop

variable {messages : MessageIndex} {used : List Text} {positions : List (Text × ℕ)}

section

variable (hscanned : Scanned messages used positions)
include hscanned

/-- Where the scan for a hash begins, every candidate behind is used. -/
theorem Scanned.position (key : Text) :
    let candidates := (lookup key messages).getD []
    let position := (lookup key positions).getD candidates.length
    position ≤ candidates.length ∧
      ∀ source ∈ candidates.drop position, source.eventId ∈ used := by
  dsimp only
  cases hposition : lookup key positions with
  | none => simp
  | some position => exact hscanned key position hposition

/-- The scan finds the newest of all candidates that are not used. -/
theorem Scanned.takeNewest_eq (key : Text) :
    (takeNewest used ((lookup key messages).getD [])
      ((lookup key positions).getD ((lookup key messages).getD []).length)).1 =
        newest used ((lookup key messages).getD []) := by
  obtain ⟨hle, hused⟩ := hscanned.position key
  generalize (lookup key positions).getD ((lookup key messages).getD []).length = position
    at hle hused
  generalize (lookup key messages).getD [] = candidates at hle hused
  rw [takeNewest_fst hle, newest, newest]
  conv_rhs => rw [← take_append_drop position candidates, reverse_append,
    find?_append]
  have hnone : (candidates.drop position).reverse.find?
      (fun source => source.eventId ∉ used) = none := by
    rw [find?_eq_none]
    intro source hsource
    simp [hused source (mem_reverse.mp hsource)]
  rw [hnone, Option.none_or]

/-- Taking the newest unused source of a key keeps the scan in step with what is used. -/
theorem Scanned.step (key : Text) :
    let taken := takeNewest used ((lookup key messages).getD [])
      ((lookup key positions).getD ((lookup key messages).getD []).length)
    Scanned messages (used ++ eventIds [taken.1]) (store key taken.2 positions) := by
  obtain ⟨hle, hused⟩ := hscanned.position key
  intro taken other position hposition
  by_cases hother : other = key
  · subst hother
    rw [lookup_store_self] at hposition
    cases hposition
    exact ⟨(takeNewest_le _).trans hle, takeNewest_snd hle hused⟩
  · rw [lookup_store_of_ne hother] at hposition
    obtain ⟨hinside, hbehind⟩ := hscanned other position hposition
    exact ⟨hinside, fun source hsource => mem_append_left _ (hbehind source hsource)⟩

/-- Each item takes the newest message with its hash that the items before it have not taken. -/
theorem Scanned.matchMessages_eq
    (hashes : List Text) {index : ℕ} {key : Text} (hkey : hashes[index]? = some key) :
    (matchMessages messages used positions (hashes.map (·, false)))[index]? =
      some (newest (used ++ eventIds ((matchMessages messages used positions
        (hashes.map (·, false))).take index)) ((lookup key messages).getD [])) := by
  induction hashes generalizing used positions index with
  | nil => cases hkey
  | cons itemHash rest ih =>
      have hnext := hscanned.step itemHash
      have htaken := hscanned.takeNewest_eq itemHash
      rw [map_cons, matchMessages]
      simp only [Bool.false_eq_true, if_false]
      dsimp only at hnext
      generalize takeNewest used ((lookup itemHash messages).getD [])
        ((lookup itemHash positions).getD ((lookup itemHash messages).getD []).length) = taken
        at hnext htaken ⊢
      cases index with
      | zero =>
          cases hkey
          simp [htaken, eventIds]
      | succ index =>
          rw [eventIds, flatMap_singleton] at hnext
          rw [getElem?_cons_succ, ih hnext hkey, take_succ_cons, eventIds, eventIds,
            flatMap_cons, append_assoc]

end

theorem length_matchMessages (messages : MessageIndex) (used : List Text)
    (positions : List (Text × ℕ)) (items : List (Text × Bool)) :
    (matchMessages messages used positions items).length = items.length := by
  induction items generalizing used positions with
  | nil => rfl
  | cons item rest ih =>
      obtain ⟨itemHash, matched⟩ := item
      rw [matchMessages]
      split
      · rw [length_cons, ih, length_cons]
      · rw [length_cons, ih, length_cons]

/-- Items that the view accounts for take no message. -/
theorem matchMessages_append (messages : MessageIndex) (used : List Text)
    (positions : List (Text × ℕ)) (hashes : List Text) (items : List (Text × Bool)) :
    matchMessages messages used positions (hashes.map (·, true) ++ items) =
      hashes.map (fun _ => none) ++ matchMessages messages used positions items := by
  induction hashes with
  | nil => rfl
  | cons itemHash rest ih =>
      rw [map_cons, cons_append, matchMessages, if_pos rfl, ih]
      rfl

end Loop

/-- A source that is taken was not used, and is one of the candidates. -/
theorem newest_eq_some {used : List Text} {source : ProvenanceSource}
    (hnewest : newest used candidates = some source) :
    source ∈ candidates ∧ source.eventId ∉ used := by
  rw [newest] at hnewest
  have hunused := find?_some hnewest
  exact ⟨mem_reverse.mp (mem_of_find?_eq_some hnewest), by simpa using hunused⟩

/-! ## The entries -/

/-- The entry of an item that the view does not account for. -/
def entryOf (fallbackEventId : Option Text) (source : Option ProvenanceSource) : Dict :=
  (source.map ProvenanceSource.toDict).getD (unattributed fallbackEventId)

theorem entries_of_matched (messages : MessageIndex) (front hashes : List Text) (entry : Dict)
    (fallbackEventId : Option Text) :
    let matched := (front.map fun _ => true) ++ hashes.map fun _ => false
    ((matched.zip (matchMessages messages [] [] ((front ++ hashes).zip matched))).map fun item =>
        if item.1 then entry else entryOf fallbackEventId item.2) =
      (front.map fun _ => entry) ++
        (matchMessages messages [] [] (hashes.map (·, false))).map (entryOf fallbackEventId) := by
  intro matched
  have hitems : (front ++ hashes).zip matched =
      front.map (·, true) ++ hashes.map (·, false) := by
    rw [zip_append (by simp), ← map_prod_left_eq_zip, ← map_prod_left_eq_zip]
  have hlength : (matchMessages messages [] [] (hashes.map (·, false))).length = hashes.length := by
    rw [length_matchMessages, length_map]
  rw [hitems, matchMessages_append, zip_append (by simp), map_append]
  congr 1
  · rw [zip_map', map_map]
    rfl
  · generalize matchMessages messages [] [] (hashes.map (·, false)) = sources at hlength
    have hfalse : hashes.map (fun _ => false) = sources.map fun _ => false := by
      rw [map_const', map_const', hlength]
    rw [hfalse, ← map_id sources, map_map, zip_map', map_map, map_map]
    rfl

variable {Reference : Type}

theorem entries_append (index : ItemProvenanceIndex Reference)
    (hview : index.viewSource = none → index.viewHashes = []) (hashes : List Text)
    (fallbackEventId : Option Text) :
    index.entries (index.viewHashes ++ hashes) fallbackEventId =
      (index.viewHashes.map fun _ => (index.viewSource.map ProvenanceSource.toDict).getD []) ++
        (matchMessages index.messages [] [] (hashes.map (·, false))).map
          (entryOf fallbackEventId) := by
  rw [← entries_of_matched, entries]
  cases hsource : index.viewSource with
  | none =>
      rw [hview hsource]
      rfl
  | some source =>
      rw [matchView_append]
      rfl

theorem mem_eventIds {sources : List (Option ProvenanceSource)} {eventId : Text} :
    eventId ∈ eventIds sources ↔
      ∃ (index : ℕ) (source : ProvenanceSource),
        sources[index]? = some (some source) ∧ source.eventId = eventId := by
  simp only [eventIds, mem_flatMap, Option.mem_toList, Option.map_eq_some_iff]
  constructor
  · rintro ⟨found, hfound, source, rfl, hsource⟩
    obtain ⟨index, hindex⟩ := getElem?_of_mem hfound
    exact ⟨index, source, hindex, hsource⟩
  · rintro ⟨index, source, hindex, hsource⟩
    exact ⟨some source, mem_of_getElem? hindex, source, rfl, hsource⟩

/-! ## Tracing -/

def lastView (events : List HistoryEvent) : Option HistoryEvent :=
  events.reverse.find? isView

/-- The items of the last view, none where there is no view. -/
def latestItems (events : List HistoryEvent) : Option (List Dict) :=
  (lastView events).elim (some []) viewItems

/-- The entry of the items that the last view accounts for. -/
def viewEntry (events : List HistoryEvent) : Dict :=
  ((lastView events).map fun view => (Context.viewSource view).toDict).getD []

/-- The entries of items that begin with those of the last view: the view's entry for these, and
for each item behind them the newest message with its content that none before it took. -/
structure Traced (normalizer : Normalizer) (hash : Text → Text) (events : List HistoryEvent)
    (view rest : List Dict) (fallbackEventId : Option Text) (entries : List Dict)
    (hashes : List Text) (sources : List (Option ProvenanceSource)) : Prop where
  hashed : rest.mapM (provenanceHash normalizer hash) = some hashes
  entries_eq : entries =
    (view.map fun _ => viewEntry events) ++ sources.map (entryOf fallbackEventId)
  length : entries.length = (view ++ rest).length
  newest : ∀ (index : ℕ) (key : Text), hashes[index]? = some key → sources[index]? =
    some (newest (eventIds (sources.take index)) (recorded normalizer hash key events))

theorem exists_of_indexed_eq_none {start : MessageIndex}
    (hnone : events.foldlM (indexMessage normalizer hash) start = none) :
    ∃ message ∈ events.filterMap committedMessage, provenanceHash normalizer hash message = none := by
  induction events generalizing start with
  | nil => cases hnone
  | cons event rest ih =>
      rw [foldlM_cons] at hnone
      cases hfirst : indexMessage normalizer hash start event with
      | some next =>
          rw [hfirst] at hnone
          obtain ⟨message, hmem, hmessage⟩ := ih hnone
          rw [filterMap_cons]
          split
          · exact ⟨message, hmem, hmessage⟩
          · exact ⟨message, mem_cons_of_mem _ hmem, hmessage⟩
      | none =>
          rw [indexMessage] at hfirst
          cases hcommitted : committedMessage event with
          | none =>
              rw [hcommitted] at hfirst
              cases hfirst
          | some message =>
              rw [hcommitted] at hfirst
              refine ⟨message, by simp [hcommitted], ?_⟩
              cases hhash : provenanceHash normalizer hash message with
              | none => rfl
              | some key => simp [hhash] at hfirst

variable {view : List Dict}

/-- The sources that the loop over the messages finds are those that tracing asks for. -/
theorem traced_of_indexed {messages : MessageIndex}
    (hindexed : events.foldlM (indexMessage normalizer hash) [] = some messages) {rest : List Dict}
    {hashes : List Text} (fallbackEventId : Option Text)
    (hhashed : rest.mapM (provenanceHash normalizer hash) = some hashes) :
    let sources := matchMessages messages [] [] (hashes.map (·, false))
    Traced normalizer hash events view rest fallbackEventId
      ((view.map fun _ => viewEntry events) ++ sources.map (entryOf fallbackEventId))
      hashes sources := by
  intro sources
  have hlookup : ∀ key, (lookup key messages).getD [] = recorded normalizer hash key events :=
    fun key => lookup_indexed hindexed key
  have hsources : sources.length = hashes.length := by
    rw [length_matchMessages, length_map]
  refine ⟨hhashed, rfl, ?_, fun index key hkey => ?_⟩
  · rw [length_append, length_append, length_map, length_map, hsources,
      Converting.length_of_mapM hhashed]
  · rw [← hlookup, ← nil_append (eventIds (sources.take index))]
    exact (scanned_nil messages []).matchMessages_eq hashes hkey

/-- What a fresh index holds. -/
theorem extend_eq_some {read : Reference → HistoryEvent} {events : List Reference}
    {index : ItemProvenanceIndex Reference}
    (hextended : extend normalizer hash read {} events = some index)
    (hview : latestItems (events.map read) = some view) :
    (events.map read).foldlM (indexMessage normalizer hash) [] = some index.messages ∧
      view.mapM (provenanceHash normalizer hash) = some index.viewHashes ∧
      index.viewSource = (lastView (events.map read)).map Context.viewSource := by
  rw [extend] at hextended
  obtain ⟨messages, hmessages, hindex⟩ := Option.bind_eq_some_iff.mp hextended
  rw [latestItems, lastView] at hview
  rw [lastView]
  cases hfind : (events.map read).reverse.find? isView with
  | none =>
      rw [hfind] at hindex hview
      cases hindex
      cases hview
      exact ⟨hmessages, rfl, rfl⟩
  | some last =>
      rw [hfind] at hindex hview
      obtain ⟨found, hfound, hsame⟩ := Option.bind_eq_some_iff.mp hindex
      cases hsame
      rw [Option.elim_some] at hview
      rw [Context.viewHashes, hview] at hfound
      exact ⟨hmessages, hfound, rfl⟩

/-- A fresh index can be built where every message and every item of the last view has a hash. -/
theorem exists_of_extend_eq_none {read : Reference → HistoryEvent} {events : List Reference}
    (hnone : extend normalizer hash read {} events = none)
    (hview : latestItems (events.map read) = some view) :
    ∃ message ∈ (events.map read).filterMap committedMessage ++ view,
      provenanceHash normalizer hash message = none := by
  rw [extend] at hnone
  cases hmessages : (events.map read).foldlM (indexMessage normalizer hash) [] with
  | none =>
      obtain ⟨message, hmem, hmessage⟩ := exists_of_indexed_eq_none hmessages
      exact ⟨message, mem_append_left _ hmem, hmessage⟩
  | some messages =>
      rw [latestItems, lastView] at hview
      rw [hmessages] at hnone
      cases hfind : (events.map read).reverse.find? isView with
      | none => simp [hfind] at hnone
      | some last =>
          rw [hfind, Option.elim_some] at hview
          cases hhashes : view.mapM (provenanceHash normalizer hash) with
          | none =>
              obtain ⟨item, hmem, hitem⟩ := Converting.exists_of_mapM_eq_none hhashes
              exact ⟨item, mem_append_right _ hmem, hitem⟩
          | some hashes => simp [hfind, Context.viewHashes, hview, hhashes] at hnone

variable [DecidableEq Reference]

/-- Items that begin with those of the last view: a call of any index traces each of them, and it
raises just where a text cannot be encoded. -/
theorem align_traces (normalizer : Normalizer) (hash : Text → Text)
    (read : Reference → HistoryEvent) (calls : List (Call Reference)) (events : List Reference)
    (hview : latestItems (events.map read) = some view) (rest : List Dict)
    (fallbackEventId : Option Text) : let index := (alignAll normalizer hash read {} calls).2
    let result := (index.align normalizer hash read (view ++ rest) events fallbackEventId).1
    (result = none ∧ ∃ message ∈ (events.map read).filterMap committedMessage ++ (view ++ rest),
      provenanceHash normalizer hash message = none) ∨
    ∃ entries hashes sources, result = some entries ∧
      Traced normalizer hash (events.map read) view rest fallbackEventId entries hashes
        sources := by
  intro index result
  have hresult : result = (align normalizer hash read {} (view ++ rest) events fallbackEventId).1 :=
    congrArg Prod.fst (align_eq_fresh normalizer hash read
      (current_alignAll normalizer hash read (current_empty normalizer hash read) calls) _ _ _)
  rw [align, sync_eq_extend normalizer hash read (current_empty normalizer hash read)] at hresult
  cases hsync : extend normalizer hash read {} events with
  | none =>
      rw [hsync] at hresult
      obtain ⟨message, hmem, hmessage⟩ := exists_of_extend_eq_none hsync hview
      refine .inl ⟨hresult, message, ?_, hmessage⟩
      rw [← append_assoc]
      exact mem_append_left _ hmem
  | some synced =>
      rw [hsync] at hresult
      obtain ⟨hindexed, hviewed, hsource⟩ := extend_eq_some hsync hview
      dsimp only at hresult
      cases hrest : rest.mapM (provenanceHash normalizer hash) with
      | none =>
          obtain ⟨item, hmem, hitem⟩ := Converting.exists_of_mapM_eq_none hrest
          refine .inl ⟨?_, item, mem_append_right _ (mem_append_right _ hmem), hitem⟩
          rw [hresult, mapM_append, hviewed, hrest]
          rfl
      | some hashes =>
          have hempty : synced.viewSource = none → synced.viewHashes = [] := by
            intro hnone
            rw [hsource, Option.map_eq_none_iff] at hnone
            rw [latestItems, hnone, Option.elim_none] at hview
            obtain rfl : [] = view := Option.some.inj hview
            exact (Option.some.inj hviewed).symm
          have hentries := entries_append synced hempty hashes fallbackEventId
          have hsame : (synced.viewSource.map ProvenanceSource.toDict).getD [] =
              viewEntry (events.map read) := by
            rw [hsource, Option.map_map]
            rfl
          have hmarks : synced.viewHashes.map (fun _ => viewEntry (events.map read)) =
              view.map fun _ => viewEntry (events.map read) := by
            rw [map_const', map_const', Converting.length_of_mapM hviewed]
          rw [hsame, hmarks] at hentries
          refine .inr ⟨_, hashes, _, ?_, traced_of_indexed hindexed fallbackEventId hrest⟩
          rw [hresult, mapM_append, hviewed, hrest, ← hentries]
          rfl

end ReuleauxCoder.Context.ItemProvenanceIndex
