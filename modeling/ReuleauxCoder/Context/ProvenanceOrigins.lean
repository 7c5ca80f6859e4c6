import ReuleauxCoder.Context.ProvenanceAlignment

/-!
# Items that keep their own events

A request holds the items of the last view and the messages recorded behind it, with injected
items between them.  The recorded items are traced to their own events just where nothing was
injected in front of an item of the view, and each message is the first item behind the view that
has its content: an item that the view does not hold drains the cursor over the view.
-/

namespace ReuleauxCoder.Context.ItemProvenanceIndex

open PyText PyJson
open List hiding lookup
open History (HistoryEvent)

/-! ## Recorded and injected items -/

/-- The events behind the last view; all events where there is no view. -/
def behindView (events : List HistoryEvent) : List HistoryEvent :=
  (events.reverse.takeWhile fun event => !isView event).reverse

/-- The messages recorded behind the last view, with their events. -/
def laterMessages (events : List HistoryEvent) : List (Dict × HistoryEvent) :=
  (behindView events).filterMap fun event => (committedMessage event).map (·, event)

/-- What recorded an item: the last view, or a message behind it. -/
inductive Origin where
  | view
  | message (event : HistoryEvent)
  deriving DecidableEq

/-- The entry that traces an item to its origin. -/
def Origin.entry (events : List HistoryEvent) : Origin → Dict
  | .view => viewEntry events
  | .message event => (messageSource event).toDict

/-- The items of a request with their origins; an injected item has none. -/
abbrev Placed := List (Dict × Option Origin)

def Placed.items (placed : Placed) : List Dict := placed.map Prod.fst

/-- The items that were not injected, in order. -/
def Placed.recorded (placed : Placed) : List (Dict × Origin) :=
  placed.filterMap fun item => item.2.map (item.1, ·)

/-- The recorded items are those of the view and then the messages behind it, in order. -/
def Placed.Formed (placed : Placed) (events : List HistoryEvent) (view : List Dict) : Prop :=
  placed.recorded = view.map (·, .view) ++
    (laterMessages events).map fun message => (message.1, .message message.2)

instance (placed : Placed) (events : List HistoryEvent) (view : List Dict) :
    Decidable (placed.Formed events view) :=
  inferInstanceAs (Decidable (_ = _))

/-- Whether an entry names the event. -/
def cites (eventId : Text) (entry : Dict) : Bool :=
  lookup (lit "source_event_ids") entry = some (.arr [.str eventId])

/-- One entry for each item, and no message event used twice. -/
structure Accounted (events : List HistoryEvent) (placed : Placed) (entries : List Dict) :
    Prop where
  length : entries.length = placed.length
  once : ∀ event ∈ events, (committedMessage event).isSome = true →
    entries.countP (cites event.eventId) ≤ 1

/-- Moreover, every recorded item is traced to its own event. -/
structure Attributed (events : List HistoryEvent) (placed : Placed) (entries : List Dict) : Prop
    extends Accounted events placed entries where
  own : ∀ (index : ℕ) (item : Dict) (origin : Origin), placed[index]? = some (item, some origin) →
    entries[index]? = some (origin.entry events)

/-- No item was injected in front of an item of the view, and behind the view no item in front of
a recorded message has its content. -/
structure Undisturbed (normalizer : Normalizer) (hash : Text → Text) (events : List HistoryEvent)
    (view : List Dict) (placed : Placed) : Prop where
  hashed : ∀ message ∈ events.filterMap committedMessage ++ placed.items,
    provenanceHash normalizer hash message ≠ none
  front : ∀ index < view.length, ∀ item, placed[index]? ≠ some (item, none)
  first : ∀ index earlier, view.length ≤ earlier → earlier < index → ∀ item event other,
    placed[index]? = some (item, some (.message event)) → placed[earlier]? = some other →
      provenanceHash normalizer hash other.1 ≠ provenanceHash normalizer hash item

/-! ## What entries cite -/

@[simp]
theorem cites_toDict (eventId : Text) (source : ProvenanceSource) :
    cites eventId source.toDict = decide (source.eventId = eventId) := by
  simp [cites, ProvenanceSource.toDict]

variable {eventId : Text} {used : List Text}

theorem cites_unattributed {fallbackEventId : Option Text}
    (hother : fallbackEventId ≠ some eventId) :
    cites eventId (unattributed fallbackEventId) = false := by
  cases fallbackEventId with
  | none => simp [cites, unattributed]
  | some fallback =>
      have hne : fallback ≠ eventId := fun hsame => hother (congrArg some hsame)
      by_cases hempty : fallback = []
      · simp [cites, unattributed, Option.filter, hempty]
      · simp [cites, unattributed, Option.filter, hempty, hne]

/-- An entry that cites an event other than the fallback comes from a source. -/
theorem entryOf_cites {fallbackEventId : Option Text} {source : Option ProvenanceSource}
    (hother : fallbackEventId ≠ some eventId)
    (hcites : cites eventId (entryOf fallbackEventId source) = true) :
    ∃ found, source = some found ∧ found.eventId = eventId := by
  cases source with
  | none =>
      rw [entryOf, Option.map_none, Option.getD_none, cites_unattributed hother] at hcites
      cases hcites
  | some found =>
      rw [entryOf, Option.map_some, Option.getD_some, cites_toDict] at hcites
      exact ⟨found, rfl, of_decide_eq_true hcites⟩

/-! ## Sources are used once -/

variable {source : ProvenanceSource}

theorem takeNewest_eq_some {candidates : List ProvenanceSource} {position : ℕ}
    (htaken : (takeNewest used candidates position).1 = some source) :
    source ∈ candidates ∧ source.eventId ∉ used := by
  induction position with
  | zero => cases htaken
  | succ position ih =>
      rw [takeNewest] at htaken
      cases hfound : candidates[position]? with
      | none =>
          rw [hfound] at htaken
          cases htaken
      | some found =>
          rw [hfound] at htaken
          dsimp only at htaken
          by_cases hused : found.eventId ∈ used
          · rw [if_pos hused] at htaken
            exact ih htaken
          · rw [if_neg hused] at htaken
            cases htaken
            exact ⟨mem_of_getElem? hfound, hused⟩

/-- Whatever the view accounts for, the sources of the other items are candidates of their
hashes. -/
theorem mem_of_matchMessages {messages : MessageIndex} {positions : List (Text × ℕ)}
    {items : List (Text × Bool)}
    (hmem : some source ∈ matchMessages messages used positions items) :
    ∃ key, source ∈ (lookup key messages).getD [] := by
  induction items generalizing used positions with
  | nil => cases hmem
  | cons item rest ih =>
      obtain ⟨itemHash, matched⟩ := item
      rw [matchMessages] at hmem
      split at hmem
      · rcases mem_cons.mp hmem with hfirst | hlater
        · cases hfirst
        · exact ih hlater
      · rcases mem_cons.mp hmem with hfirst | hlater
        · exact ⟨itemHash, (takeNewest_eq_some hfirst.symm).1⟩
        · exact ih hlater

/-- No event is used twice, whatever the view accounts for. -/
theorem nodup_matchMessages (messages : MessageIndex) (used : List Text)
    (positions : List (Text × ℕ)) (items : List (Text × Bool)) :
    (eventIds (matchMessages messages used positions items)).Nodup ∧
      ∀ eventId ∈ eventIds (matchMessages messages used positions items), eventId ∉ used := by
  induction items generalizing used positions with
  | nil => exact ⟨nodup_nil, fun _ hmem => by cases hmem⟩
  | cons item rest ih =>
      obtain ⟨itemHash, matched⟩ := item
      rw [matchMessages]
      split
      · exact ih used positions
      · dsimp only
        generalize htaken : takeNewest used ((lookup itemHash messages).getD [])
          ((lookup itemHash positions).getD ((lookup itemHash messages).getD []).length) = taken
        obtain ⟨source, position⟩ := taken
        dsimp only
        obtain ⟨hnodup, hfresh⟩ := ih (used ++ (source.map ProvenanceSource.eventId).toList)
          (store itemHash position positions)
        cases source with
        | none =>
            simp only [Option.map_none, Option.toList_none, append_nil] at hnodup hfresh
            exact ⟨by simpa [eventIds] using hnodup, by simpa [eventIds] using hfresh⟩
        | some source =>
            have hunused : source.eventId ∉ used :=
              (takeNewest_eq_some (congrArg Prod.fst htaken)).2
            have hcons : ∀ others : List (Option ProvenanceSource),
                eventIds (some source :: others) = source.eventId :: eventIds others :=
              fun _ => rfl
            rw [hcons]
            refine ⟨nodup_cons.mpr ⟨fun hagain => ?_, hnodup⟩, fun eventId hmem => ?_⟩
            · exact hfresh _ hagain (mem_append_right _ (mem_singleton_self _))
            · rcases mem_cons.mp hmem with rfl | hlater
              · exact hunused
              · exact fun hused => hfresh eventId hlater (mem_append_left _ hused)

/-- Each entry that cites an event stands for a source with that event. -/
theorem countP_entries_le {entry : Dict} {fallbackEventId : Option Text}
    (hentry : cites eventId entry = false) (hother : fallbackEventId ≠ some eventId)
    (pairs : List (Bool × Option ProvenanceSource)) :
    (pairs.map fun item => if item.1 then entry else entryOf fallbackEventId item.2).countP
      (cites eventId) ≤ (eventIds (pairs.map Prod.snd)).count eventId := by
  induction pairs with
  | nil => exact le_rfl
  | cons pair rest ih =>
      obtain ⟨marked, source⟩ := pair
      have hids : eventIds (((marked, source) :: rest).map Prod.snd) =
          (source.map ProvenanceSource.eventId).toList ++ eventIds (rest.map Prod.snd) := rfl
      rw [hids, count_append, map_cons, countP_cons, Nat.add_comm]
      apply Nat.add_le_add _ ih
      cases marked with
      | true => simp [hentry]
      | false =>
          by_cases hcites : cites eventId (entryOf fallbackEventId source) = true
          · obtain ⟨found, rfl, rfl⟩ := entryOf_cites hother hcites
            simp [hcites]
          · simp [hcites]

/-! ## What the view accounts for -/

theorem length_matchView (cursor hashes : List Text) :
    (matchView cursor hashes).length = hashes.length := by
  induction hashes generalizing cursor with
  | nil => rfl
  | cons itemHash rest ih =>
      rw [matchView, length_cons, ih, length_cons]

theorem seek_length_le (itemHash : Text) (cursor : List Text) :
    (seek itemHash cursor).2.length ≤ cursor.length - 1 := by
  induction cursor with
  | nil => exact le_rfl
  | cons candidate rest ih =>
      rw [seek]
      split
      · exact le_rfl
      · exact ih.trans (Nat.sub_le _ _)

theorem seek_length_lt {itemHash : Text} {cursor : List Text}
    (hfound : (seek itemHash cursor).1 = true) :
    (seek itemHash cursor).2.length < cursor.length := by
  cases cursor with
  | nil => cases hfound
  | cons candidate rest =>
      have hle := seek_length_le itemHash (candidate :: rest)
      rw [length_cons] at hle ⊢
      exact Nat.lt_succ_of_le hle

/-- The number of items that the view recorded. -/
def fromView (placed : Placed) : ℕ :=
  placed.countP fun item => item.2 = some .view

theorem fromView_cons (item : Dict × Option Origin) (rest : Placed) :
    fromView (item :: rest) = fromView rest + if item.2 = some .view then 1 else 0 := by
  rw [fromView, countP_cons]
  simp [fromView]

/-- The cursor accounts for no more items than it has hashes. -/
theorem fromView_le {placed : Placed} {cursor hashes : List Text}
    (hmarked : ∀ (index : ℕ) (item : Dict), placed[index]? = some (item, some .view) →
      (matchView cursor hashes)[index]? = some true) : fromView placed ≤ cursor.length := by
  induction placed generalizing cursor hashes with
  | nil => exact Nat.zero_le _
  | cons item rest ih =>
      cases hashes with
      | nil =>
          have hnone : ∀ other ∈ item :: rest, decide (other.2 = some .view) = false := by
            rintro ⟨other, origin⟩ hmem
            obtain ⟨index, hindex⟩ := getElem?_of_mem hmem
            rw [decide_eq_false_iff_not]
            rintro rfl
            cases hmarked index other hindex
          rw [fromView, countP_eq_zero.mpr fun other hmem => by simp [hnone other hmem]]
          exact Nat.zero_le _
      | cons itemHash others =>
          have hrest : fromView rest ≤ (seek itemHash cursor).2.length :=
            @ih _ others fun index other hindex => hmarked (index + 1) other hindex
          have hle := seek_length_le itemHash cursor
          rw [fromView_cons]
          split
          · rename_i hview
            obtain ⟨other, origin⟩ := item
            obtain rfl : origin = some .view := hview
            have hfound : (seek itemHash cursor).1 = true :=
              Option.some.inj (hmarked 0 other rfl)
            exact Nat.lt_of_le_of_lt hrest (seek_length_lt hfound)
          · exact hrest.trans (hle.trans (Nat.sub_le _ _))

/-- Where the cursor accounts for every item that the view recorded, these items come first: an
injected item in front of them would have used up a hash. -/
theorem front_of_marked {placed : Placed} {cursor hashes : List Text}
    (hlength : hashes.length = placed.length)
    (hmarked : ∀ (index : ℕ) (item : Dict), placed[index]? = some (item, some .view) →
      (matchView cursor hashes)[index]? = some true)
    (hcursor : cursor.length ≤ fromView placed)
    (horder : ∀ (index : ℕ) (item : Dict) (event : HistoryEvent),
      placed[index]? = some (item, some (.message event)) → fromView (placed.drop index) = 0) :
    ∀ index < fromView placed, ∀ item, placed[index]? ≠ some (item, none) := by
  induction placed generalizing cursor hashes with
  | nil => exact fun _ hindex => absurd hindex (Nat.not_lt_zero _)
  | cons head rest ih =>
      intro index hindex item
      obtain ⟨other, origin⟩ := head
      cases hashes with
      | nil => cases hlength
      | cons itemHash others =>
          have hbehind : ∀ (index : ℕ) (item : Dict), rest[index]? = some (item, some .view) →
              (matchView (seek itemHash cursor).2 others)[index]? = some true :=
            fun index other hother => hmarked (index + 1) other hother
          have hrest := fromView_le hbehind
          rw [fromView_cons] at hindex hcursor
          cases origin with
          | none =>
              have hle := seek_length_le itemHash cursor
              simp only [reduceCtorEq, if_false] at hindex hcursor
              omega
          | some origin =>
              cases origin with
              | message event =>
                  have hnone := horder 0 other event rfl
                  rw [drop_zero, fromView_cons] at hnone
                  omega
              | view =>
                  have hfound : (seek itemHash cursor).1 = true :=
                    Option.some.inj (hmarked 0 other rfl)
                  have hlt := seek_length_lt hfound
                  rw [if_pos rfl] at hindex hcursor
                  cases index with
                  | zero => exact fun heq => by cases heq
                  | succ index =>
                      refine ih (Nat.succ.inj hlength) hbehind (by omega) ?_ index (by omega) item
                      exact fun later message event hlater => horder (later + 1) message event hlater

/-- Every message of events that are indexed has a hash. -/
theorem ne_none_of_indexed {normalizer : Normalizer} {hash : Text → Text}
    {events : List HistoryEvent} {start messages : MessageIndex}
    (hindexed : events.foldlM (indexMessage normalizer hash) start = some messages)
    {message : Dict} (hmem : message ∈ events.filterMap committedMessage) :
    provenanceHash normalizer hash message ≠ none := by
  induction events generalizing start with
  | nil => cases hmem
  | cons event rest ih =>
      rw [foldlM_cons] at hindexed
      obtain ⟨next, hnext, hrest⟩ := Option.bind_eq_some_iff.mp hindexed
      rw [indexMessage] at hnext
      cases hcommitted : committedMessage event with
      | none =>
          rw [filterMap_cons_none hcommitted] at hmem
          exact ih hrest hmem
      | some found =>
          rw [filterMap_cons_some hcommitted] at hmem
          rcases mem_cons.mp hmem with rfl | hlater
          · rw [hcommitted] at hnext
            obtain ⟨key, hkey, -⟩ := Option.bind_eq_some_iff.mp hnext
            rw [hkey]
            exact Option.some_ne_none key
          · exact ih hrest hlater

/-! ## Where a message takes its own event -/

theorem eq_of_eventId {events : List HistoryEvent}
    (hids : (events.map HistoryEvent.eventId).Nodup) {first second : HistoryEvent}
    (hfirst : first ∈ events) (hsecond : second ∈ events)
    (hsame : first.eventId = second.eventId) : first = second :=
  inj_on_of_nodup_map hids hfirst hsecond hsame

variable {normalizer : Normalizer} {hash : Text → Text}

theorem mem_recorded {key : Text} {events : List HistoryEvent} :
    source ∈ recorded normalizer hash key events ↔
      ∃ event ∈ events, (committedMessage event).bind (provenanceHash normalizer hash) = some key ∧
        messageSource event = source := by
  simp [recorded, and_assoc]

/-- The sources of messages with a hash, in the order of the messages. -/
def sourcesOf (normalizer : Normalizer) (hash : Text → Text) (key : Text)
    (messages : List (Dict × HistoryEvent)) : List ProvenanceSource :=
  (messages.filter fun message => provenanceHash normalizer hash message.1 = some key).map
    fun message => messageSource message.2

theorem behindView_suffix (events : List HistoryEvent) : behindView events <:+ events := by
  have hreverse := List.takeWhile_prefix (p := fun event => !isView event) (l := events.reverse)
  rw [← reverse_suffix, reverse_reverse] at hreverse
  exact hreverse

/-- The newest messages with a hash are those recorded behind the view. -/
theorem recorded_eq (key : Text) (events : List HistoryEvent) :
    ∃ older, recorded normalizer hash key events =
      older ++ sourcesOf normalizer hash key (laterMessages events) := by
  obtain ⟨before, hbefore⟩ := behindView_suffix events
  refine ⟨recorded normalizer hash key before, ?_⟩
  have hlater : ∀ behind : List HistoryEvent, recorded normalizer hash key behind =
      sourcesOf normalizer hash key
        (behind.filterMap fun event => (committedMessage event).map (·, event)) := by
    intro behind
    induction behind with
    | nil => rfl
    | cons event rest ih =>
        rw [recorded, sourcesOf] at ih
        rw [recorded, sourcesOf, filter_cons, filterMap_cons]
        cases hmessage : committedMessage event with
        | none => simpa using ih
        | some message =>
            by_cases hkey : provenanceHash normalizer hash message = some key
            · simp [hkey, ih]
            · simp [hkey, ih]
  have hsplit : recorded normalizer hash key events =
      recorded normalizer hash key (before ++ behindView events) := by rw [hbefore]
  rw [hsplit, laterMessages, ← hlater, recorded, recorded, recorded, filter_append,
    map_append]

/-- A source that is not used is the newest, or one of those behind it is. -/
theorem newest_append (hunused : source.eventId ∉ used) (front back : List ProvenanceSource) :
    ∃ found, newest used (front ++ source :: back) = some found ∧
      (found = source ∨ found ∈ back) := by
  rw [newest, reverse_append, reverse_cons, append_assoc, find?_append]
  cases hback : back.reverse.find? fun source => source.eventId ∉ used with
  | some found =>
      exact ⟨found, rfl, .inr (mem_reverse.mp (mem_of_find?_eq_some hback))⟩
  | none => exact ⟨source, by simp [hunused], .inl rfl⟩

variable {event : HistoryEvent} {index : ℕ} {item : Dict}

section Rest

variable {events : List HistoryEvent} {rest : Placed} {hashes : List Text}
  {sources : List (Option ProvenanceSource)}

/-- The items behind the view, of which those that were not injected are the messages behind
it. -/
def Continues (rest : Placed) (events : List HistoryEvent) : Prop :=
  rest.recorded = (laterMessages events).map fun message => (message.1, .message message.2)

/-- In front of a recorded message stand the messages before it, and behind it those after. -/
theorem Continues.split (hrest : Continues rest events)
    (hitem : rest[index]? = some (item, some (.message event))) :
    ∃ before after, laterMessages events = before ++ (item, event) :: after ∧
      ∀ message ∈ after, ∃ later, index < later ∧
        rest[later]? = some (message.1, some (.message message.2)) := by
  obtain ⟨hinside, hget⟩ := List.getElem?_eq_some_iff.mp hitem
  have hparts : rest = rest.take index ++ (item, some (.message event)) :: rest.drop (index + 1) := by
    rw [← hget, ← drop_eq_getElem_cons hinside, take_append_drop]
  rw [Continues, hparts, Placed.recorded, filterMap_append, filterMap_cons] at hrest
  obtain ⟨before, tail, hmessages, -, htail⟩ := map_eq_append_iff.mp hrest.symm
  obtain ⟨message, after, rfl, hmessage, hafter⟩ := map_eq_cons_iff.mp htail
  obtain ⟨found, recordedBy⟩ := message
  cases hmessage
  refine ⟨before, after, hmessages, fun message hmem => ?_⟩
  have hlater : (message.1, Origin.message message.2) ∈
      (rest.drop (index + 1)).filterMap fun item => item.2.map (item.1, ·) := by
    rw [← hafter]
    exact mem_map_of_mem hmem
  obtain ⟨⟨other, origin⟩, hother, hsame⟩ := mem_filterMap.mp hlater
  obtain ⟨place, hplace⟩ := getElem?_of_mem hother
  rw [getElem?_drop] at hplace
  cases origin with
  | none => cases hsame
  | some origin =>
      cases hsame
      exact ⟨index + 1 + place, by omega, hplace⟩

/-- The candidates for a recorded message: the messages with its hash that were recorded after
it stand behind it. -/
theorem Continues.candidates (hrest : Continues rest events) {key : Text}
    (hitem : rest[index]? = some (item, some (.message event)))
    (hkey : provenanceHash normalizer hash item = some key) :
    ∃ front back, recorded normalizer hash key events = front ++ messageSource event :: back ∧
      ∀ source ∈ back, ∃ (later : ℕ) (message : Dict × HistoryEvent), index < later ∧
        rest[later]? = some (message.1, some (.message message.2)) ∧
        provenanceHash normalizer hash message.1 = some key ∧
        source = messageSource message.2 := by
  obtain ⟨before, after, hmessages, hafter⟩ := hrest.split hitem
  obtain ⟨older, holder⟩ : ∃ older, recorded normalizer hash key events =
      older ++ sourcesOf normalizer hash key (laterMessages events) := recorded_eq key events
  refine ⟨older ++ sourcesOf normalizer hash key before, sourcesOf normalizer hash key after,
    ?_, ?_⟩
  · rw [holder, hmessages, append_assoc]
    simp [sourcesOf, hkey]
  · intro source hsource
    obtain ⟨message, hmem, rfl⟩ := mem_map.mp hsource
    obtain ⟨hin, hsame⟩ := mem_filter.mp hmem
    obtain ⟨later, hlt, hlater⟩ := hafter message hin
    exact ⟨later, message, hlt, hlater, of_decide_eq_true hsame, rfl⟩

/-- The sources of items that take the newest message with their content. -/
structure Newest (normalizer : Normalizer) (hash : Text → Text) (events : List HistoryEvent)
    (rest : Placed) (hashes : List Text) (sources : List (Option ProvenanceSource)) : Prop where
  hashed : rest.items.mapM (provenanceHash normalizer hash) = some hashes
  length : sources.length = hashes.length
  newest : ∀ (index : ℕ) (key : Text), hashes[index]? = some key → sources[index]? =
    some (newest (eventIds (sources.take index)) (recorded normalizer hash key events))

theorem mem_eventIds_take :
    eventId ∈ eventIds (sources.take index) ↔
      ∃ (earlier : ℕ) (source : ProvenanceSource), earlier < index ∧
        sources[earlier]? = some (some source) ∧ source.eventId = eventId := by
  rw [mem_eventIds]
  constructor
  · rintro ⟨earlier, source, hsource, hsame⟩
    by_cases hlt : earlier < index
    · rw [getElem?_take_of_lt hlt] at hsource
      exact ⟨earlier, source, hlt, hsource, hsame⟩
    · rw [getElem?_take_eq_none (not_lt.mp hlt)] at hsource
      cases hsource
  · rintro ⟨earlier, source, hlt, hsource, hsame⟩
    exact ⟨earlier, source, by rwa [getElem?_take_of_lt hlt], hsame⟩

section

variable (hnewest : Newest normalizer hash events rest hashes sources)
include hnewest

theorem Newest.hash_at
    {item : Dict × Option Origin} (hitem : rest[index]? = some item) :
    ∃ key, hashes[index]? = some key ∧ provenanceHash normalizer hash item.1 = some key := by
  have hat := Converting.getElem?_of_mapM hnewest.hashed index
  rw [Placed.items, getElem?_map, hitem, Option.map_some, Option.bind_some] at hat
  have hinside : index < hashes.length := by
    rw [Converting.length_of_mapM hnewest.hashed, Placed.items, length_map]
    exact (List.getElem?_eq_some_iff.mp hitem).1
  exact ⟨hashes[index], getElem?_eq_getElem hinside,
    hat.symm.trans (getElem?_eq_getElem hinside)⟩

/-- A source is that of a message with the item's hash, and no item before took it. -/
theorem Newest.source_at
    (hsource : sources[index]? = some (some source)) :
    ∃ item key, rest[index]? = some item ∧ provenanceHash normalizer hash item.1 = some key ∧
      source ∈ recorded normalizer hash key events ∧
      source.eventId ∉ eventIds (sources.take index) := by
  have hinside : index < hashes.length :=
    hnewest.length ▸ (List.getElem?_eq_some_iff.mp hsource).1
  have hplaced : index < rest.length := by
    rwa [Converting.length_of_mapM hnewest.hashed, Placed.items, length_map] at hinside
  obtain ⟨key, hkey, hhash⟩ := hnewest.hash_at (getElem?_eq_getElem hplaced)
  have hfound := hnewest.newest index key hkey
  rw [hsource] at hfound
  exact ⟨rest[index], key, getElem?_eq_getElem hplaced, hhash,
    newest_eq_some (Option.some.inj hfound).symm⟩

/-- The recorded messages all take their own events just where each is the first item with its
content. -/
theorem Newest.own_iff
    (hrest : Continues rest events) (hids : (events.map HistoryEvent.eventId).Nodup) :
    (∀ (index : ℕ) (item : Dict) (event : HistoryEvent),
      rest[index]? = some (item, some (.message event)) →
        ∃ source, sources[index]? = some (some source) ∧ source.eventId = event.eventId) ↔
    ∀ index earlier : ℕ, earlier < index → ∀ (item : Dict) (event : HistoryEvent)
      (other : Dict × Option Origin),
      rest[index]? = some (item, some (.message event)) → rest[earlier]? = some other →
        provenanceHash normalizer hash other.1 ≠ provenanceHash normalizer hash item := by
  constructor
  · intro hown index earlier hlt item event other hitem hother hsame
    obtain ⟨key, hkey, hhash⟩ := hnewest.hash_at hitem
    obtain ⟨found, hfound, hfoundHash⟩ := hnewest.hash_at hother
    obtain rfl : found = key := Option.some.inj (hfoundHash.symm.trans (hsame.trans hhash))
    obtain ⟨source, hsource, hevent⟩ := hown index item event hitem
    obtain ⟨_, _, _, _, _, hfresh⟩ := hnewest.source_at hsource
    rw [hevent] at hfresh
    -- at the earlier item the event is still free, so that a source from there on was taken
    have hunused : (messageSource event).eventId ∉ eventIds (sources.take earlier) := by
      intro hused
      obtain ⟨place, taken, hplace, htaken, hid⟩ := mem_eventIds_take.mp hused
      exact hfresh (mem_eventIds_take.mpr ⟨place, taken, hplace.trans hlt, htaken, hid⟩)
    obtain ⟨front, back, hsplit, hback⟩ := hrest.candidates hitem hhash
    obtain ⟨taken, htaken, hcases⟩ := newest_append hunused front back
    have hearlier := hnewest.newest earlier found hfound
    rw [hsplit, htaken] at hearlier
    rcases hcases with rfl | hmem
    · exact hfresh (mem_eventIds_take.mpr ⟨earlier, _, hlt, hearlier, rfl⟩)
    · obtain ⟨later, message, hbehind, hlater, -, rfl⟩ := hback taken hmem
      obtain ⟨own, howned, hid⟩ := hown later message.1 message.2 hlater
      obtain ⟨_, _, _, _, _, hagain⟩ := hnewest.source_at howned
      rw [hid] at hagain
      exact hagain (mem_eventIds_take.mpr ⟨earlier, _, hlt.trans hbehind, hearlier, rfl⟩)
  · intro hfirst index item event hitem
    obtain ⟨key, hkey, hhash⟩ := hnewest.hash_at hitem
    obtain ⟨front, back, hsplit, hback⟩ := hrest.candidates hitem hhash
    obtain rfl : back = [] := by
      rw [eq_nil_iff_forall_not_mem]
      intro source hsource
      obtain ⟨later, message, hlt, hlater, hsame, -⟩ := hback source hsource
      exact hfirst later index hlt message.1 message.2 _ hlater hitem (hhash.trans hsame.symm)
    have hrecorded : messageSource event ∈ recorded normalizer hash key events := by
      rw [hsplit]
      exact mem_append_right _ (mem_singleton_self _)
    have hunused : (messageSource event).eventId ∉ eventIds (sources.take index) := by
      intro hused
      obtain ⟨earlier, taken, hlt, htaken, hid⟩ := mem_eventIds_take.mp hused
      obtain ⟨other, name, hother, hname, hmem, -⟩ := hnewest.source_at htaken
      obtain ⟨first, hinFirst, hfirstHash, rfl⟩ := mem_recorded.mp hmem
      obtain ⟨second, hinSecond, hsecondHash, hsame⟩ := mem_recorded.mp hrecorded
      have heq : first = second :=
        eq_of_eventId hids hinFirst hinSecond (hid.trans (congrArg _ hsame).symm)
      rw [heq, hsecondHash] at hfirstHash
      exact hfirst index earlier hlt item event other hitem hother
        (hname.trans (hfirstHash.symm.trans hhash.symm))
    obtain ⟨taken, htaken, hcases⟩ := newest_append hunused front []
    rcases hcases with rfl | hmem
    · refine ⟨messageSource event, ?_, rfl⟩
      rw [hnewest.newest index key hkey, hsplit, htaken]
    · cases hmem

end

end Rest

/-! ## Recorded items in order -/

section Order

variable {events : List HistoryEvent} {view : List Dict} {placed : Placed}

theorem recorded_cons (item : Dict × Option Origin) (rest : Placed) :
    Placed.recorded (item :: rest) =
      (item.2.map (item.1, ·)).toList ++ rest.recorded := by
  rw [Placed.recorded, filterMap_cons]
  cases item.2 <;> rfl

theorem fromView_eq (placed : Placed) :
    fromView placed = placed.recorded.countP fun item => item.2 = .view := by
  induction placed with
  | nil => rfl
  | cons item rest ih =>
      rw [fromView_cons, recorded_cons, countP_append, ih, Nat.add_comm]
      congr 1
      obtain ⟨item, origin⟩ := item
      cases origin with
      | none => rfl
      | some origin => simp [countP_singleton]

theorem Placed.Formed.fromView_eq_length (hformed : placed.Formed events view) :
    fromView placed = view.length := by
  rw [fromView_eq, hformed, countP_append, countP_map, countP_map]
  have hviews : view.countP ((fun item : Dict × Origin => decide (item.2 = .view)) ∘ (·, .view)) =
      view.length := countP_eq_length.mpr fun _ _ => rfl
  have hmessages : (laterMessages events).countP ((fun item : Dict × Origin =>
      decide (item.2 = .view)) ∘ fun message => (message.1, .message message.2)) = 0 :=
    countP_eq_zero.mpr fun _ _ => Bool.false_ne_true
  rw [hviews, hmessages, Nat.add_zero]

/-- No item of the view stands behind a message. -/
theorem Placed.Formed.view_first (hformed : placed.Formed events view)
    (hitem : placed[index]? = some (item, some (.message event))) :
    fromView (placed.drop index) = 0 := by
  have hordered : placed.recorded.Pairwise fun first second =>
      first.2 ≠ .view → second.2 ≠ .view := by
    rw [hformed, pairwise_append]
    refine ⟨?_, ?_, ?_⟩
    · rw [pairwise_map]
      exact pairwise_of_forall fun _ _ hview => absurd rfl hview
    · rw [pairwise_map]
      exact pairwise_of_forall fun _ _ _ heq => by cases heq
    · intro first hfirst second _ hview
      obtain ⟨_, _, rfl⟩ := mem_map.mp hfirst
      exact absurd rfl hview
  obtain ⟨hinside, hget⟩ := List.getElem?_eq_some_iff.mp hitem
  have hdrop : placed.drop index = (item, some (.message event)) :: placed.drop (index + 1) := by
    rw [← hget, ← drop_eq_getElem_cons hinside]
  rw [← take_append_drop index placed, Placed.recorded, filterMap_append,
    pairwise_append] at hordered
  have hbehind := hordered.2.1
  change (Placed.recorded (placed.drop index)).Pairwise _ at hbehind
  rw [hdrop, recorded_cons] at hbehind
  have hlater := pairwise_cons.mp hbehind
  rw [fromView_eq, hdrop, recorded_cons, countP_eq_zero]
  intro other hother
  rcases mem_cons.mp hother with rfl | hmem
  · exact Bool.false_ne_true
  · simpa using hlater.1 other hmem fun heq => by cases heq

/-- Where nothing stands in front of the items of the view, they come first. -/
theorem Placed.split_front {others : List (Dict × Origin)}
    (hrecorded : placed.recorded = view.map (·, .view) ++ others)
    (hfront : ∀ index < view.length, ∀ item, placed[index]? ≠ some (item, none)) :
    ∃ rest, placed = view.map (·, some .view) ++ rest ∧ Placed.recorded rest = others := by
  induction view generalizing placed with
  | nil => exact ⟨placed, rfl, hrecorded⟩
  | cons item view ih =>
      cases placed with
      | nil => cases hrecorded
      | cons head tail =>
          obtain ⟨other, origin⟩ := head
          cases origin with
          | none => exact absurd rfl (hfront 0 (Nat.succ_pos _) other)
          | some origin =>
              rw [recorded_cons, map_cons, cons_append] at hrecorded
              obtain ⟨hsame, htail⟩ := List.cons.inj hrecorded
              cases hsame
              obtain ⟨rest, rfl, hrest⟩ := ih htail fun index hindex =>
                hfront (index + 1) (Nat.succ_lt_succ hindex)
              exact ⟨rest, rfl, hrest⟩

end Order

/-! ## Any list of items -/

section Entries

variable {Reference : Type}

/-- The entries of any items: the view's for those that its cursor accounts for. -/
theorem entries_eq (index : ItemProvenanceIndex Reference)
    (hview : index.viewSource = none → index.viewHashes = []) (hashes : List Text)
    (fallbackEventId : Option Text) :
    let marks := matchView index.viewHashes hashes
    index.entries hashes fallbackEventId =
      (marks.zip (matchMessages index.messages [] [] (hashes.zip marks))).map fun item =>
        if item.1 then (index.viewSource.map ProvenanceSource.toDict).getD []
        else entryOf fallbackEventId item.2 := by
  intro marks
  rw [entries]
  cases hsource : index.viewSource with
  | none =>
      have hmarks : marks = hashes.map fun _ => false := by
        rw [← matchView_nil, ← hview hsource]
      rw [hmarks]
      rfl
  | some source => rfl

variable [DecidableEq Reference]

/-- What a call that does not raise has read, and the entries that it returns. -/
structure Aligned (normalizer : Normalizer) (hash : Text → Text) (events : List HistoryEvent)
    (view items : List Dict) (fallbackEventId : Option Text) (entries : List Dict)
    (messages : MessageIndex) (cursor hashes : List Text) : Prop where
  indexed : events.foldlM (indexMessage normalizer hash) [] = some messages
  viewed : view.mapM (provenanceHash normalizer hash) = some cursor
  hashed : items.mapM (provenanceHash normalizer hash) = some hashes
  entries_eq : entries = ((matchView cursor hashes).zip
    (matchMessages messages [] [] (hashes.zip (matchView cursor hashes)))).map fun item =>
      if item.1 then viewEntry events else entryOf fallbackEventId item.2

theorem align_eq_some {normalizer : Normalizer} {hash : Text → Text}
    {read : Reference → HistoryEvent} {calls : List (Call Reference)} {events : List Reference}
    {view items entries : List Dict} (hview : latestItems (events.map read) = some view)
    {fallbackEventId : Option Text}
    (hresult : ((alignAll normalizer hash read {} calls).2.align normalizer hash read items events
      fallbackEventId).1 = some entries) :
    ∃ messages cursor hashes, Aligned normalizer hash (events.map read) view items fallbackEventId
      entries messages cursor hashes := by
  have hfresh := congrArg Prod.fst (align_eq_fresh normalizer hash read
    (current_alignAll normalizer hash read (current_empty normalizer hash read) calls) items events
    fallbackEventId)
  rw [hfresh, align, sync_eq_extend normalizer hash read (current_empty normalizer hash read)]
    at hresult
  cases hsync : extend normalizer hash read {} events with
  | none =>
      rw [hsync] at hresult
      cases hresult
  | some synced =>
      rw [hsync] at hresult
      obtain ⟨hindexed, hviewed, hsource⟩ := extend_eq_some hsync hview
      obtain ⟨hashes, hhashed, hentries⟩ := Option.map_eq_some_iff.mp hresult
      have hempty : synced.viewSource = none → synced.viewHashes = [] := by
        intro hnone
        rw [hsource, Option.map_eq_none_iff] at hnone
        rw [latestItems, hnone, Option.elim_none] at hview
        obtain rfl : [] = view := Option.some.inj hview
        exact (Option.some.inj hviewed).symm
      have hentry : (synced.viewSource.map ProvenanceSource.toDict).getD [] =
          viewEntry (events.map read) := by
        rw [hsource, Option.map_map]
        rfl
      refine ⟨synced.messages, synced.viewHashes, hashes, hindexed, hviewed, hhashed, ?_⟩
      rw [← hentries, entries_eq synced hempty, hentry]

end Entries

section Attribution

variable {events : List HistoryEvent} {view : List Dict} {placed : Placed}
  {fallbackEventId : Option Text} {entries : List Dict} {messages : MessageIndex}
  {cursor hashes : List Text}

theorem not_isView_of_message (hmessage : (committedMessage event).isSome = true) :
    isView event = false := by
  rw [isView, decide_eq_false_iff_not]
  intro hkind
  rw [committedMessage, hkind, if_neg (by decide)] at hmessage
  cases hmessage

/-- The fallback is no message and no view. -/
def FallbackApart (events : List HistoryEvent) (fallbackEventId : Option Text) : Prop :=
  ∀ event ∈ events, (committedMessage event).isSome = true ∨ isView event = true →
    fallbackEventId ≠ some event.eventId

variable {last : HistoryEvent}

theorem lastView_eq_some (hlast : lastView events = some last) :
    last ∈ events ∧ isView last = true :=
  ⟨mem_reverse.mp (mem_of_find?_eq_some hlast), find?_some hlast⟩

theorem viewEntry_eq (hlast : lastView events = some last) :
    viewEntry events = (Context.viewSource last).toDict := by
  rw [viewEntry, hlast]
  rfl

/-- The entry of the view names no message. -/
theorem cites_viewEntry (hids : (events.map HistoryEvent.eventId).Nodup) (hevent : event ∈ events)
    (hmessage : (committedMessage event).isSome = true) :
    cites event.eventId (viewEntry events) = false := by
  cases hlast : lastView events with
  | none =>
      rw [viewEntry, hlast]
      rfl
  | some last =>
      obtain ⟨hmem, hisView⟩ := lastView_eq_some hlast
      rw [viewEntry_eq hlast, cites_toDict, decide_eq_false_iff_not]
      intro hsame
      have heq : last = event := eq_of_eventId hids hmem hevent hsame
      rw [heq, not_isView_of_message hmessage] at hisView
      cases hisView

namespace Aligned

variable (haligned : Aligned normalizer hash events view placed.items fallbackEventId entries
  messages cursor hashes)
include haligned

theorem length_hashes : hashes.length = placed.length := by
  rw [Converting.length_of_mapM haligned.hashed, Placed.items, length_map]

/-- A source is that of a message event. -/
theorem source_eq (hsource : some source ∈
    matchMessages messages [] [] (hashes.zip (matchView cursor hashes))) :
    ∃ event ∈ events, (committedMessage event).isSome = true ∧ messageSource event = source := by
  obtain ⟨key, hmem⟩ := mem_of_matchMessages hsource
  rw [lookup_indexed haligned.indexed key] at hmem
  obtain ⟨event, hevent, hbind, hsame⟩ := mem_recorded.mp hmem
  obtain ⟨message, hmessage, -⟩ := Option.bind_eq_some_iff.mp hbind
  exact ⟨event, hevent, by rw [hmessage, Option.isSome_some], hsame⟩

/-- Any items get one entry each, and no message event is used twice. -/
theorem accounted (hids : (events.map HistoryEvent.eventId).Nodup)
    (hfallback : FallbackApart events fallbackEventId) : Accounted events placed entries where
  length := by
    rw [haligned.entries_eq, length_map, length_zip, length_matchMessages,
      length_zip, length_matchView, Nat.min_self, Nat.min_self, haligned.length_hashes]
  once := by
    intro event hevent hmessage
    have hlength : (matchMessages messages [] [] (hashes.zip (matchView cursor hashes))).length ≤
        (matchView cursor hashes).length := by
      rw [length_matchMessages, length_zip, length_matchView, Nat.min_self]
    calc entries.countP (cites event.eventId)
        ≤ (eventIds (((matchView cursor hashes).zip (matchMessages messages [] []
            (hashes.zip (matchView cursor hashes)))).map Prod.snd)).count event.eventId := by
          rw [haligned.entries_eq]
          exact countP_entries_le (cites_viewEntry hids hevent hmessage)
            (hfallback event hevent (.inl hmessage)) _
      _ = (eventIds (matchMessages messages [] []
            (hashes.zip (matchView cursor hashes)))).count event.eventId := by
          rw [map_snd_zip hlength]
      _ ≤ 1 := nodup_iff_count_le_one.mp (nodup_matchMessages _ _ _ _).1 _

/-- An item of the view that has the view's entry is one that the cursor accounts for. -/
theorem marked (hids : (events.map HistoryEvent.eventId).Nodup)
    (hfallback : FallbackApart events fallbackEventId) (hlast : lastView events = some last)
    (hentry : entries[index]? = some (viewEntry events)) :
    (matchView cursor hashes)[index]? = some true := by
  rw [haligned.entries_eq, getElem?_map, Option.map_eq_some_iff] at hentry
  obtain ⟨⟨mark, source⟩, hpair, hsame⟩ := hentry
  obtain ⟨hmark, hsource⟩ := getElem?_zip_eq_some.mp hpair
  cases mark with
  | true => exact hmark
  | false =>
      obtain ⟨hmem, hisView⟩ := lastView_eq_some hlast
      have hcites : cites last.eventId (entryOf fallbackEventId source) = true := by
        change entryOf fallbackEventId source = viewEntry events at hsame
        rw [hsame, viewEntry_eq hlast, cites_toDict]
        exact decide_eq_true rfl
      obtain ⟨found, rfl, hid⟩ := entryOf_cites (hfallback last hmem (.inr hisView)) hcites
      obtain ⟨event, hevent, hmessage, rfl⟩ := haligned.source_eq (mem_of_getElem? hsource)
      have heq : event = last := eq_of_eventId hids hevent hmem hid
      rw [heq] at hmessage
      rw [not_isView_of_message hmessage] at hisView
      cases hisView

/-- Where every item of the view is traced to it, no other item stands in front of them. -/
theorem front (hview : latestItems events = some view) (hformed : placed.Formed events view)
    (hids : (events.map HistoryEvent.eventId).Nodup)
    (hfallback : FallbackApart events fallbackEventId)
    (hown : ∀ (index : ℕ) (item : Dict), placed[index]? = some (item, some .view) →
      entries[index]? = some (viewEntry events)) :
    ∀ index < view.length, ∀ item, placed[index]? ≠ some (item, none) := by
  have hcount := hformed.fromView_eq_length
  cases hlast : lastView events with
  | none =>
      rw [latestItems, hlast, Option.elim_none] at hview
      obtain rfl : [] = view := Option.some.inj hview
      exact fun index hindex => absurd hindex (Nat.not_lt_zero _)
  | some last =>
      rw [← hcount]
      refine front_of_marked haligned.length_hashes
        (fun index item hitem => haligned.marked hids hfallback hlast (hown index item hitem))
        ?_ (fun index item event hitem => hformed.view_first hitem)
      rw [Converting.length_of_mapM haligned.viewed, hcount]

/-- A call that does not raise has found a hash for every message and item. -/
theorem hashes_ne_none (message : Dict)
    (hmem : message ∈ events.filterMap committedMessage ++ placed.items) :
    provenanceHash normalizer hash message ≠ none := by
  rcases mem_append.mp hmem with hcommitted | hitem
  · exact ne_none_of_indexed haligned.indexed hcommitted
  · exact Converting.ne_none_of_mapM haligned.hashed hitem

end Aligned

/-- The sources of the items behind the view are the newest with their content. -/
theorem newest_of_traced {rest : Placed} {sources : List (Option ProvenanceSource)}
    (htraced : Traced normalizer hash events view rest.items fallbackEventId entries hashes
      sources) : Newest normalizer hash events rest hashes sources where
  hashed := htraced.hashed
  length := by
    have hlength := htraced.length
    rw [htraced.entries_eq, length_append, length_append, length_map,
      length_map, Nat.add_left_cancel_iff] at hlength
    rw [hlength, Converting.length_of_mapM htraced.hashed]
  newest := htraced.newest

/-- The entry of a message is that of its event just where its source is the event. -/
theorem entry_message_iff {rest : Placed} {sources : List (Option ProvenanceSource)}
    (htraced : Traced normalizer hash events view rest.items fallbackEventId entries hashes
      sources) (hids : (events.map HistoryEvent.eventId).Nodup) (hevent : event ∈ events)
    (hother : fallbackEventId ≠ some event.eventId) :
    entries[view.length + index]? = some (messageSource event).toDict ↔
      ∃ source, sources[index]? = some (some source) ∧ source.eventId = event.eventId := by
  have hat : entries[view.length + index]? = sources[index]?.map (entryOf fallbackEventId) := by
    rw [htraced.entries_eq, getElem?_append_right (by simp), length_map,
      Nat.add_sub_cancel_left, getElem?_map]
  rw [hat, Option.map_eq_some_iff]
  constructor
  · rintro ⟨source, hsource, hentry⟩
    have hcites : cites event.eventId (entryOf fallbackEventId source) = true := by
      rw [hentry, cites_toDict]
      exact decide_eq_true rfl
    obtain ⟨found, rfl, hid⟩ := entryOf_cites hother hcites
    exact ⟨found, hsource, hid⟩
  · rintro ⟨source, hsource, hid⟩
    obtain ⟨_, _, _, _, hmem, _⟩ := (newest_of_traced htraced).source_at hsource
    obtain ⟨first, hfirst, _, rfl⟩ := mem_recorded.mp hmem
    have heq : first = event := eq_of_eventId hids hfirst hevent hid
    exact ⟨_, hsource, by rw [heq]; rfl⟩

end Attribution

section Placement

variable {events : List HistoryEvent} {view : List Dict} {rest : Placed}

theorem getElem?_behind (index : ℕ) :
    (view.map (·, some Origin.view) ++ rest)[view.length + index]? = rest[index]? := by
  rw [getElem?_append_right (by simp), length_map, Nat.add_sub_cancel_left]

/-- An item that the view recorded stands among the items of the view. -/
theorem Continues.lt_of_view (hrest : Continues rest events)
    (hitem : (view.map (·, some Origin.view) ++ rest)[index]? = some (item, some .view)) :
    index < view.length := by
  by_contra hge
  obtain ⟨place, rfl⟩ := Nat.exists_eq_add_of_le (not_lt.mp hge)
  rw [getElem?_behind] at hitem
  have hrecorded : (item, Origin.view) ∈ rest.recorded :=
    mem_filterMap.mpr ⟨_, mem_of_getElem? hitem, rfl⟩
  rw [hrest] at hrecorded
  obtain ⟨_, _, hsame⟩ := mem_map.mp hrecorded
  cases hsame

/-- A message stands behind the items of the view, and its event is one of the events. -/
theorem exists_of_message (hitem : (view.map (·, some Origin.view) ++ rest)[index]? =
      some (item, some (.message event))) :
    ∃ place, index = view.length + place ∧ rest[place]? = some (item, some (.message event)) := by
  by_cases hlt : index < view.length
  · rw [getElem?_append_left (by simpa using hlt), getElem?_map,
      Option.map_eq_some_iff] at hitem
    obtain ⟨_, _, hsame⟩ := hitem
    cases hsame
  · obtain ⟨place, rfl⟩ := Nat.exists_eq_add_of_le (not_lt.mp hlt)
    exact ⟨place, rfl, by rwa [getElem?_behind] at hitem⟩

theorem Continues.mem_events (hrest : Continues rest events)
    (hitem : rest[index]? = some (item, some (.message event))) :
    event ∈ events ∧ (committedMessage event).isSome = true := by
  have hrecorded : (item, Origin.message event) ∈ rest.recorded :=
    mem_filterMap.mpr ⟨_, mem_of_getElem? hitem, rfl⟩
  rw [hrest] at hrecorded
  obtain ⟨message, hmem, hsame⟩ := mem_map.mp hrecorded
  obtain ⟨found, hfound, hmessage⟩ := mem_filterMap.mp hmem
  obtain ⟨content, hcontent, rfl⟩ := Option.map_eq_some_iff.mp hmessage
  cases hsame
  exact ⟨(behindView_suffix events).subset hfound, by rw [hcontent, Option.isSome_some]⟩

theorem items_append (view : List Dict) (rest : Placed) :
    Placed.items (view.map (·, some Origin.view) ++ rest) = view ++ rest.items := by
  rw [Placed.items, map_append, map_map]
  exact congrArg (· ++ rest.items) (map_id view)

variable {normalizer : Normalizer} {hash : Text → Text} {fallbackEventId : Option Text}
  {entries : List Dict} {hashes : List Text} {sources : List (Option ProvenanceSource)}

/-- Where the recorded items are traced to their own events, each message is the first item
behind the view with its content. -/
theorem first_of_own (htraced : Traced normalizer hash events view rest.items fallbackEventId
      entries hashes sources) (hrest : Continues rest events)
    (hids : (events.map HistoryEvent.eventId).Nodup)
    (hfallback : FallbackApart events fallbackEventId)
    (hown : ∀ (index : ℕ) (item : Dict) (origin : Origin),
      (view.map (·, some Origin.view) ++ rest)[index]? = some (item, some origin) →
        entries[index]? = some (origin.entry events)) (index earlier : ℕ)
    (hbehind : view.length ≤ earlier) (hlt : earlier < index) (item : Dict)
    (event : HistoryEvent) (other : Dict × Option Origin)
    (hitem : (view.map (·, some Origin.view) ++ rest)[index]? =
      some (item, some (.message event)))
    (hother : (view.map (·, some Origin.view) ++ rest)[earlier]? = some other) :
    provenanceHash normalizer hash other.1 ≠ provenanceHash normalizer hash item := by
  obtain ⟨place, rfl, hplaced⟩ := exists_of_message hitem
  obtain ⟨before, rfl⟩ := Nat.exists_eq_add_of_le hbehind
  rw [getElem?_behind] at hother
  refine ((newest_of_traced htraced).own_iff hrest hids).mp ?_ place before
    (Nat.add_lt_add_iff_left.mp hlt) item event other hplaced hother
  intro own message source hmessage
  obtain ⟨hevent, hcommitted⟩ := hrest.mem_events hmessage
  apply (entry_message_iff htraced hids hevent (hfallback source hevent (.inl hcommitted))).mp
  apply hown (view.length + own) message (.message source)
  rw [getElem?_behind, hmessage]

/-- Conversely, then every recorded item is traced to its own event. -/
theorem own_of_first (htraced : Traced normalizer hash events view rest.items fallbackEventId
      entries hashes sources) (hrest : Continues rest events)
    (hids : (events.map HistoryEvent.eventId).Nodup)
    (hfallback : FallbackApart events fallbackEventId)
    (hundisturbed : Undisturbed normalizer hash events view
      (view.map (·, some Origin.view) ++ rest)) (index : ℕ) (item : Dict) (origin : Origin)
    (hitem : (view.map (·, some Origin.view) ++ rest)[index]? = some (item, some origin)) :
    entries[index]? = some (origin.entry events) := by
  cases origin with
  | view =>
      have hlt := hrest.lt_of_view hitem
      rw [htraced.entries_eq, getElem?_append_left (by simpa using hlt),
        getElem?_map, getElem?_eq_getElem hlt]
      rfl
  | message event =>
      obtain ⟨place, rfl, hplaced⟩ := exists_of_message hitem
      obtain ⟨hevent, hcommitted⟩ := hrest.mem_events hplaced
      apply (entry_message_iff htraced hids hevent
        (hfallback event hevent (.inl hcommitted))).mpr
      refine ((newest_of_traced htraced).own_iff hrest hids).mpr ?_ place item event hplaced
      intro later earlier hlt message source other hlater hearlier
      apply hundisturbed.first (view.length + later) (view.length + earlier)
        (Nat.le_add_right _ _) (Nat.add_lt_add_left hlt _) message source other
      · rw [getElem?_behind, hlater]
      · rw [getElem?_behind, hearlier]

end Placement

/-- In a call of any index, any items get one entry each and no message event is used twice; and
all recorded items are traced to their own events just where nothing was injected in front of an
item of the view, and behind the view each message is the first item with its content. -/
theorem align_attributes {Reference : Type} [DecidableEq Reference] (normalizer : Normalizer)
    (hash : Text → Text) (read : Reference → HistoryEvent) (calls : List (Call Reference))
    (events : List Reference) {view : List Dict}
    (hview : latestItems (events.map read) = some view) (placed : Placed)
    (hformed : placed.Formed (events.map read) view) (fallbackEventId : Option Text)
    (hids : ((events.map read).map HistoryEvent.eventId).Nodup)
    (hfallback : FallbackApart (events.map read) fallbackEventId) :
    let index := (alignAll normalizer hash read {} calls).2
    let result := (index.align normalizer hash read placed.items events fallbackEventId).1
    (∀ entries, result = some entries → Accounted (events.map read) placed entries) ∧
      ((∃ entries, result = some entries ∧ Attributed (events.map read) placed entries) ↔
        Undisturbed normalizer hash (events.map read) view placed) := by
  intro index result
  have haccounted : ∀ entries, result = some entries →
      Accounted (events.map read) placed entries := by
    intro entries hresult
    obtain ⟨messages, cursor, hashes, haligned⟩ := align_eq_some hview hresult
    exact haligned.accounted hids hfallback
  refine ⟨haccounted, ?_, ?_⟩
  · rintro ⟨entries, hresult, hattributed⟩
    obtain ⟨messages, cursor, hashes, haligned⟩ := align_eq_some hview hresult
    have hfront := haligned.front hview hformed hids hfallback fun place item hitem =>
      hattributed.own place item .view hitem
    refine ⟨haligned.hashes_ne_none, hfront, ?_⟩
    obtain ⟨rest, rfl, hrest⟩ := Placed.split_front hformed hfront
    rcases align_traces normalizer hash read calls events hview rest.items fallbackEventId with
      ⟨hnone, -⟩ | ⟨traced, names, sources, hsome, htraced⟩
    · rw [← items_append] at hnone
      cases hnone.symm.trans hresult
    · rw [← items_append] at hsome
      obtain rfl : traced = entries := Option.some.inj (hsome.symm.trans hresult)
      exact first_of_own htraced hrest hids hfallback hattributed.own
  · intro hundisturbed
    obtain ⟨rest, rfl, hrest⟩ := Placed.split_front hformed hundisturbed.front
    rcases align_traces normalizer hash read calls events hview rest.items fallbackEventId with
      ⟨-, message, hmem, hnone⟩ | ⟨entries, names, sources, hsome, htraced⟩
    · rw [← items_append] at hmem
      exact absurd hnone (hundisturbed.hashed message hmem)
    · rw [← items_append] at hsome
      exact ⟨entries, hsome, haccounted entries hsome,
        own_of_first htraced hrest hids hfallback hundisturbed⟩

/-! ## An item in front of the view -/

def recordedEvent (eventId kind : String) (payload : Dict) : HistoryEvent where
  schemaVersion := 1
  seq := 1
  eventId := lit eventId
  kind := lit kind
  createdAt := .nan
  sessionGeneration := 0
  payload

def userItem (content : String) : Dict :=
  [(lit "role", .str (lit "user")), (lit "content", .str (lit content))]

def committed (eventId content : String) : HistoryEvent :=
  recordedEvent eventId "message_committed" [(lit "message", .obj (userItem content))]

def viewed (eventId content : String) : HistoryEvent :=
  recordedEvent eventId "context_view_committed" [(lit "items", .arr [.obj (userItem content)])]

/-- The items of one view, and a message behind it with an injected item in front. -/
theorem align_attributes_behind :
    let events := [committed "m1" "first", viewed "v1" "summary", committed "m2" "second"]
    let placed : Placed := [(userItem "summary", some .view), (userItem "injected", none),
      (userItem "second", some (.message (committed "m2" "second")))]
    let result := (align Normalizer.identity id id {} placed.items events none).1
    (∀ entries, result = some entries → Accounted (events.map id) placed entries) ∧
      ((∃ entries, result = some entries ∧ Attributed (events.map id) placed entries) ↔
        Undisturbed Normalizer.identity id (events.map id) [userItem "summary"] placed) :=
  align_attributes Normalizer.identity id id []
    [committed "m1" "first", viewed "v1" "summary", committed "m2" "second"]
    (show latestItems _ = some [userItem "summary"] from rfl)
    [(userItem "summary", some .view), (userItem "injected", none),
      (userItem "second", some (.message (committed "m2" "second")))]
    (by decide +kernel) none (by decide +kernel) (fun _ _ _ hsame => by cases hsame)

/-- An injected item in front of the only item of the view: the view's item loses its event. -/
theorem align_loses_events :
    let events := [viewed "v1" "summary"]
    let placed : Placed := [(userItem "injected", none), (userItem "summary", some .view)]
    latestItems events = some [userItem "summary"] ∧ placed.Formed events [userItem "summary"] ∧
      (events.map HistoryEvent.eventId).Nodup ∧
      ¬ ∃ entries, (align Normalizer.identity id id {} placed.items events none).1 =
        some entries ∧ Attributed events placed entries := by
  refine ⟨by decide +kernel, by decide +kernel, by decide +kernel, ?_⟩
  rintro ⟨entries, hresult, hattributed⟩
  have hentries : (align Normalizer.identity id id {} [userItem "injected", userItem "summary"]
      [viewed "v1" "summary"] none).1 = some [unattributed none, unattributed none] := by
    decide +kernel
  obtain rfl : [unattributed none, unattributed none] = entries :=
    Option.some.inj (hentries.symm.trans hresult)
  have hown := hattributed.own 1 (userItem "summary") .view rfl
  exact absurd hown (by decide +kernel)

end ReuleauxCoder.Context.ItemProvenanceIndex
