import ReuleauxCoder.Agent.Generations

/-!
# What a restore takes as current

While generations only grow along the history, the events of the greatest
generation are a suffix of it, and a discarded admission never opens again: the
record of its discard follows it into every suffix.  When moreover each process
restores with a generation above everything recorded before its last reset, that
suffix is what the most recent process recorded since its last reset.  A process
counts from zero, so the second condition is not automatic.
-/

namespace ReuleauxCoder.Generations

open PyText PyJson Transition List
open History (Attribution Dict HistoryEvent HistoryLedger Numbered Outcome Readings World
  create_numbered newEvent)
open Steering (Agent)

/-! ## Recovered admissions -/

variable {events : List HistoryEvent} {id : Text}

theorem mem_keys_noteAdmission {admitted : List (Text × HistoryEvent)} :
    id ∈ (events.foldl noteAdmission admitted).map Prod.fst ↔
      id ∈ admitted.map Prod.fst ∨ id ∈ events.filterMap admittedKey := by
  induction events generalizing admitted with
  | nil => simp
  | cons event rest ih =>
      rw [foldl_cons, ih, noteAdmission]
      cases hkey : admittedKey event with
      | none => simp [hkey]
      | some key =>
          simp only [mem_keys_store, filterMap_cons, hkey, mem_cons]
          tauto

theorem nodup_keys_noteAdmission {admitted : List (Text × HistoryEvent)}
    (hnodup : (admitted.map Prod.fst).Nodup) :
    ((events.foldl noteAdmission admitted).map Prod.fst).Nodup := by
  induction events generalizing admitted with
  | nil => exact hnodup
  | cons event rest ih =>
      rw [foldl_cons]
      apply ih
      rw [noteAdmission]
      cases admittedKey event with
      | none => exact hnodup
      | some key => exact nodup_keys_store key event hnodup

theorem nodup_orphaned (events : List HistoryEvent) :
    ((orphaned events).map Prod.fst).Nodup := by
  have hsublist := (filter_sublist (l := events.foldl noteAdmission [])
    (p := fun entry => entry.1 ∉ events.filterMap terminalKey)).map Prod.fst
  exact hsublist.nodup (nodup_keys_noteAdmission nodup_nil)

theorem mem_orphaned (hid : id ∈ (orphaned events).map Prod.fst) :
    id ∈ events.filterMap admittedKey ∧ id ∉ events.filterMap terminalKey := by
  obtain ⟨entry, hentry, rfl⟩ := mem_map.mp hid
  obtain ⟨hadmitted, hopen⟩ := mem_filter.mp hentry
  have hkeys := mem_keys_noteAdmission.mp (mem_map_of_mem hadmitted)
  exact ⟨by simpa using hkeys, by simpa using hopen⟩

theorem steeringKey_ne_nil {payload : Dict} (hkey : steeringKey payload = some id) : id ≠ [] := by
  rw [steeringKey] at hkey
  split at hkey
  · split at hkey
    · cases hkey
    · rename_i hfilled
      cases hkey
      exact hfilled
  · cases hkey

theorem ne_nil_of_mem_admitted (hid : id ∈ events.filterMap admittedKey) : id ≠ [] := by
  obtain ⟨event, -, hkey⟩ := mem_filterMap.mp hid
  rw [admittedKey] at hkey
  split at hkey
  · exact steeringKey_ne_nil hkey
  · cases hkey

/-- The loop records one discard for each entry and nothing else. -/
theorem grew_discardRecovered (agentId : Text) (readings : ℕ → Readings) (index : ℕ)
    (entries : List (Text × HistoryEvent)) (world : World) :
    ∃ added, Grew world.ledger
        (discardRecovered agentId readings index entries world).ledger added ∧
      (∀ event ∈ added, admittedKey event = none) ∧
      ∀ id ∈ entries.map Prod.fst, id ≠ [] → id ∈ added.filterMap terminalKey := by
  induction entries generalizing index world with
  | nil =>
      refine ⟨[], ⟨(append_nil _).symm, rfl, ?_, fun hnumbered => hnumbered⟩, ?_, ?_⟩
      all_goals simp
  | cons entry rest ih =>
      obtain ⟨added, hgrew, hadmitted, hterminal⟩ := ih (index + 1)
        (recordRecovery agentId (readings index) world entry)
      have hone := grew_append (readings index) (readings index).first world
        (lit "steering_discarded")
        [(lit "steering_id", .str entry.1), (lit "reason", .str (lit "session_recovery"))]
        { agentId := History.orText entry.2.agentId (some agentId), turnId := entry.2.turnId }
      refine ⟨_, hone.trans hgrew, ?_, ?_⟩
      · intro event hevent
        rcases mem_append.mp hevent with hfirst | hrest
        · rw [mem_singleton.mp hfirst]
          simp [admittedKey, newEvent]
        · exact hadmitted event hrest
      · intro id hid hfilled
        rw [filterMap_append, mem_append]
        rcases mem_cons.mp hid with rfl | hrest
        · apply Or.inl
          simp [terminalKey, newEvent, steeringKey, field, hfilled]
        · exact Or.inr (hterminal id hrest hfilled)

/-! ## Closed admissions -/

/-- Wherever the history is cut, a suffix that has the admission has a terminal
record for it. -/
def Closed (events : List HistoryEvent) (id : Text) : Prop :=
  ∀ cut, id ∈ (events.drop cut).filterMap admittedKey →
    id ∈ (events.drop cut).filterMap terminalKey

variable {added : List HistoryEvent} {event : HistoryEvent} {generation : ℤ}

theorem Closed.append (hclosed : Closed events id) (hfresh : id ∉ added.filterMap admittedKey) :
    Closed (events ++ added) id := by
  intro cut hid
  rw [drop_append, filterMap_append, mem_append] at hid ⊢
  rcases hid with hold | hnew
  · exact Or.inl (hclosed cut hold)
  · have hsublist := (List.drop_sublist (cut - events.length) added).filterMap admittedKey
    exact absurd (hsublist.subset hnew) hfresh

theorem closed_of_terminal (hfresh : id ∉ added.filterMap admittedKey)
    (hterminal : id ∈ added.filterMap terminalKey) : Closed (events ++ added) id := by
  intro cut hid
  rw [drop_append, filterMap_append, mem_append] at hid ⊢
  by_cases hcut : cut ≤ events.length
  · apply Or.inr
    rw [Nat.sub_eq_zero_of_le hcut]
    exact hterminal
  · rw [drop_eq_nil_of_le (Nat.le_of_not_le hcut)] at hid
    rcases hid with hold | hnew
    · cases hold
    · have hsublist := (List.drop_sublist (cut - events.length) added).filterMap admittedKey
      exact absurd (hsublist.subset hnew) hfresh

/-! ## The greatest generation -/

theorem sessionGeneration_le_trusted (hevent : event ∈ events) :
    event.sessionGeneration ≤ trustedGeneration events := by
  have hmem := mem_map_of_mem (f := HistoryEvent.sessionGeneration) hevent
  rw [trustedGeneration]
  cases hmax : (events.map HistoryEvent.sessionGeneration).max? with
  | none =>
      rw [max?_eq_none_iff.mp hmax] at hmem
      cases hmem
  | some greatest => exact (max?_eq_some_iff.mp hmax).2 _ hmem

theorem trustedGeneration_eq (hevent : event ∈ events)
    (hgreatest : ∀ other ∈ events, other.sessionGeneration ≤ event.sessionGeneration) :
    trustedGeneration events = event.sessionGeneration := by
  have hmax : (events.map HistoryEvent.sessionGeneration).max? = some event.sessionGeneration := by
    rw [max?_eq_some_iff]
    refine ⟨mem_map_of_mem hevent, ?_⟩
    intro generation hgeneration
    obtain ⟨other, hother, rfl⟩ := mem_map.mp hgeneration
    exact hgreatest other hother
  rw [trustedGeneration, hmax, Option.getD_some]

/-- In a history of growing generations the greatest one is a suffix. -/
theorem filter_eq_drop (hordered : events.Pairwise fun left right =>
      left.sessionGeneration ≤ right.sessionGeneration)
    (hbound : ∀ event ∈ events, event.sessionGeneration ≤ generation) :
    ∃ cut, (events.filter fun event => event.sessionGeneration = generation) =
      events.drop cut := by
  induction events with
  | nil => exact ⟨0, rfl⟩
  | cons event rest ih =>
      rw [pairwise_cons] at hordered
      by_cases hevent : event.sessionGeneration = generation
      · refine ⟨0, ?_⟩
        rw [drop_zero, filter_eq_self]
        intro other hother
        rcases mem_cons.mp hother with rfl | hrest
        · simpa using hevent
        · have hbelow := hordered.1 other hrest
          have habove := hbound other hother
          simp only [decide_eq_true_eq]
          omega
      · obtain ⟨cut, hcut⟩ := ih hordered.2 fun other hother =>
          hbound other (mem_cons_of_mem event hother)
        refine ⟨cut + 1, ?_⟩
        rw [drop_succ_cons, ← hcut, filter_cons_of_neg (by simpa using hevent)]

/-! ## Layers -/

/-- Events before the mark have lower generations, those after it the given one. -/
structure Layers (events : List HistoryEvent) (mark : ℕ) (generation : ℤ) : Prop where
  ordered : events.Pairwise fun left right => left.sessionGeneration ≤ right.sessionGeneration
  within : mark ≤ events.length
  older : ∀ event ∈ events.take mark, event.sessionGeneration < generation
  recent : ∀ event ∈ events.drop mark, event.sessionGeneration = generation

theorem Layers.le {mark : ℕ} (hlayers : Layers events mark generation) (hevent : event ∈ events) :
    event.sessionGeneration ≤ generation := by
  rw [← take_append_drop mark events] at hevent
  rcases mem_append.mp hevent with hold | hnew
  · exact (hlayers.older event hold).le
  · exact (hlayers.recent event hnew).le

theorem Layers.grow {mark : ℕ} (hlayers : Layers events mark generation)
    (hadded : ∀ event ∈ added, event.sessionGeneration = generation) :
    Layers (events ++ added) mark generation := by
  constructor
  · rw [pairwise_append]
    refine ⟨hlayers.ordered, ?_, ?_⟩
    · apply pairwise_of_forall_mem_list
      intro left hleft right hright
      exact (hadded left hleft).le.trans (hadded right hright).ge
    · intro left hleft right hright
      exact (hlayers.le hleft).trans (hadded right hright).ge
  · exact hlayers.within.trans (by simp)
  · rw [take_append_of_le_length hlayers.within]
    exact hlayers.older
  · rw [drop_append_of_le_length hlayers.within]
    intro event hevent
    rcases mem_append.mp hevent with hold | hnew
    · exact hlayers.recent event hold
    · exact hadded event hnew

theorem Layers.advance {mark : ℕ} {next : ℤ} (hlayers : Layers events mark generation)
    (hnext : generation < next) : Layers events events.length next := by
  constructor
  · exact hlayers.ordered
  · exact le_refl _
  · rw [take_length]
    intro event hevent
    exact (hlayers.le hevent).trans_lt hnext
  · rw [drop_length]
    intro event hevent
    cases hevent

theorem Layers.behavioralEvents_eq {mark : ℕ} (hlayers : Layers events mark generation)
    (hrecorded : events.drop mark ≠ [] ∨ events = []) :
    behavioralEvents events = events.drop mark := by
  rcases hrecorded with hrecorded | rfl
  · obtain ⟨event, rest, hdrop⟩ := exists_cons_of_ne_nil hrecorded
    have hmem : event ∈ events.drop mark := by
      rw [hdrop]
      exact mem_cons_self
    have htrusted : trustedGeneration events = generation := by
      rw [← hlayers.recent event hmem]
      apply trustedGeneration_eq (mem_of_mem_drop hmem)
      intro other hother
      rw [hlayers.recent event hmem]
      exact hlayers.le hother
    calc
      behavioralEvents events
          = (events.take mark ++ events.drop mark).filter
              (fun other => other.sessionGeneration = trustedGeneration events) := by
        rw [take_append_drop, behavioralEvents]
      _ = [] ++ events.drop mark := by
        rw [filter_append, htrusted]
        congr 1
        · rw [filter_eq_nil_iff]
          intro other hother
          simpa using (hlayers.older other hother).ne
        · rw [filter_eq_self]
          intro other hother
          simpa using hlayers.recent other hother
      _ = events.drop mark := nil_append _
  · rw [drop_nil]
    rfl

/-! ## The invariant -/

structure Ledgered (state : Lifetimes) : Prop where
  numbered : Numbered state.agent.world.ledger
  layers : Layers state.events state.lastMark state.agent.world.ledger.generation
  within : state.mark ≤ state.events.length
  own : ∀ event ∈ state.events.drop state.mark,
    event.sessionGeneration = state.agent.sessionGeneration
  bound : state.attached = true →
    state.agent.world.ledger.generation = state.agent.sessionGeneration ∧
      state.mark = state.lastMark

structure RecoveredOnce (events : List HistoryEvent) (recovered : List Text) : Prop where
  distinct : recovered.Nodup
  closed : ∀ id ∈ recovered, Closed events id
  admitted : ∀ id ∈ recovered, id ∈ events.filterMap admittedKey

/-- What restores and admissions rely on: no append of a reset raises, an
admission has a fresh identifier, and a restore comes with a generation above
every event recorded before the last reset of its process. -/
def Advancing (state : Lifetimes) (action : Action) : Prop :=
  (perform state action).2 = .returned ∧
    match action with
    | .append kind payload _ _ =>
        kind = lit "steering_admitted" → ∀ id ∈ steeringKey payload,
          id ∉ state.events.filterMap admittedKey
    | .restore _ _ => ∀ event ∈ state.events.take state.mark,
        event.sessionGeneration < state.agent.sessionGeneration
    | _ => True

instance (state : Lifetimes) (action : Action) : Decidable (Advancing state action) := by
  unfold Advancing
  cases action <;> infer_instance

variable {state : Lifetimes}

theorem ledgered_append (hledgered : Ledgered state) (kind : Text) (payload : Dict)
    (attribution : Attribution) (readings : Readings) :
    Ledgered (append state kind payload attribution readings) := by
  rw [append]
  split
  · rename_i hattached
    obtain ⟨hgeneration, hmark⟩ := hledgered.bound hattached
    have hgrew := grew_append readings readings.first state.agent.world kind payload attribution
    have hlayers := hledgered.layers.grow hgrew.stamped
    constructor
    · exact hgrew.numbered hledgered.numbered
    · rw [Lifetimes.events, hgrew.events, hgrew.generation]
      exact hlayers
    · rw [Lifetimes.events, hgrew.events]
      exact hledgered.within.trans (by simp [Lifetimes.events])
    · rw [Lifetimes.events, hgrew.events, hmark, ← hgeneration]
      exact hlayers.recent
    · intro _
      exact ⟨hgrew.generation.trans hgeneration, hmark⟩
  · exact hledgered

/-- Recording events without a recovered admission keeps what is closed. -/
theorem RecoveredOnce.grow {recovered : List Text} (hrecovered : RecoveredOnce events recovered)
    (hfresh : ∀ id ∈ recovered, id ∉ added.filterMap admittedKey) :
    RecoveredOnce (events ++ added) recovered := by
  constructor
  · exact hrecovered.distinct
  · intro id hid
    exact (hrecovered.closed id hid).append (hfresh id hid)
  · intro id hid
    rw [filterMap_append]
    exact mem_append_left _ (hrecovered.admitted id hid)

/-- A restore closes open admissions of a suffix: none of them was closed
before. -/
theorem RecoveredOnce.recover {recovered ids : List Text}
    (hrecovered : RecoveredOnce events recovered) {cut : ℕ} (hnodup : ids.Nodup)
    (hopen : ∀ id ∈ ids, id ∈ (events.drop cut).filterMap admittedKey ∧
      id ∉ (events.drop cut).filterMap terminalKey) (hfresh : added.filterMap admittedKey = [])
    (hterminal : ∀ id ∈ ids, id ∈ added.filterMap terminalKey) :
    RecoveredOnce (events ++ added) (recovered ++ ids) := by
  have hnone : ∀ id, id ∉ added.filterMap admittedKey := by
    intro id hid
    rw [hfresh] at hid
    cases hid
  constructor
  · rw [nodup_append]
    refine ⟨hrecovered.distinct, hnodup, ?_⟩
    rintro id hold _ hnew rfl
    exact (hopen id hnew).2 (hrecovered.closed id hold cut (hopen id hnew).1)
  · intro id hid
    rcases mem_append.mp hid with hold | hnew
    · exact (hrecovered.closed id hold).append (hnone id)
    · exact closed_of_terminal (hnone id) (hterminal id hnew)
  · intro id hid
    rw [filterMap_append]
    apply mem_append_left
    rcases mem_append.mp hid with hold | hnew
    · exact hrecovered.admitted id hold
    · exact ((List.drop_sublist cut events).filterMap admittedKey).subset (hopen id hnew).1

theorem recoveredOnce_append (hrecovered : RecoveredOnce state.events state.recovered) {kind : Text}
    {payload : Dict} (attribution : Attribution) (readings : Readings)
    (hfresh : kind = lit "steering_admitted" → ∀ id ∈ steeringKey payload,
      id ∉ state.events.filterMap admittedKey) :
    RecoveredOnce (append state kind payload attribution readings).events
      (append state kind payload attribution readings).recovered := by
  rw [append]
  split
  · rw [Lifetimes.events, (grew_append readings readings.first state.agent.world kind payload
      attribution).events]
    apply hrecovered.grow
    intro id hid hnew
    obtain ⟨event, hevent, hkey⟩ := mem_filterMap.mp hnew
    rw [mem_singleton.mp hevent, admittedKey] at hkey
    split at hkey
    · rename_i hkind
      exact hfresh hkind id hkey (hrecovered.admitted id hid)
    · cases hkey
  · exact hrecovered

theorem filterMap_admittedKey_eq_nil (hnone : ∀ event ∈ events, admittedKey event = none) :
    events.filterMap admittedKey = [] :=
  filterMap_eq_nil_iff.mpr hnone

theorem admittedKey_eq_none (hnone : steeringKey event.payload = none) :
    admittedKey event = none := by
  rw [admittedKey, hnone, ite_self]

/-- Both parts of the invariant. -/
def Sound (state : Lifetimes) : Prop :=
  Ledgered state ∧ RecoveredOnce state.events state.recovered

theorem sound_resetAttached (hsound : Sound state) (hattached : state.attached = true)
    {historyVersion : ℤ} {resetReadings lifecycle view : Readings}
    (hreturned : (Steering.resetRecord (Steering.resetAdvance state.agent) historyVersion
      resetReadings lifecycle view).2 = .returned) :
    Sound { state with
      agent := (Steering.resetRecord (Steering.resetAdvance state.agent) historyVersion
        resetReadings lifecycle view).1
      mark := state.events.length + 2
      lastMark := state.events.length + 2 } := by
  obtain ⟨hledgered, hrecovered⟩ := hsound
  obtain ⟨hgeneration, -⟩ := hledgered.bound hattached
  obtain ⟨middle, announced, viewed, hannounced, hlength, hplain, hviewed, hview⟩ :=
    grew_resetRecord hreturned
  have hcount := resetRecord_sessionGeneration (Steering.resetAdvance state.agent) historyVersion
    resetReadings lifecycle view
  have hnumbered : Numbered middle := hannounced.numbered hledgered.numbered
  have hlayers : Layers (state.events ++ announced ++ [viewed])
      (state.events ++ announced).length (state.agent.sessionGeneration + 1) := by
    apply Layers.grow
    · apply (hledgered.layers.grow hannounced.stamped).advance
      rw [hgeneration]
      exact lt_add_one state.agent.sessionGeneration
    · exact hviewed.stamped
  rw [length_append, hlength] at hlayers
  generalize Steering.resetRecord (Steering.resetAdvance state.agent) historyVersion
    resetReadings lifecycle view = result at hviewed hcount ⊢
  have hevents : result.1.world.ledger.events = state.events ++ announced ++ [viewed] := by
    rw [hviewed.events, hannounced.events]
    rfl
  constructor
  · constructor
    · exact hviewed.numbered ⟨hnumbered.increasing, hnumbered.below⟩
    · rw [Lifetimes.events, hevents, hviewed.generation]
      exact hlayers
    · change state.events.length + 2 ≤ result.1.world.ledger.events.length
      rw [hevents]
      exact hlayers.within
    · change ∀ event ∈ result.1.world.ledger.events.drop (state.events.length + 2),
        event.sessionGeneration = result.1.sessionGeneration
      rw [hevents, hcount]
      exact hlayers.recent
    · intro _
      exact ⟨hviewed.generation.trans hcount.symm, rfl⟩
  · rw [Lifetimes.events, hevents, append_assoc]
    apply hrecovered.grow
    intro id _ hid
    rw [filterMap_admittedKey_eq_nil] at hid
    · cases hid
    · intro event hevent
      apply admittedKey_eq_none
      rcases mem_append.mp hevent with hold | hnew
      · exact hplain event hold
      · rw [mem_singleton.mp hnew]
        exact hview

theorem sound_reset (hsound : Sound state) {historyVersion : ℤ}
    {resetReadings lifecycle view : Readings}
    (hreturned : (reset state historyVersion resetReadings lifecycle view).2 = .returned) :
    Sound (reset state historyVersion resetReadings lifecycle view).1 := by
  unfold reset at hreturned ⊢
  split
  · rename_i hattached
    rw [if_pos hattached] at hreturned
    exact sound_resetAttached hsound hattached hreturned
  · rename_i hdetached
    refine ⟨⟨hsound.1.numbered, hsound.1.layers, le_refl _, ?_, ?_⟩, hsound.2⟩
    · change ∀ event ∈ state.events.drop state.events.length, _
      rw [drop_length]
      intro event hevent
      cases hevent
    · intro hattached
      exact absurd hattached hdetached

theorem sound_start (hsound : Sound state) : Sound (start state) := by
  refine ⟨⟨hsound.1.numbered, hsound.1.layers, le_refl _, ?_, ?_⟩, hsound.2⟩
  · change ∀ event ∈ state.events.drop state.events.length, _
    rw [drop_length]
    intro event hevent
    cases hevent
  · intro hattached
    cases hattached

theorem create_events {ledger : HistoryLedger} (hnumbered : Numbered ledger) (floor : ℕ)
    (generation : ℤ) (sessionId agentId : Option Text) :
    (HistoryLedger.create ledger.events floor generation sessionId agentId).events =
      ledger.events := by
  apply List.Pairwise.insertionSort_eq
  have hincreasing := hnumbered.increasing
  rw [pairwise_map] at hincreasing
  exact hincreasing.imp le_of_lt

theorem numbered_create {ledger : HistoryLedger} (hnumbered : Numbered ledger) (floor : ℕ)
    (generation : ℤ) (sessionId agentId : Option Text) :
    Numbered (HistoryLedger.create ledger.events floor generation sessionId agentId) := by
  apply create_numbered
  exact hnumbered.increasing.imp ne_of_lt

theorem ledgered_reopened {agent : Agent} {mark : ℕ} (recovered : List Text)
    (hnumbered : Numbered agent.world.ledger)
    (hlayers : Layers agent.world.ledger.events mark agent.sessionGeneration)
    (hgeneration : agent.world.ledger.generation = agent.sessionGeneration) :
    Ledgered { agent, attached := true, mark, lastMark := mark, recovered } := by
  constructor
  · exact hnumbered
  · change Layers agent.world.ledger.events mark agent.world.ledger.generation
    rw [hgeneration]
    exact hlayers
  · exact hlayers.within
  · exact hlayers.recent
  · intro _
    exact ⟨hgeneration, rfl⟩

theorem sound_restore (hsound : Sound state) (loaded : Loaded) (readings : ℕ → Readings)
    (habove : ∀ event ∈ state.events.take state.mark,
      event.sessionGeneration < state.agent.sessionGeneration) :
    Sound (restore state loaded readings) := by
  obtain ⟨hledgered, hrecovered⟩ := hsound
  have hcreate := create_events hledgered.numbered loaded.historyNextSeqFloor
    state.agent.sessionGeneration loaded.sessionId (some state.agent.agentId)
  have hnumbered := numbered_create hledgered.numbered loaded.historyNextSeqFloor
    state.agent.sessionGeneration loaded.sessionId (some state.agent.agentId)
  have hlayers : Layers state.events state.mark state.agent.sessionGeneration :=
    ⟨hledgered.layers.ordered, hledgered.within, habove, hledgered.own⟩
  simp only [restore, restoreHistoryRuntime]
  split
  · obtain ⟨cut, hcut⟩ := filter_eq_drop hledgered.layers.ordered
      fun event hevent => sessionGeneration_le_trusted hevent
    have hbehavioral : behavioralEvents state.events = state.events.drop cut := hcut
    obtain ⟨added, hgrew, hadmitted, hterminal⟩ := grew_discardRecovered state.agent.agentId
      readings 0 (orphaned (state.events.drop cut)) {
        ledger := HistoryLedger.create state.events loaded.historyNextSeqFloor
          state.agent.sessionGeneration loaded.sessionId (some state.agent.agentId)
        files := state.agent.world.files }
    have hevents := hgrew.events
    rw [show (HistoryLedger.create state.events _ _ _ _).events = state.events from hcreate]
      at hevents
    rw [show (HistoryLedger.create state.events _ _ _ _).events = state.events from hcreate,
      hbehavioral]
    constructor
    · apply ledgered_reopened
      · exact hgrew.numbered hnumbered
      · rw [hevents]
        exact hlayers.grow hgrew.stamped
      · exact hgrew.generation
    · rw [Lifetimes.events, hevents]
      apply hrecovered.recover (nodup_orphaned _) (fun id => mem_orphaned)
        (filterMap_admittedKey_eq_nil hadmitted)
      intro id hid
      exact hterminal id hid (ne_nil_of_mem_admitted (mem_orphaned hid).1)
  · constructor
    · apply ledgered_reopened
      · exact hnumbered
      · rw [show (HistoryLedger.create state.events _ _ _ _).events = state.events from hcreate]
        exact hlayers
      · rfl
    · rw [Lifetimes.events, append_nil]
      exact hcreate.symm ▸ hrecovered

/-- An advancing step keeps the record of lifetimes, and no input is recovered twice. -/
theorem step_sound {action : Action} (hsound : Sound state) (hadvancing : Advancing state action) :
    Sound (step state action) := by
  obtain ⟨hreturned, hrest⟩ := hadvancing
  cases action with
  | start => exact sound_start hsound
  | detach =>
      refine ⟨⟨hsound.1.numbered, hsound.1.layers, hsound.1.within, hsound.1.own, ?_⟩, hsound.2⟩
      intro hattached
      cases hattached
  | append kind payload attribution readings =>
      exact ⟨ledgered_append hsound.1 kind payload attribution readings,
        recoveredOnce_append hsound.2 attribution readings hrest⟩
  | reset historyVersion resetReadings lifecycle view => exact sound_reset hsound hreturned
  | restore loaded readings => exact sound_restore hsound loaded readings hrest

theorem sound_newSession (agentId : Text) (sessionId : Option Text) (generation : ℤ) :
    Sound (newSession agentId sessionId generation) := by
  constructor
  · apply ledgered_reopened
    · constructor
      · exact List.Pairwise.nil
      · intro event hevent
        cases hevent
    · constructor
      · exact List.Pairwise.nil
      · exact le_refl 0
      · intro event hevent
        cases hevent
      · intro event hevent
        cases hevent
    · rfl
  · constructor
    · exact nodup_nil
    · intro id hid
      cases hid
    · intro id hid
      cases hid

/-! ## Whole sequences of lifetimes -/

/-- The events of `state` that a restore treats as current. -/
def currentEvents (state : Lifetimes) (loaded : Loaded) (readings : ℕ → Readings) :
    List HistoryEvent :=
  (restoreHistoryRuntime state.agent state.events loaded readings).current

/-- After any advancing sequence of lifetimes, a restore of a history that is safe
to project takes as current exactly what was recorded since the last reset of the
most recent lifetime, and no admission was discarded by two restores. -/
theorem run_restore_current (agentId : Text) (sessionId : Option Text) (generation : ℤ)
    {actions : List Action}
    (hmeets : Meets step Advancing (newSession agentId sessionId generation) actions)
    (loaded : Loaded) (readings : ℕ → Readings) (hsafe : loaded.projectionSafe = true)
    (hrecorded : let state := actions.foldl step (newSession agentId sessionId generation)
      state.events.drop state.lastMark ≠ [] ∨ state.events = []) :
    let state := actions.foldl step (newSession agentId sessionId generation)
    currentEvents state loaded readings = state.events.drop state.lastMark ∧
      state.recovered.Nodup := by
  intro state
  obtain ⟨hledgered, hrecovered⟩ : Sound state :=
    invariant_foldl Sound (fun _ _ => step_sound) (sound_newSession agentId sessionId generation)
      hmeets
  have hcreate := create_events hledgered.numbered loaded.historyNextSeqFloor
    state.agent.sessionGeneration loaded.sessionId (some state.agent.agentId)
  refine ⟨?_, hrecovered.distinct⟩
  simp only [currentEvents, restoreHistoryRuntime, if_pos hsafe]
  rw [show (HistoryLedger.create state.events _ _ _ _).events = state.events from hcreate]
  exact hledgered.layers.behavioralEvents_eq hrecorded

def admission (id : String) : Action :=
  .append (lit "steering_admitted") [(lit "steering_id", .str (lit id))] {} {}

def notice (state : String) : Action :=
  .append (lit "agent_lifecycle") [(lit "state", .str (lit state))] {} {}

/-- A resumed session: a new process resets once and restores. -/
def resume : List Action :=
  [.start, .reset 0 {} {} {}, .restore {} fun _ => {}]

def mainSession : Lifetimes :=
  newSession (lit "main") (some (lit "session")) 0

/-- A process that never reset leaves an admission; the next one resumes. -/
def plainResume : List Action :=
  [notice "turn_started", admission "steer_a"] ++ resume ++ [notice "turn_started"]

theorem run_restore_current_plainResume :
    let state := plainResume.foldl step mainSession
    currentEvents state {} (fun _ => {}) = state.events.drop 2 ∧
      state.recovered = [lit "steer_a"] ∧ state.recovered.Nodup := by
  have hmeets : Meets step Advancing mainSession plainResume := by decide +kernel
  have hrun := run_restore_current (lit "main") (some (lit "session")) 0 hmeets {} (fun _ => {})
    rfl (by decide +kernel)
  have hmark : (plainResume.foldl step mainSession).lastMark = 2 := by decide +kernel
  refine ⟨?_, by decide +kernel, hrun.2⟩
  rw [← hmark]
  exact hrun.1

/-- A process that reset twice leaves an admission; two more processes resume. -/
def lowResume : List Action :=
  [.reset 0 {} {} {}, .reset 1 {} {} {}, admission "steer_a"] ++ resume ++
    [notice "turn_started"]

/-- The second process records in generation one below the first one's two: its
events are not current for the third, which discards the admission again. -/
theorem lowResume_discards_twice :
    let state := lowResume.foldl step mainSession
    (∃ event ∈ state.events.drop state.lastMark, event ∉ currentEvents state {} fun _ => {}) ∧
      (∃ event ∈ state.events.take state.lastMark, event ∈ currentEvents state {} fun _ => {}) ∧
      (resume.foldl step state).recovered = [lit "steer_a", lit "steer_a"] := by
  decide +kernel

end ReuleauxCoder.Generations
