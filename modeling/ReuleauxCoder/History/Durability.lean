import ReuleauxCoder.History.Ledger

/-!
# Durability of the history ledger

The invariant places every in-memory event exactly once: in the sink, in the
pending batch or in the queue of unbound events, in this order.  The compound
appends keep it under any failure, because a batch whose flush raises stays
pending.  The immediate append keeps it only while nothing is pending and its
own write succeeds, and leaving a sink keeps it only while nothing is pending;
`Admitted` names exactly these steps.
-/

namespace ReuleauxCoder.History

open PyText PyJson Transition List

/-- Sequence numbers strictly increase and stay below the next one. -/
structure Numbered (ledger : HistoryLedger) : Prop where
  increasing : (ledger.events.map HistoryEvent.seq).Pairwise (· < ·)
  below : ∀ event ∈ ledger.events, event.seq < ledger.nextSeq

/-- Every in-memory event is in the sink, pending or waiting for a bind. -/
structure Mirrored (sink : Path) (world : World) : Prop where
  numbered : Numbered world.ledger
  placed : world.files sink ++ (world.ledger.pendingSinkEvents ++ world.ledger.unboundEvents) =
    world.ledger.events
  bound : ∀ path, world.ledger.sinkPath = some path →
    path = sink ∧ world.ledger.unboundEvents = []
  unbound : world.ledger.sinkPath = none → world.ledger.pendingSinkEvents = []

/-- No operation leaves a batch open. -/
def Idle (world : World) : Prop :=
  world.ledger.sinkBatchDepth = 0

/-- A bind that raises before it changes anything. -/
def bindRaises (readings : Readings) (world : World) : Prop :=
  readings.openFails = true ∨
    (world.ledger.unboundEvents ≠ [] ∧ writeRaises readings world.ledger.unboundEvents = true)

/-- The steps that keep memory and sink together. -/
def Admitted (sink : Path) (world : World) : Action → Prop
  | (.append kind payload attribution, readings) =>
      world.ledger.sinkPath = none ∨
        (world.ledger.pendingSinkEvents = [] ∧
          writeRaises readings
            [newEvent world.ledger readings.first kind payload attribution] = false)
  | (.bindJsonl path, readings) =>
      bindRaises readings world ∨ (path = sink ∧ world.ledger.pendingSinkEvents = [])
  | (.unbindJsonl, _) => world.ledger.pendingSinkEvents = []
  | _ => True

instance (readings : Readings) (world : World) : Decidable (bindRaises readings world) :=
  inferInstanceAs (Decidable (_ ∨ _))

instance (sink : Path) (world : World) : ∀ action, Decidable (Admitted sink world action)
  | (.append .., _) => inferInstanceAs (Decidable (_ ∨ _))
  | (.bindJsonl _, _) => inferInstanceAs (Decidable (_ ∨ _))
  | (.unbindJsonl, _) => inferInstanceAs (Decidable (_ = _))
  | (.appendMessage _, _) | (.appendContextView _, _) | (.raiseFloor _, _)
  | (.advanceGeneration _, _) | (.bindContext _ _, _) => isTrue trivial

/-- The operations that hand events to the sink. -/
def Operation.writes : Operation → Bool
  | .append .. | .appendMessage _ | .appendContextView _ | .bindJsonl _ => true
  | _ => false

/-! ## Queued events -/

/-- The effect of recording fresh events without touching a file: they join the
pending batch of a bound ledger, or the queue of an unbound one. -/
structure Queued (before after : World) (added : List HistoryEvent) : Prop where
  files : after.files = before.files
  sinkPath : after.ledger.sinkPath = before.ledger.sinkPath
  events : after.ledger.events = before.ledger.events ++ added
  pending : after.ledger.pendingSinkEvents = before.ledger.pendingSinkEvents ++
    if before.ledger.sinkPath = none then [] else added
  unbound : after.ledger.unboundEvents = before.ledger.unboundEvents ++
    if before.ledger.sinkPath = none then added else []
  increasing : (added.map HistoryEvent.seq).Pairwise (· < ·)
  fresh : ∀ event ∈ added, before.ledger.nextSeq ≤ event.seq ∧ event.seq < after.ledger.nextSeq
  nextSeq : before.ledger.nextSeq ≤ after.ledger.nextSeq

theorem queued_refl (world : World) : Queued world world [] := by
  constructor <;> simp

theorem queued_enterBatch (world : World) : Queued world (enterBatch world) [] := by
  constructor <;> simp [enterBatch]

def enqueue (world : World) (event : HistoryEvent) : World :=
  { world with ledger := { record world.ledger event with
      pendingSinkEvents := world.ledger.pendingSinkEvents ++
        if world.ledger.sinkPath = none then [] else [event]
      unboundEvents := world.ledger.unboundEvents ++
        if world.ledger.sinkPath = none then [event] else [] } }

variable {world : World} {added : List HistoryEvent} {sink : Path}

/-- An append that is unbound or inside a batch touches no file. -/
theorem append_eq_enqueue (readings : Readings) (stamp : Stamp) (kind : Text) (payload : Dict)
    (attribution : Attribution)
    (hqueues : world.ledger.sinkPath = none ∨ world.ledger.sinkBatchDepth ≠ 0) :
    append readings stamp world kind payload attribution =
      (enqueue world (newEvent world.ledger stamp kind payload attribution), .returned) := by
  by_cases hnone : world.ledger.sinkPath = none
  · simp [append, appendToSink, enqueue, record, hnone]
  · have hdepth := hqueues.resolve_left hnone
    simp [append, appendToSink, enqueue, record, hnone, hdepth]

theorem queued_enqueue {before : World} (hqueued : Queued before world added) {event : HistoryEvent}
    (hseq : event.seq = world.ledger.nextSeq) :
    Queued before (enqueue world event) (added ++ [event]) := by
  have hpath := hqueued.sinkPath
  have hnext := hqueued.nextSeq
  constructor
  · exact hqueued.files
  · exact hpath
  · simp [enqueue, record, hqueued.events]
  · simp only [enqueue, hqueued.pending, hpath]
    split_ifs <;> simp
  · simp only [enqueue, hqueued.unbound, hpath]
    split_ifs <;> simp
  · rw [map_append, pairwise_append]
    refine ⟨hqueued.increasing, pairwise_singleton _ _, ?_⟩
    simp only [mem_map, mem_singleton]
    rintro _ ⟨old, hold, rfl⟩ _ ⟨_, rfl, rfl⟩
    rw [hseq]
    exact (hqueued.fresh old hold).2
  · intro other hother
    have hafter : (enqueue world event).ledger.nextSeq = world.ledger.nextSeq + 1 := rfl
    rcases mem_append.mp hother with hold | hnew
    · have := hqueued.fresh other hold
      omega
    · rw [mem_singleton] at hnew
      subst hnew
      omega
  · have hafter : (enqueue world event).ledger.nextSeq = world.ledger.nextSeq + 1 := rfl
    omega

theorem Numbered.of_queued {before after : World} (hqueued : Queued before after added)
    (hnumbered : Numbered before.ledger) : Numbered after.ledger := by
  constructor
  · rw [hqueued.events, map_append, pairwise_append]
    refine ⟨hnumbered.increasing, hqueued.increasing, ?_⟩
    simp only [mem_map]
    rintro _ ⟨old, hold, rfl⟩ _ ⟨new, hnew, rfl⟩
    exact lt_of_lt_of_le (hnumbered.below old hold) (hqueued.fresh new hnew).1
  · intro event hevent
    rw [hqueued.events] at hevent
    rcases mem_append.mp hevent with hold | hnew
    · exact lt_of_lt_of_le (hnumbered.below event hold) hqueued.nextSeq
    · exact (hqueued.fresh event hnew).2

theorem Mirrored.of_queued {before after : World} (hqueued : Queued before after added)
    (hmirrored : Mirrored sink before) : Mirrored sink after := by
  have hplaced := hmirrored.placed
  refine ⟨hmirrored.numbered.of_queued hqueued, ?_, ?_, ?_⟩
  · rw [hqueued.files, hqueued.pending, hqueued.unbound, hqueued.events, ← hplaced]
    cases hpath : before.ledger.sinkPath with
    | none => simp
    | some path => simp [(hmirrored.bound path hpath).2]
  · intro path hpath
    rw [hqueued.sinkPath] at hpath
    have hbound := hmirrored.bound path hpath
    rw [hqueued.unbound, hpath, hbound.2]
    exact ⟨hbound.1, rfl⟩
  · intro hpath
    rw [hqueued.sinkPath] at hpath
    rw [hqueued.pending, hmirrored.unbound hpath, hpath]
    rfl

theorem Mirrored.of_same {before after : World} (hmirrored : Mirrored sink before)
    (hfiles : after.files = before.files) (hevents : after.ledger.events = before.ledger.events)
    (hpath : after.ledger.sinkPath = before.ledger.sinkPath)
    (hpending : after.ledger.pendingSinkEvents = before.ledger.pendingSinkEvents)
    (hunbound : after.ledger.unboundEvents = before.ledger.unboundEvents)
    (hnext : before.ledger.nextSeq ≤ after.ledger.nextSeq) : Mirrored sink after := by
  have hqueued : Queued before after [] := by
    constructor <;> simp_all
  exact hmirrored.of_queued hqueued

/-! ## Writing -/

/-- A write to the bound sink of a mirrored ledger moves its pending batch. -/
theorem Mirrored.flush {path : Path} (hmirrored : Mirrored sink world)
    (hpath : world.ledger.sinkPath = some path) :
    Mirrored sink { world with
      ledger := { world.ledger with pendingSinkEvents := [] }
      files := extend world.files path world.ledger.pendingSinkEvents } := by
  obtain ⟨rfl, hunbound⟩ := hmirrored.bound path hpath
  have hplaced := hmirrored.placed
  refine ⟨⟨hmirrored.numbered.increasing, hmirrored.numbered.below⟩, ?_, ?_, ?_⟩
  · simpa [extend, hunbound] using hplaced
  · intro other hother
    exact ⟨(hmirrored.bound other hother).1, hunbound⟩
  · simp

/-- Memory and the bound sink hold the same events. -/
def Agrees (world : World) : Prop :=
  ∀ path, world.ledger.sinkPath = some path → world.files path = world.ledger.events

theorem Mirrored.agrees (hmirrored : Mirrored sink world)
    (hpending : world.ledger.pendingSinkEvents = []) : Agrees world := by
  intro path hpath
  obtain ⟨rfl, hunbound⟩ := hmirrored.bound path hpath
  have hplaced := hmirrored.placed
  rw [hpending, hunbound] at hplaced
  simpa using hplaced

/-- What leaving the outermost batch of a mirrored ledger does. -/
theorem leaveBatch_spec (readings : Readings) (hmirrored : Mirrored sink world)
    (hdepth : world.ledger.sinkBatchDepth = 1) :
    Idle (leaveBatch readings world).1 ∧ Mirrored sink (leaveBatch readings world).1 ∧
      (leaveBatch readings world).1.ledger.events = world.ledger.events ∧
      (((leaveBatch readings world).2 = .returned ∧ Agrees (leaveBatch readings world).1) ∨
        ((leaveBatch readings world).2 = .sinkFailed ∧ world.ledger.sinkPath ≠ none ∧
          (leaveBatch readings world).1.ledger.pendingSinkEvents =
            world.ledger.pendingSinkEvents)) := by
  have hclosed : Mirrored sink { world with ledger := { world.ledger with sinkBatchDepth := 0 } } :=
    hmirrored.of_same rfl rfl rfl rfl rfl le_rfl
  by_cases hpending : world.ledger.pendingSinkEvents = []
  · have hresult : leaveBatch readings world =
        ({ world with ledger := { world.ledger with sinkBatchDepth := 0 } }, .returned) := by
      simp [leaveBatch, hdepth, hpending]
    rw [hresult]
    exact ⟨rfl, hclosed, rfl, Or.inl ⟨rfl, hclosed.agrees hpending⟩⟩
  · cases hpath : world.ledger.sinkPath with
    | none => exact absurd (hmirrored.unbound hpath) hpending
    | some path =>
        by_cases hraises : writeRaises readings world.ledger.pendingSinkEvents = true
        · have hresult : leaveBatch readings world =
              ({ world with ledger := { world.ledger with sinkBatchDepth := 0 } },
                .sinkFailed) := by
            simp [leaveBatch, writeSinkEvents, hdepth, hpending, hpath, hraises]
          rw [hresult]
          exact ⟨rfl, hclosed, rfl, Or.inr ⟨rfl, by simp, rfl⟩⟩
        · have hresult : leaveBatch readings world =
              ({ world with
                  ledger := { world.ledger with sinkBatchDepth := 0, pendingSinkEvents := [] }
                  files := extend world.files path world.ledger.pendingSinkEvents },
                .returned) := by
            simp [leaveBatch, writeSinkEvents, hdepth, hpending, hpath, hraises]
          rw [hresult]
          have hflushed := hclosed.flush hpath
          exact ⟨rfl, hflushed, rfl, Or.inl ⟨rfl, hflushed.agrees rfl⟩⟩

/-! ## One step -/

/-- What one operation owes to durability: it keeps the invariant; when it hands
events to the sink and the sink does not raise, memory and sink agree; when the
sink raises, the ledger is unchanged or the added events are queued. -/
structure Durable (sink : Path) (before after : World) (writes : Bool) (outcome : Outcome) :
    Prop where
  idle : Idle after
  mirrored : Mirrored sink after
  agrees : writes = true → outcome ≠ .sinkFailed → Agrees after
  retained : outcome = .sinkFailed → after.ledger = before.ledger ∨
    ∃ added, after.ledger.events = before.ledger.events ++ added ∧
      added <:+ after.ledger.pendingSinkEvents

/-- A compound append: queue fresh events in a batch, then leave it. -/
theorem durable_batch {queued : World} (readings : Readings) (hmirrored : Mirrored sink world)
    (hqueued : Queued world queued added) (hdepth : queued.ledger.sinkBatchDepth = 1)
    {outcome : Outcome}
    (houtcome : outcome = .sinkFailed ↔ (leaveBatch readings queued).2 = .sinkFailed) :
    Durable sink world (leaveBatch readings queued).1 true outcome := by
  have hqmirrored := hmirrored.of_queued hqueued
  obtain ⟨hidle, hafter, hevents, hend⟩ := leaveBatch_spec readings hqmirrored hdepth
  constructor
  · exact hidle
  · exact hafter
  · intro _ hne
    rcases hend with ⟨_, hagrees⟩ | ⟨hfailed, _, _⟩
    · exact hagrees
    · exact absurd (houtcome.mpr hfailed) hne
  · intro hfailed
    right
    refine ⟨added, by rw [hevents, hqueued.events], ?_⟩
    rcases hend with ⟨hreturned, _⟩ | ⟨_, hbound, hpending⟩
    · simp [houtcome.mp hfailed] at hreturned
    · rw [hqueued.sinkPath] at hbound
      rw [hpending, hqueued.pending, if_neg hbound]
      exact suffix_append _ _

theorem raiseTypeError_sinkFailed (result : World × Outcome) :
    (raiseTypeError result).2 = .sinkFailed ↔ result.2 = .sinkFailed := by
  obtain ⟨world, outcome⟩ := result
  cases outcome <;> simp [raiseTypeError]

theorem enterBatch_depth (hidle : Idle world) : (enterBatch world).ledger.sinkBatchDepth = 1 := by
  rw [Idle] at hidle
  simp [enterBatch, hidle]

theorem durable_appendMessage (readings : Readings) (arguments : MessageArguments)
    (hidle : Idle world) (hmirrored : Mirrored sink world) :
    Durable sink world (appendMessage readings world arguments).1 true
      (appendMessage readings world arguments).2 := by
  have hdepth := enterBatch_depth hidle
  have hinside : ∀ event, (enqueue (enterBatch world) event).ledger.sinkBatchDepth = 1 :=
    fun _ => hdepth
  simp only [appendMessage]
  rw [append_eq_enqueue _ _ _ _ _ (Or.inr (by rw [hdepth]; decide))]
  cases messageSemanticKind arguments.message arguments.source with
  | none =>
      exact durable_batch readings hmirrored (queued_enqueue (queued_enterBatch world) rfl)
        hdepth Iff.rfl
  | some kind =>
      cases messageToolCallIds readings.reprOf arguments.message with
      | none =>
          simp only [raiseTypeError_fst]
          exact durable_batch readings hmirrored (queued_enqueue (queued_enterBatch world) rfl)
            hdepth (raiseTypeError_sinkFailed _)
      | some ids =>
          simp only []
          rw [append_eq_enqueue _ _ _ _ _ (Or.inr (by rw [hinside]; decide))]
          exact durable_batch readings hmirrored
            (queued_enqueue (queued_enqueue (queued_enterBatch world) rfl) rfl) hdepth Iff.rfl

theorem durable_appendContextView (readings : Readings) (arguments : ViewArguments)
    (hidle : Idle world) (hmirrored : Mirrored sink world) :
    Durable sink world (appendContextView readings world arguments).1 true
      (appendContextView readings world arguments).2 := by
  have hdepth := enterBatch_depth hidle
  have hinside : ∀ event, (enqueue (enterBatch world) event).ledger.sinkBatchDepth = 1 :=
    fun _ => hdepth
  simp only [appendContextView]
  rw [append_eq_enqueue _ _ _ _ _ (Or.inr (by rw [hdepth]; decide))]
  cases arguments.checkpointId with
  | none =>
      exact durable_batch readings hmirrored (queued_enqueue (queued_enterBatch world) rfl)
        hdepth Iff.rfl
  | some checkpointId =>
      simp only []
      rw [append_eq_enqueue _ _ _ _ _ (Or.inr (by rw [hinside]; decide))]
      exact durable_batch readings hmirrored
        (queued_enqueue (queued_enqueue (queued_enterBatch world) rfl) rfl) hdepth Iff.rfl

theorem durable_append {readings : Readings} {kind : Text} {payload : Dict}
    {attribution : Attribution} (hidle : Idle world) (hmirrored : Mirrored sink world)
    (hadmitted : Admitted sink world (.append kind payload attribution, readings)) :
    Durable sink world (append readings readings.first world kind payload attribution).1 true
      (append readings readings.first world kind payload attribution).2 := by
  generalize hevent : newEvent world.ledger readings.first kind payload attribution = event
  have hseq : event.seq = world.ledger.nextSeq := by
    rw [← hevent]
    rfl
  have hqueued := hmirrored.of_queued (queued_enqueue (queued_refl world) hseq)
  cases hpath : world.ledger.sinkPath with
  | none =>
      rw [append_eq_enqueue _ _ _ _ _ (Or.inl hpath), hevent]
      exact ⟨hidle, hqueued, fun _ _ => hqueued.agrees (hqueued.unbound hpath), by simp⟩
  | some path =>
      obtain ⟨hpending, hwrite⟩ := hadmitted.resolve_left (by simp [hpath])
      rw [hevent] at hwrite
      have hflushed := hqueued.flush hpath
      have hresult : append readings readings.first world kind payload attribution =
          ({ enqueue world event with
              ledger := { (enqueue world event).ledger with pendingSinkEvents := [] }
              files := extend world.files path (enqueue world event).ledger.pendingSinkEvents },
            .returned) := by
        rw [Idle] at hidle
        simp [append, appendToSink, writeSinkEvents, enqueue, record, hpath, hpending, hwrite,
          hevent, hidle]
      rw [hresult]
      exact ⟨hidle, hflushed, fun _ _ => hflushed.agrees rfl, by simp⟩

theorem durable_bindJsonl {path : Path} {readings : Readings} (hidle : Idle world)
    (hmirrored : Mirrored sink world)
    (hadmitted : Admitted sink world (.bindJsonl path, readings)) :
    Durable sink world (bindJsonl readings world path).1 true
      (bindJsonl readings world path).2 := by
  by_cases hraises : bindRaises readings world
  · have hresult : bindJsonl readings world path = (world, .sinkFailed) := by
      rcases hraises with hopen | ⟨hqueue, hwrite⟩
      · simp [bindJsonl, hopen]
      · simp [bindJsonl, writeSinkEvents, hqueue, hwrite]
    rw [hresult]
    exact ⟨hidle, hmirrored, by simp, fun _ => Or.inl rfl⟩
  · obtain ⟨rfl, hpending⟩ := hadmitted.resolve_left hraises
    have hopen : readings.openFails = false := by
      simpa using fun hopen => hraises (Or.inl hopen)
    have hresult : bindJsonl readings world path =
        ({ world with
            ledger := { world.ledger with sinkPath := some path, unboundEvents := [] }
            files := extend world.files path world.ledger.unboundEvents }, .returned) := by
      by_cases hqueue : world.ledger.unboundEvents = []
      · simp [bindJsonl, writeSinkEvents, hopen, hqueue, extend]
      · have hwrite : writeRaises readings world.ledger.unboundEvents = false := by
          simpa using fun hwrite => hraises (Or.inr ⟨hqueue, hwrite⟩)
        simp [bindJsonl, writeSinkEvents, hopen, hqueue, hwrite]
    have hplaced := hmirrored.placed
    have hafter : Mirrored path (bindJsonl readings world path).1 := by
      rw [hresult]
      refine ⟨⟨hmirrored.numbered.increasing, hmirrored.numbered.below⟩, ?_, ?_, ?_⟩
      · simpa [extend, hpending] using hplaced
      · simp [eq_comm]
      · simp
    have hnone : (bindJsonl readings world path).1.ledger.pendingSinkEvents = [] := by
      rw [hresult]
      exact hpending
    refine ⟨?_, hafter, fun _ _ => hafter.agrees hnone, ?_⟩
    · rw [hresult]
      exact hidle
    · rw [hresult]
      simp

theorem durable_unbindJsonl (hidle : Idle world) (hmirrored : Mirrored sink world)
    (hpending : world.ledger.pendingSinkEvents = []) :
    Durable sink world (unbindJsonl world) false .returned := by
  have hplaced := hmirrored.placed
  refine ⟨hidle, ⟨⟨hmirrored.numbered.increasing, hmirrored.numbered.below⟩, ?_, ?_, ?_⟩,
    by simp, by simp⟩
  · simpa [unbindJsonl, hpending] using hplaced
  · simp [unbindJsonl]
  · simp [unbindJsonl]

theorem durable_raiseFloor (floor : ℕ) (hidle : Idle world) (hmirrored : Mirrored sink world) :
    Durable sink world (raiseFloor world floor) false .returned := by
  have hfloor : (raiseFloor world floor).files = world.files ∧
      (raiseFloor world floor).ledger =
        { world.ledger with nextSeq := (raiseFloor world floor).ledger.nextSeq } ∧
      world.ledger.nextSeq ≤ (raiseFloor world floor).ledger.nextSeq := by
    unfold raiseFloor
    split_ifs with hlow
    · exact ⟨rfl, rfl, by simpa using by omega⟩
    · exact ⟨rfl, rfl, le_rfl⟩
  obtain ⟨hfiles, hledger, hnext⟩ := hfloor
  refine ⟨?_, ?_, by simp, by simp⟩
  · rw [Idle, hledger]
    exact hidle
  · apply hmirrored.of_same hfiles _ _ _ _ hnext <;> rw [hledger]

/-- Every admitted operation of an idle mirrored ledger is durable. -/
theorem perform_durable {action : Action} (hidle : Idle world) (hmirrored : Mirrored sink world)
    (hadmitted : Admitted sink world action) :
    Durable sink world (perform world action).1 action.1.writes (perform world action).2 := by
  obtain ⟨operation, readings⟩ := action
  cases operation with
  | append kind payload attribution => exact durable_append hidle hmirrored hadmitted
  | appendMessage arguments => exact durable_appendMessage readings arguments hidle hmirrored
  | appendContextView arguments =>
      exact durable_appendContextView readings arguments hidle hmirrored
  | bindJsonl path => exact durable_bindJsonl hidle hmirrored hadmitted
  | unbindJsonl => exact durable_unbindJsonl hidle hmirrored hadmitted
  | raiseFloor floor => exact durable_raiseFloor floor hidle hmirrored
  | advanceGeneration generation =>
      exact ⟨hidle, hmirrored.of_same rfl rfl rfl rfl rfl le_rfl, by simp [Operation.writes],
        by simp [perform]⟩
  | bindContext sessionId agentId =>
      exact ⟨hidle, hmirrored.of_same rfl rfl rfl rfl rfl le_rfl, by simp [Operation.writes],
        by simp [perform]⟩

/-! ## Whole runs -/

/-- Every event in memory is in the sink, pending, or waits for a bind: by induction on the
actions. -/
theorem run_mirrored {actions : List Action} (hidle : Idle world) (hmirrored : Mirrored sink world)
    (hmeets : Meets step (Admitted sink) world actions) :
    Idle (actions.foldl step world) ∧ Mirrored sink (actions.foldl step world) := by
  apply invariant_foldl (fun world => Idle world ∧ Mirrored sink world) _ ⟨hidle, hmirrored⟩ hmeets
  intro world action hworld hadmitted
  have hdurable := perform_durable hworld.1 hworld.2 hadmitted
  exact ⟨hdurable.idle, hdurable.mirrored⟩

theorem create_numbered {loaded : List HistoryEvent} (floor : ℕ) (generation : ℤ)
    (sessionId agentId : Option Text) (hdistinct : (loaded.map HistoryEvent.seq).Nodup) :
    Numbered (HistoryLedger.create loaded floor generation sessionId agentId) := by
  constructor
  · have hsorted : ((loaded.map HistoryEvent.seq).insertionSort (· ≤ ·)).SortedLT := by
      apply sortedLE_insertionSort.sortedLT_of_nodup
      exact (perm_insertionSort _ _).nodup_iff.mpr hdistinct
    have hmap : (HistoryLedger.create loaded floor generation sessionId agentId).events.map
        HistoryEvent.seq = (loaded.map HistoryEvent.seq).insertionSort (· ≤ ·) :=
      map_insertionSort _ _ _ _ (by simp)
    rw [hmap]
    exact hsorted.pairwise
  · intro event hevent
    have hmem : event.seq ∈ loaded.map HistoryEvent.seq :=
      mem_map_of_mem ((mem_insertionSort _).mp hevent)
    have hmax : event.seq ≤ (loaded.map HistoryEvent.seq).max?.getD 0 := by
      cases hlist : (loaded.map HistoryEvent.seq).max? with
      | none => simp_all
      | some largest => exact (max?_le_iff hlist).mp le_rfl _ hmem
    simp only [HistoryLedger.create]
    omega

/-- A step that hands events to the sink without the sink raising leaves the
sink holding every in-memory event exactly once and in increasing sequence
order; a step on which the sink raises leaves the ledger unchanged or queues the
events it added. -/
def SinkAgrees (before : World) (action : Action) : Prop :=
  let after := (perform before action).1
  let outcome := (perform before action).2
  (action.1.writes = true → outcome ≠ .sinkFailed →
    ∀ path, after.ledger.sinkPath = some path →
      after.files path = after.ledger.events ∧
        ((after.files path).map HistoryEvent.seq).Pairwise (· < ·)) ∧
  (outcome = .sinkFailed → after.ledger = before.ledger ∨
    ∃ added, after.ledger.events = before.ledger.events ++ added ∧
      added <:+ after.ledger.pendingSinkEvents)

/-- In every run whose steps are admitted, each step leaves memory and sink in
agreement, or the events the sink refused queued for a later write. -/
theorem run_sink_agrees (sink : Path) (loaded : List HistoryEvent) (floor : ℕ) (generation : ℤ)
    (sessionId agentId : Option Text) (files : Path → List HistoryEvent)
    (hdistinct : (loaded.map HistoryEvent.seq).Nodup)
    (hloaded : files sink =
      (HistoryLedger.create loaded floor generation sessionId agentId).events)
    (actions : List Action) (action : Action)
    (hmeets : Meets step (Admitted sink)
      ⟨HistoryLedger.create loaded floor generation sessionId agentId, files⟩
      (actions ++ [action])) :
    SinkAgrees (actions.foldl step
      ⟨HistoryLedger.create loaded floor generation sessionId agentId, files⟩) action := by
  have hstart : Mirrored sink
      ⟨HistoryLedger.create loaded floor generation sessionId agentId, files⟩ := by
    refine ⟨create_numbered floor generation sessionId agentId hdistinct, ?_, ?_, ?_⟩
    · simpa [HistoryLedger.create] using hloaded
    · simp [HistoryLedger.create]
    · simp [HistoryLedger.create]
  have hopened : Idle ⟨HistoryLedger.create loaded floor generation sessionId agentId, files⟩ := rfl
  obtain ⟨hearlier, hlast, -⟩ := meets_append.mp hmeets
  obtain ⟨hidle, hmirrored⟩ := run_mirrored hopened hstart hearlier
  have hdurable := perform_durable hidle hmirrored hlast
  constructor
  · intro hwrites hend path hpath
    have hagrees := hdurable.agrees hwrites hend path hpath
    refine ⟨hagrees, ?_⟩
    rw [hagrees]
    exact hdurable.mirrored.numbered.increasing
  · exact hdurable.retained

/-- A message whose flush failed reaches the sink with the next message. -/
theorem run_sink_agrees_retried_flush :
    let sink := lit "events.jsonl"
    let start : World := ⟨HistoryLedger.create [] 0 0 none none, fun _ => []⟩
    let message : Operation := .appendMessage
      { message := [(lit "role", .str (lit "user")), (lit "content", .str (lit "hello"))]
        source := lit "user_input" }
    let actions : List Action :=
      [(.append (lit "steering_discarded") [] {}, {}), (.bindJsonl sink, {}),
        (message, { writeFails := true })]
    let retry : Action := (message, {})
    Meets step (Admitted sink) start (actions ++ [retry]) ∧
      SinkAgrees (actions.foldl step start) retry ∧
      ((step (actions.foldl step start) retry).files sink).map HistoryEvent.seq =
        [1, 2, 3, 4, 5] := by
  intro sink start message actions retry
  have hmeets : Meets step (Admitted sink) start (actions ++ [retry]) := by decide +kernel
  exact ⟨hmeets, run_sink_agrees sink [] 0 0 none none (fun _ => []) nodup_nil rfl
    actions retry hmeets, by decide +kernel⟩

/-- An immediate append whose write raises stays in memory and in no queue, and
the next successful append leaves the sink without it. -/
theorem append_write_failure_loses_event :
    let sink := lit "events.jsonl"
    let start : World := ⟨HistoryLedger.create [] 0 0 none none, fun _ => []⟩
    let bound := step start (.bindJsonl sink, {})
    let append : Operation := .append (lit "steering_admitted") [] {}
    let failed := perform bound (append, { writeFails := true })
    let later := perform failed.1 (append, {})
    (failed.2 = .sinkFailed ∧ failed.1.ledger.events ≠ bound.ledger.events ∧
      failed.1.ledger.pendingSinkEvents = [] ∧ failed.1.ledger.unboundEvents = []) ∧
    (later.2 = .returned ∧ later.1.ledger.sinkPath = some sink ∧
      later.1.ledger.events.map HistoryEvent.seq = [1, 2] ∧
      (later.1.files sink).map HistoryEvent.seq = [2]) := by
  decide +kernel

end ReuleauxCoder.History
