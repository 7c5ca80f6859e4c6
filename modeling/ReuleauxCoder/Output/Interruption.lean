import ReuleauxCoder.Output.Transcripts

/-!
# Interrupted output after a run

Every action keeps the journal and the unbuffered reader in step, so after any
run that ends with a flush or a close `interrupted_output` returns the
transcripts that no message committed.
-/

namespace ReuleauxCoder.Output

open PyText PyJson
open List hiding lookup
open History (Dict HistoryEvent HistoryLedger MessageArguments)

/-! ## Steps -/

structure Recovering (journal : OutputJournal) (reader : Reader) : Prop where
  agent : journal.agentId = reader.agentId
  readable : Readable journal.ledger
  mirrors : Mirrors (checkpoints journal.ledger.events)
    (acknowledgements journal.ledger.events) journal.streams reader.transcripts

def OutputJournal.Flushed (journal : OutputJournal) : Prop :=
  ∀ stream ∈ journal.streams, stream.pending = false

theorem flushed_flushLocked (environment : Environment) (journal : OutputJournal) :
    (flushLocked environment journal).Flushed := by
  intro stream hstream
  obtain ⟨other, -, rfl⟩ := mem_map.mp hstream
  exact other.pending_flushed

@[simp]
theorem retain_all (transcripts : List Transcript) :
    transcripts.map (Transcript.retain fun _ => true) = transcripts := by
  conv_rhs => rw [← map_id transcripts]
  apply map_congr_left
  intro transcript _
  simp [Transcript.retain]

theorem map_id_retain (keep : OutputKind × Option Text → Bool) (transcripts : List Transcript) :
    (transcripts.map (Transcript.retain keep)).map Transcript.id =
      transcripts.map Transcript.id := by
  rw [map_map]
  rfl

section Steps

variable (environment : Environment) {journal : OutputJournal} {reader : Reader}

section

variable (hrecovering : Recovering journal reader)
include hrecovering

theorem recovering_flush :
    Recovering (flushLocked environment journal) reader := by
  obtain ⟨hreadable, hacknowledged, more, hmore, hwritten⟩ :=
    readable_foldl_checkpoint environment journal.agentId
      (journal.streams.filter OutputStream.pending) hrecovering.readable
  refine ⟨hrecovering.agent, hreadable, ?_⟩
  have hflush := hrecovering.mirrors.flush hwritten
  rw [← hmore, ← hacknowledged] at hflush
  exact hflush

theorem recovering_retain
    (hflushed : journal.Flushed) (keep : OutputKind × Option Text → Bool) :
    Recovering { journal with streams := journal.streams.filter fun stream => keep stream.key }
      { reader with transcripts := reader.transcripts.map (Transcript.retain keep) } :=
  ⟨hrecovering.agent, hrecovering.readable, hrecovering.mirrors.retain hflushed keep⟩

theorem recovering_close :
    Recovering (close environment journal)
      { reader with transcripts := reader.transcripts.map (Transcript.retain fun _ => false) } := by
  have hflush := recovering_flush environment hrecovering
  have hretain := recovering_retain hflush (flushed_flushLocked environment journal)
    fun _ => false
  simpa [close] using hretain

theorem recovering_settle (eventType : AgentEventType) :
    Recovering (settle environment journal eventType)
      { reader with
        transcripts := reader.transcripts.map (Transcript.retain eventType.keeps) } := by
  have hall : ∀ quiet : AgentEventType, (∀ key, quiet.keeps key = true) →
      Recovering journal { reader with
        transcripts := reader.transcripts.map (Transcript.retain quiet.keeps) } := by
    intro quiet hkeeps
    rw [funext hkeeps, retain_all]
    exact hrecovering
  cases eventType with
  | chatStart => exact recovering_close environment hrecovering
  | chatEnd => exact recovering_close environment hrecovering
  | assistantStreamInterrupted =>
      exact recovering_retain (recovering_flush environment hrecovering)
        (flushed_flushLocked environment journal) fun key => key.1 = .tool
  | streamToken => exact hall .streamToken fun _ => rfl
  | streamReasoning => exact hall .streamReasoning fun _ => rfl
  | toolOutputDelta => exact hall .toolOutputDelta fun _ => rfl
  | toolCallEnd => exact hall .toolCallEnd fun _ => rfl
  | other => exact hall .other fun _ => rfl

end

/-- The text of an event reaches the streams as it reaches the transcripts. -/
theorem mirrors_hear {checkpoints : List Checkpoint} {acknowledged : List Text}
    {streams : List OutputStream} {transcripts : List Transcript}
    (hmirrors : Mirrors checkpoints acknowledged streams transcripts) (event : AgentEvent)
    (kind : OutputKind) {uuid : Text} (hfresh : uuid ∉ transcripts.map Transcript.id) :
    Mirrors checkpoints acknowledged
      ((openStream event kind uuid streams).map fun stream =>
        if stream.key = (kind, event.correlationId) then
          stream.write event.final (event.text kind)
        else stream)
      (hear event kind uuid transcripts) := by
  have hany := hmirrors.any_key (kind, event.correlationId)
  rw [openStream, hear]
  by_cases hopen : transcripts.any (Transcript.takes (kind, event.correlationId)) = true
  · rw [if_pos hopen, if_pos (hany.trans hopen)]
    exact hmirrors.speak _ _ _
  · rw [if_neg hopen, if_neg fun h => hopen (hany.symm.trans h)]
    have hnone : ∀ stream ∈ streams, stream.key ≠ (kind, event.correlationId) := by
      intro stream hstream hkey
      apply hopen
      rw [← hany, List.any_eq_true]
      exact ⟨stream, hstream, by simpa using hkey⟩
    have hold : (streams.map fun stream =>
        if stream.key = (kind, event.correlationId) then
          stream.write event.final (event.text kind)
        else stream) = streams := by
      conv_rhs => rw [← map_id streams]
      apply map_congr_left
      intro stream hstream
      rw [if_neg (hnone stream hstream)]
      rfl
    rw [map_append, hold, map_singleton]
    simp only [OutputStream.key, if_true]
    cases hfinal : event.final with
    | true =>
        apply hmirrors.begin hfresh
        · intro hmem
          obtain ⟨stream, hstream, hkey⟩ := mem_map.mp hmem
          exact hnone stream hstream hkey
        all_goals simp [OutputStream.write, OutputStream.pending, OutputStream.head,
          Transcript.head, OutputStream.buffered]
    | false =>
        apply hmirrors.begin hfresh
        · intro hmem
          obtain ⟨stream, hstream, hkey⟩ := mem_map.mp hmem
          exact hnone stream hstream hkey
        all_goals simp [OutputStream.write, OutputStream.pending, OutputStream.head,
          Transcript.head, OutputStream.buffered]

section

variable (hrecovering : Recovering journal reader)
include hrecovering

theorem recovering_buffer (event : AgentEvent)
    (kind : OutputKind) {uuid : Text} (hfresh : uuid ∉ reader.transcripts.map Transcript.id) :
    Recovering (buffer environment journal event kind uuid)
      { reader with transcripts := hear event kind uuid reader.transcripts } := by
  have hheard := mirrors_hear hrecovering.mirrors event kind hfresh
  simp only [buffer]
  split
  · apply recovering_flush environment
    exact ⟨hrecovering.agent, hrecovering.readable, hheard⟩
  · rw [startTimer]
    split
    · exact ⟨hrecovering.agent, hrecovering.readable, hheard⟩
    · exact ⟨hrecovering.agent, hrecovering.readable, hheard⟩

theorem recovering_record (event : AgentEvent)
    {uuid : Text} (hfresh : uuid ∉ reader.transcripts.map Transcript.id) :
    Recovering (record environment journal event uuid)
      (reader.step environment.reprOf (.record event uuid)) := by
  simp only [record, Reader.step]
  rw [← hrecovering.agent]
  by_cases hagent : event.agentId ≠ some journal.agentId
  · rw [if_pos hagent, if_pos hagent]
    exact hrecovering
  · rw [if_neg hagent, if_neg hagent]
    have hsettled := recovering_settle environment hrecovering event.eventType
    simp only [observe]
    cases hkind : event.eventType.kind with
    | none =>
        rw [hrecovering.agent]
        exact hsettled
    | some kind =>
        simp only
        split
        · rw [hrecovering.agent]
          exact hsettled
        · rw [hrecovering.agent]
          apply recovering_buffer environment hsettled
          rw [map_id_retain]
          exact hfresh

theorem recovering_commit
    {arguments : MessageArguments}
    (hmetadata : lit "output_stream_ids" ∉ arguments.metadata.map Prod.fst) :
    Recovering (commit environment journal arguments)
      (reader.step environment.reprOf (.commit arguments)) := by
  have hflush := recovering_flush environment hrecovering
  have hflushed := flushed_flushLocked environment journal
  have hids : (journal.streams.filter fun stream =>
      acknowledges arguments.message stream.key).map OutputStream.id =
      ((flushLocked environment journal).streams.filter fun stream =>
        acknowledges arguments.message stream.key).map OutputStream.id := by
    simp [flushLocked, filter_map, Function.comp_def]
  obtain ⟨hreadable, hcheckpoints, hacknowledged, hreturned⟩ :=
    readable_appendMessage environment hflush.readable arguments
      (journal.streams.filter fun stream => acknowledges arguments.message stream.key) hmetadata
  have hcommitted := hflush.mirrors.commit arguments.message
  rw [← hids, ← hcheckpoints, ← hacknowledged] at hcommitted
  have hretained := hcommitted.retain hflushed fun key =>
    !(messageReturns environment.reprOf arguments && acknowledges arguments.message key)
  refine ⟨hrecovering.agent, hreadable, ?_⟩
  simp only [commit, hreturned]
  cases hreturns : messageReturns environment.reprOf arguments with
  | true => simpa [hreturns, Reader.step] using hretained
  | false => simpa [hreturns, Reader.step] using hretained

theorem recovering_append {kind : Text}
    {payload : Dict} (attribution : History.Attribution) (hsilent : Silent kind payload) :
    Recovering { journal with
      ledger := append environment journal.ledger kind payload attribution } reader := by
  by_cases hkind : kind = lit "message_committed"
  · obtain ⟨hreadable, hcheckpoints, hacknowledged⟩ :=
      readable_messageCommitted environment hrecovering.readable attribution
        (Or.inr ⟨hsilent.2 hkind, rfl⟩)
    rw [← hkind] at hreadable hcheckpoints hacknowledged
    refine ⟨hrecovering.agent, hreadable, ?_⟩
    simp only
    rw [hcheckpoints, hacknowledged, append_nil]
    exact hrecovering.mirrors
  · obtain ⟨hreadable, hcheckpoints, hacknowledged⟩ :=
      readable_append_other hrecovering.readable hsilent.1 hkind
    refine ⟨hrecovering.agent, hreadable, ?_⟩
    simp only
    rw [hcheckpoints, hacknowledged]
    exact hrecovering.mirrors

/-- What is recovered after a step are the transcripts of a reader that took the same step. -/
theorem step_recovering {action : Action}
    (hplain : action.Plain)
    (hfresh : ∀ uuid, action.uuid = some uuid → uuid ∉ reader.transcripts.map Transcript.id) :
    Recovering (step environment journal action)
      (reader.step environment.reprOf action) := by
  cases action with
  | record event uuid => exact recovering_record environment hrecovering event (hfresh uuid rfl)
  | flushScheduled timer =>
      simp only [step, flushScheduled]
      split
      · exact recovering_flush environment hrecovering
      · exact hrecovering
  | commit arguments => exact recovering_commit environment hrecovering hplain
  | close => exact recovering_close environment hrecovering
  | rebind agentId =>
      have hclosed := recovering_close environment hrecovering
      exact ⟨rfl, hclosed.readable, hclosed.mirrors⟩
  | append kind payload attribution =>
      exact recovering_append environment hrecovering attribution hplain

end

end Steps

/-! ## The result of recovery -/

theorem foldl_add (rest : List Checkpoint) (recovered : Recovered) :
    (rest.foldl Recovered.add recovered).seq = recovered.seq ∧
      (rest.foldl Recovered.add recovered).label = recovered.label := by
  induction rest generalizing recovered with
  | nil => exact ⟨rfl, rfl⟩
  | cons checkpoint rest ih => exact ih (recovered.add checkpoint)

/-- The number of the first checkpoint of a stream. -/
def firstCheckpoint (events : List HistoryEvent) (id : Text) : Option ℤ :=
  ((checkpoints events).find? fun checkpoint => checkpoint.streamId = id).map Checkpoint.seq

/-- An entry takes its number and its label from the first checkpoint. -/
theorem exists_group {checkpoints : List Checkpoint} {id : Text}
    (hid : id ∈ streamIds checkpoints) :
    ∃ first ∈ checkpoints, first.streamId = id ∧
      (checkpoints.find? fun checkpoint => checkpoint.streamId = id) = some first ∧
      ∃ recovered, group checkpoints id = some recovered ∧ recovered.seq = first.seq ∧
        recovered.label = streamLabel first.kind first.toolName := by
  obtain ⟨checkpoint, hcheckpoint, hname⟩ := (Grouping.mem_keys _ _ _).mp hid
  have hfind : (checkpoints.find? fun checkpoint => checkpoint.streamId = id) =
      (checkpoints.filter fun checkpoint => checkpoint.streamId = id).head? :=
    head?_filter.symm
  cases hfilter : checkpoints.filter fun checkpoint => checkpoint.streamId = id with
  | nil =>
      rw [filter_eq_nil_iff] at hfilter
      exact absurd hname (by simpa using hfilter checkpoint hcheckpoint)
  | cons first rest =>
      have hmem : first ∈ checkpoints.filter fun checkpoint => checkpoint.streamId = id := by
        rw [hfilter]
        exact mem_cons_self
      rw [mem_filter, decide_eq_true_eq] at hmem
      rw [hfilter] at hfind
      obtain ⟨hseq, hlabel⟩ := foldl_add rest ((Recovered.start first).add first)
      exact ⟨first, hmem.1, hmem.2, hfind, _, by rw [group, hfilter]; rfl, hseq, hlabel⟩

/-- The entry of a stream, for streams with a checkpoint. -/
def entryOf (checkpoints : List Checkpoint) (id : Text) : Recovered :=
  (group checkpoints id).getD { seq := 0, label := [], parts := [] }

namespace Mirrors

variable {checkpoints : List Checkpoint} {acknowledged : List Text}
  {streams : List OutputStream} {transcripts : List Transcript}

section

variable (hmirrors : Mirrors checkpoints acknowledged streams transcripts)
include hmirrors

theorem streamIds_eq
    (hclean : ∀ stream ∈ streams, stream.pending = false) :
    streamIds checkpoints = transcripts.map Transcript.id := by
  have hnone : ((streams.map OutputStream.id).filter fun id =>
      id ∉ streamIds checkpoints) = [] := by
    rw [filter_eq_nil_iff]
    intro id hid
    obtain ⟨stream, hstream, rfl⟩ := mem_map.mp hid
    rw [decide_eq_true_eq, not_not]
    by_contra hunseen
    have hpending := hmirrors.unwritten stream hstream hunseen
    rw [hclean stream hstream] at hpending
    cases hpending
  rw [hmirrors.ids, hnone, append_nil]

theorem text_eq
    (hclean : ∀ stream ∈ streams, stream.pending = false) {transcript : Transcript}
    (htranscript : transcript ∈ transcripts) :
    transcript.text = flushedText checkpoints transcript.id := by
  by_cases hlive : transcript.live = true
  · obtain ⟨stream, hstream, hhead⟩ := hmirrors.exists_stream htranscript hlive
    have hid : stream.id = transcript.id := congrArg Prod.fst hhead
    rw [hmirrors.current transcript htranscript stream hstream hid,
      spoken_of_not_pending (hclean stream hstream) (hmirrors.replaced stream hstream), hid]
  · exact hmirrors.ended transcript htranscript (Bool.eq_false_of_not_eq_true hlive)

/-- The dictionary that recovery builds lists the uncommitted transcripts. -/
theorem gather_eq
    (hclean : ∀ stream ∈ streams, stream.pending = false) :
    gather (unacknowledged acknowledged checkpoints) =
      (transcripts.filter fun transcript => !transcript.committed).map fun transcript =>
        (transcript.id, entryOf checkpoints transcript.id) := by
  have hshown : (transcripts.filter fun transcript => !transcript.committed) =
      transcripts.filter fun transcript => transcript.id ∉ acknowledged := by
    apply filter_congr
    intro transcript htranscript
    have hcommitted := hmirrors.committed transcript htranscript
    cases hvalue : transcript.committed with
    | true => simp [hcommitted.mp hvalue]
    | false => simp [← hcommitted, hvalue]
  have hkeys : (gather (unacknowledged acknowledged checkpoints)).map Prod.fst =
      (transcripts.filter fun transcript => !transcript.committed).map Transcript.id := by
    calc (gather (unacknowledged acknowledged checkpoints)).map Prod.fst
        = (streamIds checkpoints).filter fun id => id ∉ acknowledged :=
          Grouping.keys_filter _ _ _ (fun id => id ∉ acknowledged) checkpoints
      _ = (transcripts.map Transcript.id).filter fun id => id ∉ acknowledged := by
          rw [hmirrors.streamIds_eq hclean]
      _ = (transcripts.filter fun transcript => transcript.id ∉ acknowledged).map
            Transcript.id := by
          rw [filter_map]
          rfl
      _ = _ := by rw [hshown]
  have hlookup : ∀ id ∈ (gather (unacknowledged acknowledged checkpoints)).map Prod.fst,
      lookup id (gather (unacknowledged acknowledged checkpoints)) =
        some (entryOf checkpoints id) := by
    intro id hid
    rw [hkeys, mem_map] at hid
    obtain ⟨transcript, htranscript, rfl⟩ := hid
    rw [hshown, mem_filter, decide_eq_true_eq] at htranscript
    have hseen : transcript.id ∈ streamIds checkpoints := by
      rw [hmirrors.streamIds_eq hclean]
      exact mem_map_of_mem htranscript.1
    obtain ⟨-, -, -, -, recovered, hgroup, -, -⟩ := exists_group hseen
    have hfilter : (unacknowledged acknowledged checkpoints).filter
        (fun checkpoint => checkpoint.streamId = transcript.id) =
          checkpoints.filter fun checkpoint => checkpoint.streamId = transcript.id := by
      rw [unacknowledged, filter_filter]
      apply filter_congr
      intro checkpoint _
      by_cases hsame : checkpoint.streamId = transcript.id
      · simp [hsame, htranscript.2]
      · simp [hsame]
    rw [gather, Grouping.lookup_collect, hfilter, entryOf, hgroup]
    exact hgroup
  have hnodup : ((gather (unacknowledged acknowledged checkpoints)).map Prod.fst).Nodup :=
    Grouping.nodup_keys _ _ _ _
  rw [Grouping.eq_map_of_lookup (entryOf checkpoints) hnodup hlookup, hkeys, map_map]
  rfl

end

end Mirrors

theorem Recovering.interruptedOutput_eq {journal : OutputJournal} {reader : Reader}
    (hrecovering : Recovering journal reader) (hflushed : journal.Flushed) :
    let shown := reader.transcripts.filter fun transcript => !transcript.committed
    ∃ result, interruptedOutput journal.ledger.events = some result ∧
      result.map Prod.snd = shown.map Transcript.recovered ∧
      (result.map fun entry => some entry.1) =
        shown.map (fun transcript => firstCheckpoint journal.ledger.events transcript.id) ∧
      (result.map Prod.fst).Pairwise (· < ·) := by
  have hmirrors := hrecovering.mirrors
  have hgather := hmirrors.gather_eq hflushed
  have hentry : ∀ transcript ∈ reader.transcripts,
      recoveredText (entryOf (checkpoints journal.ledger.events) transcript.id).label
          (entryOf (checkpoints journal.ledger.events) transcript.id).parts.flatten =
        transcript.recovered ∧
      some (entryOf (checkpoints journal.ledger.events) transcript.id).seq =
        firstCheckpoint journal.ledger.events transcript.id := by
    intro transcript htranscript
    have hseen : transcript.id ∈ streamIds (checkpoints journal.ledger.events) := by
      rw [hmirrors.streamIds_eq hflushed]
      exact mem_map_of_mem htranscript
    obtain ⟨first, hfirst, hid, hfind, recovered, hgroup, hseq, hlabel⟩ := exists_group hseen
    obtain ⟨hkind, htool⟩ := hmirrors.labelled transcript htranscript first hfirst hid
    have htext := hmirrors.text_eq hflushed htranscript
    rw [flushedText, hgroup, Option.elim_some] at htext
    constructor
    · rw [entryOf, hgroup, Option.getD_some, hlabel, hkind, htool, ← htext]
      rfl
    · rw [entryOf, hgroup, Option.getD_some, hseq, firstCheckpoint, hfind]
      rfl
  refine ⟨_, Output.interruptedOutput_eq hrecovering.readable, ?_, ?_, ?_⟩
  · rw [hgather, map_map, map_map]
    apply map_congr_left
    intro transcript htranscript
    exact (hentry transcript (mem_filter.mp htranscript).1).1
  · rw [hgather, map_map, map_map]
    apply map_congr_left
    intro transcript htranscript
    exact (hentry transcript (mem_filter.mp htranscript).1).2
  · have hsublist := Grouping.sublist_rank Checkpoint.streamId Recovered.start Recovered.add
      Recovered.seq Checkpoint.seq (fun _ => rfl) (fun _ _ => rfl)
      (unacknowledged (acknowledgements journal.ledger.events)
        (checkpoints journal.ledger.events))
    rw [map_map]
    exact (hrecovering.readable.increasing.sublist (filter_sublist.map _)).sublist hsublist

/-! ## Runs -/

def run (environment : Environment) (ledger : HistoryLedger) (agentId : Text)
    (actions : List Action) : OutputJournal :=
  actions.foldl (step environment) { ledger, agentId }

/-- The transcripts of a run. -/
def transcribe (reprOf : Json → Text) (agentId : Text) (actions : List Action) :
    List Transcript :=
  (actions.foldl (Reader.step reprOf) { agentId }).transcripts

theorem mem_ids_hear {event : AgentEvent} {kind : OutputKind} {uuid id : Text}
    {transcripts : List Transcript}
    (hid : id ∈ (hear event kind uuid transcripts).map Transcript.id) :
    id ∈ transcripts.map Transcript.id ∨ id = uuid := by
  rw [hear] at hid
  split at hid
  · left
    rw [map_map] at hid
    exact hid
  · simpa using hid

/-- A step adds no identifier but the one it draws. -/
theorem mem_ids_step {reprOf : Json → Text} {reader : Reader} {action : Action} {id : Text}
    (hid : id ∈ (reader.step reprOf action).transcripts.map Transcript.id) :
    id ∈ reader.transcripts.map Transcript.id ∨ action.uuid = some id := by
  cases action with
  | record event uuid =>
      simp only [Reader.step] at hid
      split at hid
      · exact Or.inl hid
      · simp only [observe] at hid
        split at hid
        · rw [map_id_retain] at hid
          exact Or.inl hid
        · split at hid
          · rw [map_id_retain] at hid
            exact Or.inl hid
          · rcases mem_ids_hear hid with hold | rfl
            · rw [map_id_retain] at hold
              exact Or.inl hold
            · exact Or.inr rfl
  | flushScheduled timer => exact Or.inl hid
  | commit arguments =>
      simp only [Reader.step] at hid
      rw [map_id_retain, map_map] at hid
      exact Or.inl hid
  | close =>
      simp only [Reader.step] at hid
      rw [map_id_retain] at hid
      exact Or.inl hid
  | rebind agentId =>
      simp only [Reader.step] at hid
      rw [map_id_retain] at hid
      exact Or.inl hid
  | append kind payload attribution => exact Or.inl hid

theorem foldl_recovering (environment : Environment) {actions : List Action}
    {journal : OutputJournal} {reader : Reader} (hrecovering : Recovering journal reader)
    (hplain : ∀ action ∈ actions, action.Plain)
    (huuids : (actions.filterMap Action.uuid).Nodup)
    (hfresh : ∀ uuid ∈ actions.filterMap Action.uuid,
      uuid ∉ reader.transcripts.map Transcript.id) :
    Recovering (actions.foldl (step environment) journal)
      (actions.foldl (Reader.step environment.reprOf) reader) := by
  induction actions generalizing journal reader with
  | nil => exact hrecovering
  | cons action rest ih =>
      have hhead : ∀ uuid, action.uuid = some uuid →
          uuid ∉ reader.transcripts.map Transcript.id := by
        intro uuid huuid
        exact hfresh uuid (mem_filterMap.mpr ⟨action, mem_cons_self, huuid⟩)
      have htail : ∀ uuid ∈ rest.filterMap Action.uuid,
          uuid ∈ (action :: rest).filterMap Action.uuid := by
        intro uuid huuid
        obtain ⟨other, hother, hdrawn⟩ := mem_filterMap.mp huuid
        exact mem_filterMap.mpr ⟨other, mem_cons_of_mem _ hother, hdrawn⟩
      apply ih (step_recovering environment hrecovering (hplain action mem_cons_self) hhead)
      · exact fun other hother => hplain other (mem_cons_of_mem _ hother)
      · cases hdrawn : action.uuid with
        | none => simpa [filterMap_cons, hdrawn] using huuids
        | some uuid =>
            rw [filterMap_cons, hdrawn] at huuids
            exact (nodup_cons.mp huuids).2
      · intro uuid huuid hmem
        rcases mem_ids_step hmem with hold | hdrawn
        · exact hfresh uuid (htail uuid huuid) hold
        · rw [filterMap_cons, hdrawn] at huuids
          exact (nodup_cons.mp huuids).1 huuid

/-- A ledger that says nothing about output is the ledger of no transcript. -/
theorem recovering_start {ledger : HistoryLedger} (agentId : Text)
    (hledger : ∀ event ∈ ledger.events, Silent event.kind event.payload) :
    Recovering { ledger, agentId } { agentId } := by
  have hcheckpoints : checkpoints ledger.events = [] := by
    rw [checkpoints, filter_eq_nil_iff.mpr, filterMap_nil]
    intro event hevent
    simpa using (hledger event hevent).1
  have hmessages : ∀ event ∈ ledger.events, event.kind = lit "message_committed" →
      acknowledgedIds event = some [] := by
    intro event hevent hkind
    rw [acknowledgedIds, (hledger event hevent).2 hkind]
  have hacknowledged : acknowledgements ledger.events = [] := by
    rw [acknowledgements, flatMap_eq_nil_iff]
    intro event hevent
    rw [mem_filter, decide_eq_true_eq] at hevent
    rw [hmessages event hevent.1 hevent.2]
    rfl
  refine ⟨rfl, ⟨?_, ?_, ?_, ?_⟩, ?_⟩
  · intro event hevent hkind
    exact absurd hkind (hledger event hevent).1
  · intro event hevent hkind
    rw [hmessages event hevent hkind]
    rfl
  · simp [hcheckpoints]
  · simp [hcheckpoints]
  · rw [hcheckpoints, hacknowledged]
    exact {
      heads := rfl
      keys := nodup_nil
      ids := rfl
      distinct := nodup_nil
      unwritten := by simp
      replaced := by simp
      current := by simp
      ended := by simp
      labelled := by simp
      committed := by simp
      known := by simp }

/-- After a run that ends with a flush or a close, recovery returns the
uncommitted transcripts in the order of their first checkpoints. -/
theorem run_interruptedOutput (environment : Environment) (ledger : HistoryLedger)
    (agentId : Text) (actions : List Action) (final : OutputJournal)
    (hledger : ∀ event ∈ ledger.events, Silent event.kind event.payload)
    (hplain : ∀ action ∈ actions, action.Plain)
    (huuids : (actions.filterMap Action.uuid).Nodup)
    (hfinal : final = flushLocked environment (run environment ledger agentId actions) ∨
      final = close environment (run environment ledger agentId actions)) :
    let shown := (transcribe environment.reprOf agentId actions).filter fun transcript =>
      !transcript.committed
    ∃ result, interruptedOutput final.ledger.events = some result ∧
      result.map Prod.snd = shown.map Transcript.recovered ∧
      (result.map fun entry => some entry.1) =
        shown.map (fun transcript => firstCheckpoint final.ledger.events transcript.id) ∧
      (result.map Prod.fst).Pairwise (· < ·) := by
  have hrun : Recovering (run environment ledger agentId actions)
      (actions.foldl (Reader.step environment.reprOf) { agentId }) := by
    apply foldl_recovering environment (recovering_start agentId hledger) hplain huuids
    intro uuid _ hmem
    cases hmem
  have hflush := recovering_flush environment hrun
  rcases hfinal with rfl | rfl
  · exact hflush.interruptedOutput_eq (flushed_flushLocked environment _)
  · exact hflush.interruptedOutput_eq (flushed_flushLocked environment _)

/-- A tool prints, the timer flushes, the assistant answers and is committed, and
the tool's final text replaces what it printed. -/
def toolRun : List Action :=
  let token (text : Text) : AgentEvent :=
    { eventType := .streamToken, agentId := some (lit "main"), data := [(lit "token", text)] }
  let printed : AgentEvent := {
    eventType := .toolOutputDelta
    agentId := some (lit "main")
    correlationId := some (lit "call_1")
    data := [(lit "text", lit "10%")]
    toolName := some (lit "shell") }
  let finished : AgentEvent := {
    eventType := .toolCallEnd
    agentId := some (lit "main")
    correlationId := some (lit "call_1")
    toolResult := some (lit "ok") }
  let answer : MessageArguments := {
    message := [(lit "role", .str (lit "assistant")), (lit "content", .str (lit "Done"))]
    source := lit "assistant" }
  [.record printed (lit "s1"), .record (token (lit "Do")) (lit "s2"), .flushScheduled 0,
    .record (token (lit "ne")) (lit "s3"), .commit answer, .record finished (lit "s4")]

theorem run_interruptedOutput_toolRun :
    ∃ result, interruptedOutput (close ⟨fun _ => {}, fun _ => []⟩
        (run ⟨fun _ => {}, fun _ => []⟩ {} (lit "main") toolRun)).ledger.events = some result ∧
      result.map Prod.snd = [lit "[Recovered tool / shell — session interrupted]\nok"] := by
  obtain ⟨result, hresult, htexts, -, -⟩ := run_interruptedOutput ⟨fun _ => {}, fun _ => []⟩ {}
    (lit "main") toolRun _ (by simp) (by decide) (by decide) (Or.inr rfl)
  refine ⟨result, hresult, htexts.trans ?_⟩
  decide +kernel

end ReuleauxCoder.Output
