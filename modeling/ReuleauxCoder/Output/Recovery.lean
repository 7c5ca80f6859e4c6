import ReuleauxCoder.Library.JsonRoundTrip
import ReuleauxCoder.Output.Journal

/-!
# What recovery reads

`interrupted_output` reads two kinds of events: checkpoints, and the stream
identifiers that committed messages acknowledge.  Each append of the journal
adds to one of the two, and the result of recovery is a function of both.
-/

namespace ReuleauxCoder.Output

open PyText PyJson
open List hiding lookup
open History (Attribution Dict HistoryEvent HistoryLedger MessageArguments newEvent optionalText)

/-! ## What a ledger holds -/

def checkpoints (events : List HistoryEvent) : List Checkpoint :=
  (events.filter fun event => event.kind = lit "output_checkpoint").filterMap readCheckpoint

def acknowledgements (events : List HistoryEvent) : List Text :=
  (events.filter fun event => event.kind = lit "message_committed").flatMap fun event =>
    (acknowledgedIds event).getD []

/-- Every event that recovery reads has a payload it can read, and checkpoints
are numbered in order. -/
structure Readable (ledger : HistoryLedger) : Prop where
  outputs : ∀ event ∈ ledger.events, event.kind = lit "output_checkpoint" →
    (readCheckpoint event).isSome
  messages : ∀ event ∈ ledger.events, event.kind = lit "message_committed" →
    (acknowledgedIds event).isSome
  increasing : ((checkpoints ledger.events).map Checkpoint.seq).Pairwise (· < ·)
  below : ∀ checkpoint ∈ checkpoints ledger.events, checkpoint.seq < ledger.nextSeq

theorem readCheckpoint_streamId {event : HistoryEvent} {checkpoint : Checkpoint}
    (hread : readCheckpoint event = some checkpoint) :
    streamId? event = some checkpoint.streamId := by
  unfold readCheckpoint at hread
  split at hread
  · rename_i hid _ _ _
    cases hread
    exact hid
  · cases hread

theorem completedStreams_eq {ledger : HistoryLedger} (hreadable : Readable ledger) :
    completedStreams ledger.events = some (acknowledgements ledger.events) := by
  have hmessages : ∀ event ∈ ledger.events.filter fun event =>
      event.kind = lit "message_committed", (acknowledgedIds event).isSome := by
    intro event hevent
    rw [mem_filter, decide_eq_true_eq] at hevent
    exact hreadable.messages event hevent.1 hevent.2
  rw [completedStreams, acknowledgements]
  generalize (ledger.events.filter fun event =>
    event.kind = lit "message_committed") = messages at hmessages
  induction messages with
  | nil => rfl
  | cons message rest ih =>
      obtain ⟨ids, hids⟩ := Option.isSome_iff_exists.mp (hmessages message mem_cons_self)
      have hrest := ih fun event hevent => hmessages event (mem_cons_of_mem _ hevent)
      rw [Option.map_eq_some_iff] at hrest
      obtain ⟨lists, hlists, hflat⟩ := hrest
      simp [mapM_cons, hids, hlists, hflat]

/-- The checkpoints that recovery keeps. -/
def unacknowledged (completed : List Text) (checkpoints : List Checkpoint) : List Checkpoint :=
  checkpoints.filter fun checkpoint => checkpoint.streamId ∉ completed

def gather (checkpoints : List Checkpoint) : List (Text × Recovered) :=
  Grouping.collect Checkpoint.streamId Recovered.start Recovered.add checkpoints

theorem foldlM_recoverStep {events : List HistoryEvent} (completed : List Text)
    (hread : ∀ event ∈ events, event.kind = lit "output_checkpoint" →
      (readCheckpoint event).isSome) :
    events.foldlM (recoverStep completed) [] =
      some (gather (unacknowledged completed (checkpoints events))) := by
  induction events using List.reverseRecOn with
  | nil => rfl
  | append_singleton events event ih =>
      have hold := ih fun other hother => hread other (mem_append_left _ hother)
      rw [foldlM_append, hold]
      simp only [Option.bind_eq_bind, Option.bind_some, foldlM_cons, foldlM_nil,
        Option.pure_def, Option.bind_fun_some]
      by_cases hkind : event.kind = lit "output_checkpoint"
      · obtain ⟨checkpoint, hcheckpoint⟩ :=
          Option.isSome_iff_exists.mp (hread event (by simp) hkind)
        have hlast : checkpoints (events ++ [event]) = checkpoints events ++ [checkpoint] := by
          simp [checkpoints, hkind, hcheckpoint]
        rw [recoverStep, if_neg (not_not.mpr hkind), readCheckpoint_streamId hcheckpoint, hlast]
        by_cases hmem : checkpoint.streamId ∈ completed
        · simp [unacknowledged, hmem]
        · simp [unacknowledged, hmem, hcheckpoint, gather, Grouping.collect_concat]
      · have hlast : checkpoints (events ++ [event]) = checkpoints events := by
          simp [checkpoints, hkind]
        rw [recoverStep, if_pos hkind, hlast]

theorem interruptedOutput_eq {ledger : HistoryLedger} (hreadable : Readable ledger) :
    interruptedOutput ledger.events =
      some ((gather (unacknowledged (acknowledgements ledger.events)
        (checkpoints ledger.events))).map fun entry =>
          (entry.2.seq, recoveredText entry.2.label entry.2.parts.flatten)) := by
  rw [interruptedOutput, completedStreams_eq hreadable]
  simp [foldlM_recoverStep _ hreadable.outputs]

section Ledger

variable {environment : Environment} {ledger : HistoryLedger} {kind : Text} {payload : Dict}
  {attribution : Attribution}

theorem append_eq_events :
    (append environment ledger kind payload attribution).events =
      ledger.events ++ [newEvent ledger (environment.stamps ledger.nextSeq) kind payload
        attribution] := rfl

theorem append_nextSeq :
    (append environment ledger kind payload attribution).nextSeq = ledger.nextSeq + 1 := rfl

/-- An event of another kind is not read. -/
theorem readable_append_other (hreadable : Readable ledger)
    (houtput : kind ≠ lit "output_checkpoint") (hmessage : kind ≠ lit "message_committed") :
    Readable (append environment ledger kind payload attribution) ∧
      checkpoints (append environment ledger kind payload attribution).events =
        checkpoints ledger.events ∧
      acknowledgements (append environment ledger kind payload attribution).events =
        acknowledgements ledger.events := by
  have hcheckpoints : checkpoints (append environment ledger kind payload attribution).events =
      checkpoints ledger.events := by
    simp [checkpoints, append_eq_events, newEvent, houtput]
  refine ⟨⟨?_, ?_, ?_, ?_⟩, hcheckpoints, ?_⟩
  · intro event hevent hkind
    rw [append_eq_events, mem_append, mem_singleton] at hevent
    rcases hevent with hold | rfl
    · exact hreadable.outputs event hold hkind
    · exact absurd hkind houtput
  · intro event hevent hkind
    rw [append_eq_events, mem_append, mem_singleton] at hevent
    rcases hevent with hold | rfl
    · exact hreadable.messages event hold hkind
    · exact absurd hkind hmessage
  · rw [hcheckpoints]
    exact hreadable.increasing
  · rw [hcheckpoints, append_nextSeq]
    intro checkpoint hcheckpoint
    exact (hreadable.below checkpoint hcheckpoint).trans (lt_add_one _)
  · simp [acknowledgements, append_eq_events, newEvent, hmessage]

end Ledger

/-- The checkpoint that a flush writes for a stream. -/
def OutputStream.checkpointAt (seq : ℤ) (stream : OutputStream) : Checkpoint where
  seq
  streamId := stream.id
  kind := stream.kind.text
  toolName := stream.toolName
  text := stream.buffered
  replace := stream.replace

theorem readable_checkpoint (environment : Environment) (agentId : Text)
    {ledger : HistoryLedger} (hreadable : Readable ledger) (stream : OutputStream) :
    Readable (checkpoint environment agentId ledger stream) ∧
      checkpoints (checkpoint environment agentId ledger stream).events =
        checkpoints ledger.events ++ [stream.checkpointAt ledger.nextSeq] ∧
      acknowledgements (checkpoint environment agentId ledger stream).events =
        acknowledgements ledger.events := by
  have hread : readCheckpoint (newEvent ledger (environment.stamps ledger.nextSeq)
      (lit "output_checkpoint") (checkpointPayload stream)
      { agentId := some agentId, turnId := stream.turnId }) =
        some (stream.checkpointAt ledger.nextSeq) := by
    cases htool : stream.toolName <;>
      simp [readCheckpoint, streamId?, newEvent, checkpointPayload, lookup, field, optionalText,
        optionalStr?, OutputStream.checkpointAt, Json.truthy, htool]
  have hkinds : ¬ lit "output_checkpoint" = lit "message_committed" := by decide
  have hcheckpoints : checkpoints (checkpoint environment agentId ledger stream).events =
      checkpoints ledger.events ++ [stream.checkpointAt ledger.nextSeq] := by
    simp only [checkpoints, checkpoint, append_eq_events, filter_append,
      filterMap_append]
    rw [filter_cons_of_pos (by simp [newEvent])]
    simp [hread]
  refine ⟨⟨?_, ?_, ?_, ?_⟩, hcheckpoints, ?_⟩
  · intro event hevent hkind
    rw [checkpoint, append_eq_events, mem_append, mem_singleton] at hevent
    rcases hevent with hold | rfl
    · exact hreadable.outputs event hold hkind
    · rw [hread]
      rfl
  · intro event hevent hkind
    rw [checkpoint, append_eq_events, mem_append, mem_singleton] at hevent
    rcases hevent with hold | rfl
    · exact hreadable.messages event hold hkind
    · exact absurd hkind hkinds
  · rw [hcheckpoints, map_append, pairwise_append]
    refine ⟨hreadable.increasing, pairwise_singleton _ _, ?_⟩
    intro left hleft right hright
    obtain ⟨other, hother, rfl⟩ := mem_map.mp hleft
    rw [map_singleton, mem_singleton] at hright
    rw [hright]
    exact hreadable.below other hother
  · rw [hcheckpoints]
    intro other hother
    rw [checkpoint, append_nextSeq]
    rcases mem_append.mp hother with hold | hnew
    · exact (hreadable.below other hold).trans (lt_add_one _)
    · rw [mem_singleton.mp hnew]
      exact lt_add_one _
  · simp [acknowledgements, checkpoint, append_eq_events, newEvent, hkinds]

/-- A flush writes one checkpoint for each stream, in order. -/
theorem readable_foldl_checkpoint (environment : Environment) (agentId : Text)
    (streams : List OutputStream) {ledger : HistoryLedger} (hreadable : Readable ledger) :
    Readable (streams.foldl (checkpoint environment agentId) ledger) ∧
      acknowledgements (streams.foldl (checkpoint environment agentId) ledger).events =
        acknowledgements ledger.events ∧
      ∃ more, checkpoints (streams.foldl (checkpoint environment agentId) ledger).events =
          checkpoints ledger.events ++ more ∧
        List.Forall₂ (fun stream written => written = stream.checkpointAt written.seq)
          streams more := by
  induction streams generalizing ledger with
  | nil => exact ⟨hreadable, rfl, [], by simp, List.Forall₂.nil⟩
  | cons stream rest ih =>
      obtain ⟨hread, hcheckpoints, hacknowledged⟩ :=
        readable_checkpoint environment agentId hreadable stream
      obtain ⟨hfinal, hsame, more, hmore, hwritten⟩ := ih hread
      refine ⟨hfinal, hsame.trans hacknowledged,
        stream.checkpointAt ledger.nextSeq :: more, ?_, List.Forall₂.cons rfl hwritten⟩
      rw [foldl_cons, hmore, hcheckpoints, append_assoc]
      rfl

/-! ## Committed messages -/

/-- `append_message` returns on this message. -/
def messageReturns (reprOf : Json → Text) (arguments : MessageArguments) : Bool :=
  (History.messageSemanticKind arguments.message arguments.source).isNone ||
    (History.messageToolCallIds reprOf arguments.message).isSome

theorem lookup_updateDict_of_notMem {key : Text} {metadata : Dict}
    (hkey : key ∉ metadata.map Prod.fst) (payload : Dict) :
    lookup key (History.updateDict payload metadata) = lookup key payload := by
  induction metadata generalizing payload with
  | nil => rfl
  | cons entry rest ih =>
      rw [map_cons, mem_cons, not_or] at hkey
      rw [History.updateDict, foldl_cons]
      exact (ih hkey.2 _).trans (lookup_store_of_ne hkey.1 _ _)

/-- The payload of a committed message names the streams it acknowledges. -/
theorem lookup_messagePayload (arguments : MessageArguments) (acknowledged : List OutputStream)
    (hmetadata : lit "output_stream_ids" ∉ arguments.metadata.map Prod.fst) :
    lookup (lit "output_stream_ids")
        (History.messagePayload (acknowledging arguments acknowledged)) =
      if acknowledged = [] then none
      else some (.arr (acknowledged.map fun stream => .str stream.id)) := by
  have hbase : lookup (lit "output_stream_ids")
      [(lit "source", Json.str arguments.source),
        (lit "message", .obj (History.dropTokenCount arguments.message))] = none := by
    have hsource : ¬ lit "source" = lit "output_stream_ids" := by decide
    have hmessage : ¬ lit "message" = lit "output_stream_ids" := by decide
    simp [lookup, hsource, hmessage]
  by_cases hnone : acknowledged = []
  · rw [if_pos hnone, acknowledging, outputMetadata, if_pos hnone]
    exact (lookup_updateDict_of_notMem hmetadata _).trans hbase
  · rw [if_neg hnone, acknowledging, outputMetadata, if_neg hnone]
    simp only [History.messagePayload, History.updateDict, foldl_cons, foldl_nil]
    rw [store_of_notMem _ hmetadata, foldl_append]
    exact lookup_store_self _ _ _

theorem messageSemanticKind_facts {message : Dict} {source kind : Text}
    (hkind : History.messageSemanticKind message source = some kind) :
    kind ≠ lit "output_checkpoint" ∧ kind ≠ lit "message_committed" := by
  simp only [History.messageSemanticKind] at hkind
  repeat' split at hkind
  all_goals cases hkind
  all_goals decide

theorem mapM_optionalStr (ids : List Text) :
    (ids.map Json.str).mapM History.optionalStr = some ids := by
  induction ids with
  | nil => rfl
  | cons id rest ih => simp [mapM_cons, ih, History.optionalStr]

theorem readable_messageCommitted (environment : Environment) {ledger : HistoryLedger}
    (hreadable : Readable ledger) {payload : Dict} (attribution : Attribution)
    {ids : List Text}
    (hids : lookup (lit "output_stream_ids") payload = some (.arr (ids.map .str)) ∨
      lookup (lit "output_stream_ids") payload = none ∧ ids = []) :
    let after := append environment ledger (lit "message_committed") payload attribution
    Readable after ∧ checkpoints after.events = checkpoints ledger.events ∧
      acknowledgements after.events = acknowledgements ledger.events ++ ids := by
  have hread : acknowledgedIds (newEvent ledger (environment.stamps ledger.nextSeq)
      (lit "message_committed") payload attribution) = some ids := by
    rcases hids with hids | ⟨hnone, rfl⟩
    · simp only [acknowledgedIds, newEvent, hids]
      exact mapM_optionalStr ids
    · simp only [acknowledgedIds, newEvent, hnone]
  have hkinds : ¬ lit "message_committed" = lit "output_checkpoint" := by decide
  have hcheckpoints : checkpoints (append environment ledger (lit "message_committed") payload
      attribution).events = checkpoints ledger.events := by
    simp [checkpoints, append_eq_events, newEvent, hkinds]
  refine ⟨⟨?_, ?_, ?_, ?_⟩, hcheckpoints, ?_⟩
  · intro event hevent hkind
    rw [append_eq_events, mem_append, mem_singleton] at hevent
    rcases hevent with hold | rfl
    · exact hreadable.outputs event hold hkind
    · exact absurd hkind hkinds
  · intro event hevent hkind
    rw [append_eq_events, mem_append, mem_singleton] at hevent
    rcases hevent with hold | rfl
    · exact hreadable.messages event hold hkind
    · rw [hread]
      rfl
  · rw [hcheckpoints]
    exact hreadable.increasing
  · rw [hcheckpoints, append_nextSeq]
    intro checkpoint hcheckpoint
    exact (hreadable.below checkpoint hcheckpoint).trans (lt_add_one _)
  · simp only [acknowledgements, append_eq_events, filter_append, flatMap_append]
    rw [filter_cons_of_pos (by simp [newEvent])]
    simp [hread]

theorem readable_appendMessage (environment : Environment) {ledger : HistoryLedger}
    (hreadable : Readable ledger) (arguments : MessageArguments)
    (acknowledged : List OutputStream)
    (hmetadata : lit "output_stream_ids" ∉ arguments.metadata.map Prod.fst) :
    let appended := appendMessage environment ledger (acknowledging arguments acknowledged)
    Readable appended.1 ∧ checkpoints appended.1.events = checkpoints ledger.events ∧
      acknowledgements appended.1.events =
        acknowledgements ledger.events ++ acknowledged.map OutputStream.id ∧
      appended.2 = messageReturns environment.reprOf arguments := by
  have hids : lookup (lit "output_stream_ids")
        (History.messagePayload (acknowledging arguments acknowledged)) =
      some (.arr ((acknowledged.map OutputStream.id).map .str)) ∨
      lookup (lit "output_stream_ids")
        (History.messagePayload (acknowledging arguments acknowledged)) = none ∧
          acknowledged.map OutputStream.id = [] := by
    rw [lookup_messagePayload arguments acknowledged hmetadata]
    by_cases hnone : acknowledged = []
    · right
      simp [hnone]
    · left
      simp [hnone, map_map, Function.comp_def]
  obtain ⟨hcommitted, hcheckpoints, hacknowledged⟩ :=
    readable_messageCommitted environment hreadable
      (History.messageAttribution (acknowledging arguments acknowledged)) hids
  simp only [appendMessage, messageReturns, acknowledging]
  cases hkind : History.messageSemanticKind arguments.message arguments.source with
  | none => exact ⟨hcommitted, hcheckpoints, hacknowledged, rfl⟩
  | some kind =>
      cases hcalls : History.messageToolCallIds environment.reprOf arguments.message with
      | none => exact ⟨hcommitted, hcheckpoints, hacknowledged, rfl⟩
      | some ids =>
          obtain ⟨houtput, hmessage⟩ := messageSemanticKind_facts hkind
          obtain ⟨hread, hsameCheckpoints, hsameAcknowledged⟩ :=
            readable_append_other hcommitted houtput hmessage
          exact ⟨hread, hsameCheckpoints.trans hcheckpoints,
            hsameAcknowledged.trans hacknowledged, rfl⟩

end ReuleauxCoder.Output
