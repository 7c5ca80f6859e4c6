import ReuleauxCoder.Output.Recovery

/-!
# Transcripts of streamed output

The journal is compared with a reader that buffers nothing: it keeps one
transcript for each stream, in the order in which the streams began, with the
text heard since the last replacement and a mark for the transcripts that a
message committed.  Flushes move text from the buffers to the ledger and change
no transcript.
-/

namespace ReuleauxCoder.Output

open PyText PyJson
open List hiding lookup
open History (Dict MessageArguments)

/-! ## The reader -/

structure Transcript where
  id : Text
  kind : OutputKind
  correlationId : Option Text
  toolName : Option Text
  text : Text
  live : Bool := true
  committed : Bool := false
  deriving DecidableEq

def Transcript.key (transcript : Transcript) : OutputKind × Option Text :=
  (transcript.kind, transcript.correlationId)

/-- The transcript that a text with this key continues. -/
def Transcript.takes (key : OutputKind × Option Text) (transcript : Transcript) : Bool :=
  transcript.live && transcript.key = key

/-- The transcript with this key goes on with the text, or begins again with it. -/
def Transcript.hear (key : OutputKind × Option Text) (final : Bool) (text : Text)
    (transcript : Transcript) : Transcript :=
  { transcript with
    text :=
      if transcript.takes key then if final then text else transcript.text ++ text
      else transcript.text }

def Transcript.retain (keep : OutputKind × Option Text → Bool) (transcript : Transcript) :
    Transcript :=
  { transcript with live := transcript.live && keep transcript.key }

def Transcript.commit (message : Dict) (transcript : Transcript) : Transcript :=
  { transcript with committed :=
      transcript.committed || (transcript.live && acknowledges message transcript.key) }

/-- What the recovered output shows of a transcript. -/
def Transcript.recovered (transcript : Transcript) : Text :=
  recoveredText (streamLabel transcript.kind.text transcript.toolName) transcript.text

structure Reader where
  agentId : Text
  transcripts : List Transcript := []
  deriving DecidableEq

def hear (event : AgentEvent) (kind : OutputKind) (uuid : Text)
    (transcripts : List Transcript) : List Transcript :=
  let key := (kind, event.correlationId)
  if transcripts.any (Transcript.takes key) then
    transcripts.map (Transcript.hear key event.final (event.text kind))
  else transcripts ++ [{
    id := uuid
    kind
    correlationId := event.correlationId
    toolName := event.toolName
    text := event.text kind }]

/-- The keys that stay live past an event. -/
def AgentEventType.keeps : AgentEventType → OutputKind × Option Text → Bool
  | .chatStart, _ | .chatEnd, _ => false
  | .assistantStreamInterrupted, key => key.1 = .tool
  | _, _ => true

def observe (event : AgentEvent) (uuid : Text) (transcripts : List Transcript) :
    List Transcript :=
  let transcripts := transcripts.map (Transcript.retain event.eventType.keeps)
  match event.eventType.kind with
  | none => transcripts
  | some kind =>
      if event.text kind = [] ∧ !event.final then transcripts
      else hear event kind uuid transcripts

def Reader.step (reprOf : Json → Text) (reader : Reader) : Action → Reader
  | .record event uuid =>
      if event.agentId ≠ some reader.agentId then reader
      else { reader with transcripts := observe event uuid reader.transcripts }
  | .flushScheduled _ => reader
  | .commit arguments =>
      { reader with
        transcripts := (reader.transcripts.map (Transcript.commit arguments.message)).map
          (Transcript.retain fun key =>
            !(messageReturns reprOf arguments && acknowledges arguments.message key)) }
  | .close => { reader with transcripts := reader.transcripts.map (Transcript.retain fun _ => false) }
  | .rebind agentId =>
      { agentId, transcripts := reader.transcripts.map (Transcript.retain fun _ => false) }
  | .append _ _ _ => reader

/-! ## What the runtime promises -/

/-- The event says nothing about output. -/
def Silent (kind : Text) (payload : Dict) : Prop :=
  kind ≠ lit "output_checkpoint" ∧
    (kind = lit "message_committed" → lookup (lit "output_stream_ids") payload = none)

instance (kind : Text) (payload : Dict) : Decidable (Silent kind payload) :=
  inferInstanceAs (Decidable (_ ∧ _))

/-- No caller writes checkpoints or acknowledgements of its own. -/
def Action.Plain : Action → Prop
  | .commit arguments => lit "output_stream_ids" ∉ arguments.metadata.map Prod.fst
  | .append kind payload _ => Silent kind payload
  | _ => True

instance : DecidablePred Action.Plain := fun action =>
  match action with
  | .commit _ => inferInstanceAs (Decidable (_ ∉ _))
  | .append _ _ _ => inferInstanceAs (Decidable (Silent _ _))
  | .record _ _ | .flushScheduled _ | .close | .rebind _ => isTrue trivial

/-- The identifier that an action draws for a stream it may begin. -/
def Action.uuid : Action → Option Text
  | .record _ uuid => some uuid
  | _ => none

/-! ## The journal mirrors the reader -/

abbrev Head := Text × OutputKind × Option Text × Option Text

def OutputStream.head (stream : OutputStream) : Head :=
  (stream.id, stream.kind, stream.toolCallId, stream.toolName)

def Transcript.head (transcript : Transcript) : Head :=
  (transcript.id, transcript.kind, transcript.correlationId, transcript.toolName)

variable {stream : OutputStream} {transcript : Transcript}

theorem key_eq_of_head_eq (hhead : stream.head = transcript.head) :
    stream.key = transcript.key :=
  congrArg (fun head : Head => (head.2.1, head.2.2.1)) hhead

theorem map_id_of_heads {left right : List OutputStream}
    (hheads : left.map OutputStream.head = right.map OutputStream.head) :
    left.map OutputStream.id = right.map OutputStream.id := by
  have hfirst := congrArg (List.map Prod.fst) hheads
  rw [map_map, map_map] at hfirst
  exact hfirst

theorem map_key_of_heads {left right : List OutputStream}
    (hheads : left.map OutputStream.head = right.map OutputStream.head) :
    left.map OutputStream.key = right.map OutputStream.key := by
  have hkeys := congrArg (List.map fun head : Head => (head.2.1, head.2.2.1)) hheads
  rw [map_map, map_map] at hkeys
  exact hkeys

/-- The entry that recovery builds for a stream. -/
def group (checkpoints : List Checkpoint) (id : Text) : Option Recovered :=
  Grouping.entry Recovered.start Recovered.add
    (checkpoints.filter fun checkpoint => checkpoint.streamId = id)

def flushedText (checkpoints : List Checkpoint) (id : Text) : Text :=
  (group checkpoints id).elim [] fun recovered => recovered.parts.flatten

/-- The text of a stream: what was flushed, unless it is to be replaced, and
what is buffered. -/
def spoken (checkpoints : List Checkpoint) (stream : OutputStream) : Text :=
  (if stream.replace then [] else flushedText checkpoints stream.id) ++ stream.buffered

def streamIds (checkpoints : List Checkpoint) : List Text :=
  Grouping.keys Checkpoint.streamId Recovered.start Recovered.add checkpoints

/-- The streams and the flushed checkpoints hold what the transcripts hold. -/
structure Mirrors (checkpoints : List Checkpoint) (acknowledged : List Text)
    (streams : List OutputStream) (transcripts : List Transcript) : Prop where
  heads : (transcripts.filter Transcript.live).map Transcript.head =
    streams.map OutputStream.head
  keys : (streams.map OutputStream.key).Nodup
  ids : transcripts.map Transcript.id = streamIds checkpoints ++
    (streams.map OutputStream.id).filter fun id => id ∉ streamIds checkpoints
  distinct : (transcripts.map Transcript.id).Nodup
  unwritten : ∀ stream ∈ streams, stream.id ∉ streamIds checkpoints → stream.pending = true
  replaced : ∀ stream ∈ streams, stream.replace = true → stream.pending = true
  current : ∀ transcript ∈ transcripts, ∀ stream ∈ streams, stream.id = transcript.id →
    transcript.text = spoken checkpoints stream
  ended : ∀ transcript ∈ transcripts, transcript.live = false →
    transcript.text = flushedText checkpoints transcript.id
  labelled : ∀ transcript ∈ transcripts, ∀ checkpoint ∈ checkpoints,
    checkpoint.streamId = transcript.id →
      checkpoint.kind = transcript.kind.text ∧ checkpoint.toolName = transcript.toolName
  committed : ∀ transcript ∈ transcripts,
    transcript.committed = true ↔ transcript.id ∈ acknowledged
  known : ∀ id ∈ acknowledged, id ∈ transcripts.map Transcript.id

namespace Mirrors

variable {checkpoints : List Checkpoint} {acknowledged : List Text}
  {streams : List OutputStream} {transcripts : List Transcript}

section

variable (hmirrors : Mirrors checkpoints acknowledged streams transcripts)
include hmirrors

theorem exists_transcript
    (hstream : stream ∈ streams) :
    ∃ transcript ∈ transcripts, transcript.live = true ∧ transcript.head = stream.head := by
  have hmem : stream.head ∈ (transcripts.filter Transcript.live).map Transcript.head := by
    rw [hmirrors.heads]
    exact mem_map_of_mem hstream
  obtain ⟨transcript, htranscript, hhead⟩ := mem_map.mp hmem
  rw [mem_filter] at htranscript
  exact ⟨transcript, htranscript.1, htranscript.2, hhead⟩

theorem exists_stream
    (htranscript : transcript ∈ transcripts) (hlive : transcript.live = true) :
    ∃ stream ∈ streams, stream.head = transcript.head := by
  have hmem : transcript.head ∈ streams.map OutputStream.head := by
    rw [← hmirrors.heads]
    exact mem_map_of_mem (mem_filter.mpr ⟨htranscript, hlive⟩)
  exact mem_map.mp hmem

/-- A stream and a transcript with one identifier are the same stream. -/
theorem twin
    (hstream : stream ∈ streams) (htranscript : transcript ∈ transcripts)
    (hid : stream.id = transcript.id) :
    transcript.live = true ∧ stream.head = transcript.head := by
  obtain ⟨other, hother, hlive, hhead⟩ := hmirrors.exists_transcript hstream
  have hsame : other = transcript := by
    apply inj_on_of_nodup_map hmirrors.distinct hother htranscript
    exact (congrArg Prod.fst hhead).trans hid
  subst hsame
  exact ⟨hlive, hhead.symm⟩

theorem nodup_ids :
    (streams.map OutputStream.id).Nodup := by
  have hids : streams.map OutputStream.id =
      (transcripts.filter Transcript.live).map Transcript.id := by
    have hfirst := congrArg (List.map Prod.fst) hmirrors.heads
    rw [map_map, map_map] at hfirst
    exact hfirst.symm
  rw [hids]
  exact hmirrors.distinct.sublist (filter_sublist.map _)

theorem mem_ids
    {id : Text} (hid : id ∈ streamIds checkpoints) : id ∈ transcripts.map Transcript.id := by
  rw [hmirrors.ids]
  exact mem_append_left _ hid

end

end Mirrors

/-! ## Flushing -/

theorem flushedText_append_of_forall_ne {checkpoints more : List Checkpoint} {id : Text}
    (hne : ∀ written ∈ more, written.streamId ≠ id) :
    flushedText (checkpoints ++ more) id = flushedText checkpoints id := by
  have hnone : (more.filter fun written => written.streamId = id) = [] := by
    rw [filter_eq_nil_iff]
    intro written hwritten
    simpa using hne written hwritten
  simp [flushedText, group, hnone]

theorem flushedText_append (checkpoints : List Checkpoint) {more : List Checkpoint}
    (hnodup : (more.map Checkpoint.streamId).Nodup) {written : Checkpoint}
    (hwritten : written ∈ more) :
    flushedText (checkpoints ++ more) written.streamId =
      (if written.replace then [] else flushedText checkpoints written.streamId) ++
        written.text := by
  rw [flushedText, group, filter_append,
    Grouping.filter_key_eq_singleton Checkpoint.streamId hnodup hwritten, Grouping.entry_concat,
    Option.elim_some]
  cases hreplace : written.replace with
  | true => simp [Recovered.add, hreplace]
  | false =>
      rw [flushedText, group]
      cases Grouping.entry Recovered.start Recovered.add
          (checkpoints.filter fun other => other.streamId = written.streamId) with
      | none => simp [Recovered.add, Recovered.start, hreplace]
      | some recovered => simp [Recovered.add, hreplace]

/-- The checkpoints that a flush writes for streams. -/
abbrev Written (streams : List OutputStream) (more : List Checkpoint) : Prop :=
  List.Forall₂ (fun stream written => written = stream.checkpointAt written.seq) streams more

theorem Written.map_streamId {streams : List OutputStream} {more : List Checkpoint}
    (hwritten : Written streams more) :
    more.map Checkpoint.streamId = streams.map OutputStream.id := by
  induction hwritten with
  | nil => rfl
  | cons hhead _ ih =>
      rw [map_cons, map_cons, ih, hhead]
      rfl

theorem Written.exists_checkpoint {streams : List OutputStream} {more : List Checkpoint}
    (hwritten : Written streams more) (hstream : stream ∈ streams) :
    ∃ written ∈ more, written = stream.checkpointAt written.seq := by
  induction hwritten with
  | nil => simp at hstream
  | cons hhead _ ih =>
      rcases mem_cons.mp hstream with rfl | hrest
      · exact ⟨_, mem_cons_self, hhead⟩
      · obtain ⟨written, hmem, heq⟩ := ih hrest
        exact ⟨written, mem_cons_of_mem _ hmem, heq⟩

theorem Written.exists_stream {streams : List OutputStream} {more : List Checkpoint}
    (hwritten : Written streams more) {written : Checkpoint} (hmem : written ∈ more) :
    ∃ stream ∈ streams, written = stream.checkpointAt written.seq := by
  induction hwritten with
  | nil => simp at hmem
  | cons hhead _ ih =>
      rcases mem_cons.mp hmem with rfl | hrest
      · exact ⟨_, mem_cons_self, hhead⟩
      · obtain ⟨stream, hstream, heq⟩ := ih hrest
        exact ⟨stream, mem_cons_of_mem _ hstream, heq⟩

@[simp]
theorem OutputStream.flushed_id (stream : OutputStream) : stream.flushed.id = stream.id := by
  rw [OutputStream.flushed]
  split <;> rfl

@[simp]
theorem OutputStream.flushed_key (stream : OutputStream) : stream.flushed.key = stream.key := by
  rw [OutputStream.flushed]
  split <;> rfl

@[simp]
theorem OutputStream.flushed_head (stream : OutputStream) :
    stream.flushed.head = stream.head := by
  rw [OutputStream.flushed]
  split <;> rfl

theorem OutputStream.pending_flushed (stream : OutputStream) :
    stream.flushed.pending = false := by
  rw [OutputStream.flushed]
  split
  · rfl
  · rename_i hpending
    exact Bool.eq_false_of_not_eq_true hpending

theorem OutputStream.buffered_eq_nil (hpending : stream.pending = false) :
    stream.buffered = [] := by
  have hparts : stream.parts = [] := by simpa [OutputStream.pending] using hpending
  simp [OutputStream.buffered, hparts]

/-- The text of a stream with nothing buffered is the flushed text. -/
theorem spoken_of_not_pending {checkpoints : List Checkpoint} (hpending : stream.pending = false)
    (hreplace : stream.replace = true → stream.pending = true) :
    spoken checkpoints stream = flushedText checkpoints stream.id := by
  have hkept : stream.replace = false := by
    cases hvalue : stream.replace with
    | false => rfl
    | true => exact absurd (hreplace hvalue) (by simp [hpending])
  simp [spoken, hkept, OutputStream.buffered_eq_nil hpending]

theorem OutputStream.replace_flushed (hreplace : stream.replace = true → stream.pending = true) :
    stream.flushed.replace = false := by
  rw [OutputStream.flushed]
  split
  · rfl
  · rename_i hpending
    cases hvalue : stream.replace with
    | false => rfl
    | true => exact absurd (hreplace hvalue) hpending

namespace Mirrors

variable {checkpoints more : List Checkpoint} {acknowledged : List Text}
  {streams : List OutputStream} {transcripts : List Transcript}

section

variable (hmirrors : Mirrors checkpoints acknowledged streams transcripts)
include hmirrors

theorem streamIds_append
    (hwritten : Written (streams.filter OutputStream.pending) more) :
    streamIds (checkpoints ++ more) = transcripts.map Transcript.id := by
  have hnodup : (more.map Checkpoint.streamId).Nodup := by
    rw [hwritten.map_streamId]
    exact hmirrors.nodup_ids.sublist (filter_sublist.map _)
  have hkeys : streamIds (checkpoints ++ more) = streamIds checkpoints ++
      (more.map Checkpoint.streamId).filter fun id => id ∉ streamIds checkpoints :=
    Grouping.keys_append _ _ _ _ _ hnodup
  rw [hkeys, hmirrors.ids, hwritten.map_streamId]
  congr 1
  rw [filter_map, filter_map, filter_filter]
  congr 1
  apply filter_congr
  intro stream hstream
  by_cases hseen : stream.id ∈ streamIds checkpoints
  · simp [hseen]
  · have hpending := hmirrors.unwritten stream hstream hseen
    simp [hpending]

/-- A flush moves buffered text to the checkpoints. -/
theorem flush
    (hwritten : Written (streams.filter OutputStream.pending) more) :
    Mirrors (checkpoints ++ more) acknowledged (streams.map OutputStream.flushed)
      transcripts := by
  have hnodup : (more.map Checkpoint.streamId).Nodup := by
    rw [hwritten.map_streamId]
    exact hmirrors.nodup_ids.sublist (filter_sublist.map _)
  have hids := hmirrors.streamIds_append hwritten
  have hseen : ∀ stream ∈ streams, stream.id ∈ streamIds (checkpoints ++ more) := by
    intro stream hstream
    obtain ⟨transcript, htranscript, -, hhead⟩ := hmirrors.exists_transcript hstream
    have hid : transcript.id = stream.id := congrArg Prod.fst hhead
    rw [hids, ← hid]
    exact mem_map_of_mem htranscript
  have hflushed : ∀ stream ∈ streams,
      flushedText (checkpoints ++ more) stream.id = spoken checkpoints stream := by
    intro stream hstream
    by_cases hpending : stream.pending = true
    · obtain ⟨written, hmem, heq⟩ :=
        hwritten.exists_checkpoint (mem_filter.mpr ⟨hstream, hpending⟩)
      have happend := flushedText_append checkpoints hnodup hmem
      rw [heq] at happend
      exact happend
    · rw [Bool.not_eq_true] at hpending
      rw [spoken_of_not_pending hpending (hmirrors.replaced stream hstream)]
      apply flushedText_append_of_forall_ne
      intro written hmem hid
      obtain ⟨other, hother, heq⟩ := hwritten.exists_stream hmem
      rw [mem_filter] at hother
      have hsame : other = stream := by
        apply inj_on_of_nodup_map hmirrors.nodup_ids hother.1 hstream
        rw [← hid, heq]
        rfl
      rw [hsame, hpending] at hother
      exact absurd hother.2 (by simp)
  refine {
    heads := ?_
    keys := ?_
    ids := ?_
    distinct := hmirrors.distinct
    unwritten := ?_
    replaced := ?_
    current := ?_
    ended := ?_
    labelled := ?_
    committed := hmirrors.committed
    known := hmirrors.known }
  · rw [hmirrors.heads, map_map]
    exact map_congr_left fun stream _ => (OutputStream.flushed_head stream).symm
  · rw [map_map]
    have hkeys : streams.map (OutputStream.key ∘ OutputStream.flushed) =
        streams.map OutputStream.key :=
      map_congr_left fun stream _ => OutputStream.flushed_key stream
    rw [hkeys]
    exact hmirrors.keys
  · have hnone : (((streams.map OutputStream.flushed).map OutputStream.id).filter fun id =>
        id ∉ streamIds (checkpoints ++ more)) = [] := by
      rw [filter_eq_nil_iff]
      intro id hid
      rw [map_map, mem_map] at hid
      obtain ⟨stream, hstream, rfl⟩ := hid
      simpa using hseen stream hstream
    rw [hnone, append_nil, hids]
  · intro flushed hmem hunseen
    obtain ⟨stream, hstream, rfl⟩ := mem_map.mp hmem
    rw [OutputStream.flushed_id] at hunseen
    exact absurd (hseen stream hstream) hunseen
  · intro flushed hmem hreplace
    obtain ⟨stream, hstream, rfl⟩ := mem_map.mp hmem
    rw [OutputStream.replace_flushed (hmirrors.replaced stream hstream)] at hreplace
    cases hreplace
  · intro transcript htranscript flushed hmem hid
    obtain ⟨stream, hstream, rfl⟩ := mem_map.mp hmem
    have hreplace := OutputStream.replace_flushed (hmirrors.replaced stream hstream)
    rw [spoken_of_not_pending stream.pending_flushed (by simp [hreplace]),
      OutputStream.flushed_id, hflushed stream hstream]
    rw [OutputStream.flushed_id] at hid
    exact hmirrors.current transcript htranscript stream hstream hid
  · intro transcript htranscript hlive
    rw [hmirrors.ended transcript htranscript hlive]
    symm
    apply flushedText_append_of_forall_ne
    intro written hmem hid
    obtain ⟨stream, hstream, heq⟩ := hwritten.exists_stream hmem
    rw [mem_filter] at hstream
    have hsame : stream.id = transcript.id := by
      rw [← hid, heq]
      rfl
    have htwin := hmirrors.twin hstream.1 htranscript hsame
    exact absurd htwin.1 (by simp [hlive])
  · intro transcript htranscript checkpoint hmem hid
    rcases mem_append.mp hmem with hold | hnew
    · exact hmirrors.labelled transcript htranscript checkpoint hold hid
    · obtain ⟨stream, hstream, heq⟩ := hwritten.exists_stream hnew
      rw [mem_filter] at hstream
      have hsame : stream.id = transcript.id := by
        rw [← hid, heq]
        rfl
      have hhead := (hmirrors.twin hstream.1 htranscript hsame).2
      simp only [OutputStream.head, Transcript.head, Prod.mk.injEq] at hhead
      rw [heq, OutputStream.checkpointAt, hhead.2.1, hhead.2.2.2]
      exact ⟨rfl, rfl⟩

/-- With nothing buffered, streams may be forgotten. -/
theorem retain
    (hclean : ∀ stream ∈ streams, stream.pending = false)
    (keep : OutputKind × Option Text → Bool) :
    Mirrors checkpoints acknowledged (streams.filter fun stream => keep stream.key)
      (transcripts.map (Transcript.retain keep)) := by
  have hseen : ∀ stream ∈ streams, stream.id ∈ streamIds checkpoints := by
    intro stream hstream
    by_contra hunseen
    have hpending := hmirrors.unwritten stream hstream hunseen
    rw [hclean stream hstream] at hpending
    cases hpending
  have hnone : ∀ some : List OutputStream, some.Sublist streams →
      ((some.map OutputStream.id).filter fun id => id ∉ streamIds checkpoints) = [] := by
    intro some hsome
    rw [filter_eq_nil_iff]
    intro id hid
    obtain ⟨stream, hstream, rfl⟩ := mem_map.mp hid
    simpa using hseen stream (hsome.subset hstream)
  have hids : (transcripts.map (Transcript.retain keep)).map Transcript.id =
      transcripts.map Transcript.id := by
    rw [map_map]
    rfl
  refine {
    heads := ?_
    keys := hmirrors.keys.sublist (filter_sublist.map _)
    ids := ?_
    distinct := ?_
    unwritten := ?_
    replaced := ?_
    current := ?_
    ended := ?_
    labelled := ?_
    committed := ?_
    known := ?_ }
  · have hheads := congrArg (List.filter fun head : Head => keep (head.2.1, head.2.2.1))
      hmirrors.heads
    rw [filter_map, filter_map, filter_filter] at hheads
    have hlive : (transcripts.filter fun transcript =>
        (transcript.retain keep).live) =
        transcripts.filter fun transcript => keep transcript.key && transcript.live :=
      filter_congr fun transcript _ => Bool.and_comm _ _
    rw [filter_map, map_map]
    exact (congrArg (List.map Transcript.head) hlive).trans hheads
  · rw [hids, hmirrors.ids, hnone streams (List.Sublist.refl _), hnone _ filter_sublist]
  · rw [hids]
    exact hmirrors.distinct
  · intro stream hstream
    exact hmirrors.unwritten stream (mem_filter.mp hstream).1
  · intro stream hstream
    exact hmirrors.replaced stream (mem_filter.mp hstream).1
  · intro retained hmem stream hstream hid
    obtain ⟨transcript, htranscript, rfl⟩ := mem_map.mp hmem
    exact hmirrors.current transcript htranscript stream (mem_filter.mp hstream).1 hid
  · intro retained hmem hlive
    obtain ⟨transcript, htranscript, rfl⟩ := mem_map.mp hmem
    by_cases hwas : transcript.live = true
    · obtain ⟨stream, hstream, hhead⟩ := hmirrors.exists_stream htranscript hwas
      have hid : stream.id = transcript.id := congrArg Prod.fst hhead
      have htext := hmirrors.current transcript htranscript stream hstream hid
      rw [spoken_of_not_pending (hclean stream hstream) (hmirrors.replaced stream hstream),
        hid] at htext
      exact htext
    · rw [Bool.not_eq_true] at hwas
      exact hmirrors.ended transcript htranscript hwas
  · intro retained hmem checkpoint hcheckpoint hid
    obtain ⟨transcript, htranscript, rfl⟩ := mem_map.mp hmem
    exact hmirrors.labelled transcript htranscript checkpoint hcheckpoint hid
  · intro retained hmem
    obtain ⟨transcript, htranscript, rfl⟩ := mem_map.mp hmem
    exact hmirrors.committed transcript htranscript
  · rw [hids]
    exact hmirrors.known

/-- A message commits the live transcripts whose streams it acknowledges. -/
theorem commit
    (message : Dict) :
    Mirrors checkpoints
      (acknowledged ++ (streams.filter fun stream =>
        acknowledges message stream.key).map OutputStream.id)
      streams (transcripts.map (Transcript.commit message)) := by
  have hids : (transcripts.map (Transcript.commit message)).map Transcript.id =
      transcripts.map Transcript.id := by
    rw [map_map]
    rfl
  have hheads : ((transcripts.map (Transcript.commit message)).filter Transcript.live).map
      Transcript.head = (transcripts.filter Transcript.live).map Transcript.head := by
    rw [filter_map, map_map]
    rfl
  refine {
    heads := hheads.trans hmirrors.heads
    keys := hmirrors.keys
    ids := hids.trans hmirrors.ids
    distinct := ?_
    unwritten := hmirrors.unwritten
    replaced := hmirrors.replaced
    current := ?_
    ended := ?_
    labelled := ?_
    committed := ?_
    known := ?_ }
  · rw [hids]
    exact hmirrors.distinct
  · intro marked hmem
    obtain ⟨transcript, htranscript, rfl⟩ := mem_map.mp hmem
    exact hmirrors.current transcript htranscript
  · intro marked hmem
    obtain ⟨transcript, htranscript, rfl⟩ := mem_map.mp hmem
    exact hmirrors.ended transcript htranscript
  · intro marked hmem
    obtain ⟨transcript, htranscript, rfl⟩ := mem_map.mp hmem
    exact hmirrors.labelled transcript htranscript
  · intro marked hmem
    obtain ⟨transcript, htranscript, rfl⟩ := mem_map.mp hmem
    have hnow : (transcript.live && acknowledges message transcript.key) = true ↔
        transcript.id ∈ (streams.filter fun stream =>
          acknowledges message stream.key).map OutputStream.id := by
      rw [Bool.and_eq_true, mem_map]
      constructor
      · rintro ⟨hlive, hacknowledges⟩
        obtain ⟨stream, hstream, hhead⟩ := hmirrors.exists_stream htranscript hlive
        refine ⟨stream, mem_filter.mpr ⟨hstream, ?_⟩, congrArg Prod.fst hhead⟩
        rw [key_eq_of_head_eq hhead]
        exact hacknowledges
      · rintro ⟨stream, hstream, hid⟩
        rw [mem_filter] at hstream
        obtain ⟨hlive, hhead⟩ := hmirrors.twin hstream.1 htranscript hid
        rw [← key_eq_of_head_eq hhead]
        exact ⟨hlive, hstream.2⟩
    calc (transcript.commit message).committed = true
        ↔ transcript.committed = true ∨
            (transcript.live && acknowledges message transcript.key) = true := by
          rw [← Bool.or_eq_true]
          rfl
      _ ↔ transcript.id ∈ acknowledged ∨ transcript.id ∈ (streams.filter fun stream =>
            acknowledges message stream.key).map OutputStream.id :=
          or_congr (hmirrors.committed transcript htranscript) hnow
      _ ↔ _ := mem_append.symm
  · rw [hids]
    intro id hid
    rcases mem_append.mp hid with hold | hnew
    · exact hmirrors.known id hold
    · obtain ⟨stream, hstream, rfl⟩ := mem_map.mp hnew
      obtain ⟨transcript, htranscript, -, hhead⟩ :=
        hmirrors.exists_transcript (mem_filter.mp hstream).1
      exact mem_map.mpr ⟨transcript, htranscript, congrArg Prod.fst hhead⟩

/-! ## Hearing -/

theorem any_key
    (key : OutputKind × Option Text) :
    (streams.any fun stream => stream.key = key) = transcripts.any (Transcript.takes key) := by
  rw [Bool.eq_iff_iff, List.any_eq_true, List.any_eq_true]
  constructor
  · rintro ⟨stream, hstream, hkey⟩
    obtain ⟨transcript, htranscript, hlive, hhead⟩ := hmirrors.exists_transcript hstream
    refine ⟨transcript, htranscript, ?_⟩
    rw [Transcript.takes, hlive, ← key_eq_of_head_eq hhead.symm]
    exact hkey
  · rintro ⟨transcript, htranscript, htakes⟩
    rw [Transcript.takes, Bool.and_eq_true] at htakes
    obtain ⟨stream, hstream, hhead⟩ := hmirrors.exists_stream htranscript htakes.1
    refine ⟨stream, hstream, ?_⟩
    rw [key_eq_of_head_eq hhead]
    exact htakes.2

/-- A text joins the stream and the transcript of its key. -/
theorem speak
    (key : OutputKind × Option Text) (final : Bool) (text : Text) :
    Mirrors checkpoints acknowledged
      (streams.map fun stream => if stream.key = key then stream.write final text else stream)
      (transcripts.map (Transcript.hear key final text)) := by
  have hstream : ∀ stream : OutputStream,
      (if stream.key = key then stream.write final text else stream).head = stream.head := by
    intro stream
    by_cases hkey : stream.key = key
    · rw [if_pos hkey, OutputStream.write]
      split <;> rfl
    · rw [if_neg hkey]
  have hwritten : ∀ stream : OutputStream, (stream.write final text).pending = true := by
    intro stream
    rw [OutputStream.write]
    split <;> simp [OutputStream.pending]
  have hids : (transcripts.map (Transcript.hear key final text)).map Transcript.id =
      transcripts.map Transcript.id := by
    rw [map_map]
    rfl
  have hheads : (streams.map fun stream =>
      if stream.key = key then stream.write final text else stream).map OutputStream.head =
        streams.map OutputStream.head := by
    rw [map_map]
    exact map_congr_left fun stream _ => hstream stream
  refine {
    heads := ?_
    keys := ?_
    ids := ?_
    distinct := ?_
    unwritten := ?_
    replaced := ?_
    current := ?_
    ended := ?_
    labelled := ?_
    committed := ?_
    known := ?_ }
  · rw [hheads, ← hmirrors.heads, filter_map, map_map]
    rfl
  · rw [map_key_of_heads hheads]
    exact hmirrors.keys
  · rw [hids, map_id_of_heads hheads]
    exact hmirrors.ids
  · rw [hids]
    exact hmirrors.distinct
  · intro spoken hmem hunseen
    obtain ⟨stream, hmemStream, rfl⟩ := mem_map.mp hmem
    by_cases hkey : stream.key = key
    · rw [if_pos hkey]
      exact hwritten stream
    · rw [if_neg hkey] at hunseen ⊢
      exact hmirrors.unwritten stream hmemStream hunseen
  · intro spoken hmem hreplace
    obtain ⟨stream, hmemStream, rfl⟩ := mem_map.mp hmem
    by_cases hkey : stream.key = key
    · rw [if_pos hkey]
      exact hwritten stream
    · rw [if_neg hkey] at hreplace ⊢
      exact hmirrors.replaced stream hmemStream hreplace
  · intro heard hmem written hmemWritten hid
    obtain ⟨transcript, hmemTranscript, rfl⟩ := mem_map.mp hmem
    obtain ⟨stream, hmemStream, rfl⟩ := mem_map.mp hmemWritten
    have hsame : stream.id = transcript.id :=
      (congrArg Prod.fst (hstream stream)).symm.trans hid
    obtain ⟨hlive, hhead⟩ := hmirrors.twin hmemStream hmemTranscript hsame
    have htext := hmirrors.current transcript hmemTranscript stream hmemStream hsame
    have htakes : transcript.takes key = true ↔ stream.key = key := by
      rw [Transcript.takes, hlive, key_eq_of_head_eq hhead]
      simp
    by_cases hkey : stream.key = key
    · rw [if_pos hkey]
      cases final with
      | true => simp [Transcript.hear, htakes.mpr hkey, OutputStream.write, spoken,
          OutputStream.buffered]
      | false => simp [Transcript.hear, htakes.mpr hkey, OutputStream.write, spoken,
          OutputStream.buffered, htext]
    · rw [if_neg hkey]
      simp [Transcript.hear, mt htakes.mp hkey, htext]
  · intro heard hmem hlive
    obtain ⟨transcript, hmemTranscript, rfl⟩ := mem_map.mp hmem
    have hended : transcript.live = false := hlive
    have hnot : transcript.takes key = false := by simp [Transcript.takes, hended]
    have htext := hmirrors.ended transcript hmemTranscript hended
    simpa [Transcript.hear, hnot] using htext
  · intro heard hmem
    obtain ⟨transcript, hmemTranscript, rfl⟩ := mem_map.mp hmem
    exact hmirrors.labelled transcript hmemTranscript
  · intro heard hmem
    obtain ⟨transcript, hmemTranscript, rfl⟩ := mem_map.mp hmem
    exact hmirrors.committed transcript hmemTranscript
  · rw [hids]
    exact hmirrors.known

/-- A stream begins with its first text. -/
theorem begin
    (hfresh : stream.id ∉ transcripts.map Transcript.id)
    (hkey : stream.key ∉ streams.map OutputStream.key) (hpending : stream.pending = true)
    (hhead : transcript.head = stream.head) (hlive : transcript.live = true)
    (hcommitted : transcript.committed = false) (htext : transcript.text = stream.buffered) :
    Mirrors checkpoints acknowledged (streams ++ [stream]) (transcripts ++ [transcript]) := by
  have hid : transcript.id = stream.id := congrArg Prod.fst hhead
  have hunseen : stream.id ∉ streamIds checkpoints := fun hmem => hfresh (hmirrors.mem_ids hmem)
  have hunwritten : ∀ checkpoint ∈ checkpoints, checkpoint.streamId ≠ stream.id := by
    intro checkpoint hcheckpoint heq
    apply hunseen
    rw [← heq]
    exact (Grouping.mem_keys _ _ _).mpr ⟨checkpoint, hcheckpoint, rfl⟩
  have hflushed : flushedText checkpoints stream.id = [] := by
    have hempty : flushedText ([] ++ checkpoints) stream.id = flushedText [] stream.id :=
      flushedText_append_of_forall_ne hunwritten
    exact hempty
  have hstreamFresh : ∀ other ∈ streams, other.id ≠ stream.id := by
    intro other hother heq
    obtain ⟨twin, htwin, -, htwinHead⟩ := hmirrors.exists_transcript hother
    have htwinId : twin.id = stream.id := (congrArg Prod.fst htwinHead).trans heq
    apply hfresh
    rw [← htwinId]
    exact mem_map_of_mem htwin
  refine {
    heads := ?_
    keys := ?_
    ids := ?_
    distinct := ?_
    unwritten := ?_
    replaced := ?_
    current := ?_
    ended := ?_
    labelled := ?_
    committed := ?_
    known := ?_ }
  · simp [hmirrors.heads, hlive, hhead]
  · rw [map_append, nodup_append]
    refine ⟨hmirrors.keys, nodup_singleton _, ?_⟩
    intro left hleft right hright heq
    rw [map_singleton, mem_singleton] at hright
    exact hkey (hright ▸ heq ▸ hleft)
  · simp [hmirrors.ids, hunseen, hid]
  · rw [map_append, nodup_append]
    refine ⟨hmirrors.distinct, nodup_singleton _, ?_⟩
    intro left hleft right hright heq
    rw [map_singleton, mem_singleton, hid] at hright
    exact hfresh (hright ▸ heq ▸ hleft)
  · intro other hother hnew
    rcases mem_append.mp hother with hold | hlast
    · exact hmirrors.unwritten other hold hnew
    · rw [mem_singleton.mp hlast]
      exact hpending
  · intro other hother hreplace
    rcases mem_append.mp hother with hold | hlast
    · exact hmirrors.replaced other hold hreplace
    · rw [mem_singleton.mp hlast]
      exact hpending
  · intro heard hheard other hother hsame
    rcases mem_append.mp hheard with holdHeard | hlastHeard
    · rcases mem_append.mp hother with hold | hlast
      · exact hmirrors.current heard holdHeard other hold hsame
      · rw [mem_singleton.mp hlast] at hsame
        exact absurd (mem_map_of_mem holdHeard) (hsame ▸ hfresh)
    · rw [mem_singleton.mp hlastHeard] at hsame ⊢
      rcases mem_append.mp hother with hold | hlast
      · exact absurd (hsame.trans hid) (hstreamFresh other hold)
      · rw [mem_singleton.mp hlast, htext, spoken, hflushed]
        simp
  · intro heard hheard hended
    rcases mem_append.mp hheard with hold | hlast
    · exact hmirrors.ended heard hold hended
    · rw [mem_singleton.mp hlast, hlive] at hended
      cases hended
  · intro heard hheard checkpoint hcheckpoint hsame
    rcases mem_append.mp hheard with hold | hlast
    · exact hmirrors.labelled heard hold checkpoint hcheckpoint hsame
    · rw [mem_singleton.mp hlast, hid] at hsame
      exact absurd hsame (hunwritten checkpoint hcheckpoint)
  · intro heard hheard
    rcases mem_append.mp hheard with hold | hlast
    · exact hmirrors.committed heard hold
    · rw [mem_singleton.mp hlast, hcommitted, hid]
      simp only [Bool.false_eq_true, false_iff]
      exact fun hmem => hfresh (hmirrors.known _ hmem)
  · intro id hmem
    rw [map_append]
    exact mem_append_left _ (hmirrors.known id hmem)

end

end Mirrors

end ReuleauxCoder.Output
