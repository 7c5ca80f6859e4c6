import ReuleauxCoder.Library.Converting
import ReuleauxCoder.Context.ToolHistory

/-!
# The contract of the reconciliation

Results are handed out by identifier, first come first served.  The repaired list
is always adjacent and a second run leaves it alone; but when identifiers repeat,
a result that stood behind its own call can go to an earlier one.  The number of
calls and results with the identifier before it decides whether it stays.
-/

namespace ReuleauxCoder.ToolHistory

open PyText PyJson Adjacency Context
open List hiding lookup take

/-- A missing-content function never returns a blank text. -/
def Telling (missing : MissingToolContent) : Prop :=
  ∀ content ∈ missing, ∀ id name, strip (content id name) ≠ []

theorem strip_outputMissing (name : Text) : strip (outputMissing name) ≠ [] := by
  have hmem : ofChar 'T' ∈ outputMissing name := by
    rw [outputMissing, append_assoc]
    exact mem_append_left _ (by simp [lit])
  exact strip_ne_nil hmem (by decide)

theorem Telling.strip_missingText {missing : MissingToolContent} (htelling : Telling missing)
    (id name : Text) : strip (missingText missing id name) ≠ [] := by
  cases missing with
  | none => exact strip_outputMissing name
  | some content => exact htelling content rfl id name

/-! ## The protocol is lawful -/

theorem filledId_eq_some {id result : Text} (hfilled : filledId id = some result) :
    result = id ∧ id ≠ [] := by
  rw [filledId] at hfilled
  split at hfilled
  · cases hfilled
  · rename_i hne
    exact ⟨(Option.some.inj hfilled).symm, hne⟩

theorem toolCall_eq_some {builtins : Builtins} {value : Json} {call : Text × Text}
    (hcall : toolCall builtins value = some (some call)) :
    call.1 ≠ [] ∧ strip call.1 = call.1 := by
  unfold toolCall at hcall
  split at hcall
  · rename_i fields
    split at hcall
    · cases hcall
    · rename_i id hid
      obtain ⟨rfl, hne⟩ := filledId_eq_some hid
      split at hcall
      · cases hcall
        exact ⟨hne, strip_strip _⟩
      · cases hcall
  · cases hcall

variable {message : Dict}

theorem mem_calls {builtins : Builtins} {missing : MissingToolContent} {call : Text × Text}
    (hcall : call ∈ (protocol builtins missing).calls message) :
    isAssistant message = true ∧ call.1 ≠ [] ∧ strip call.1 = call.1 := by
  change call ∈ (toolCalls builtins message).getD [] at hcall
  rw [toolCalls] at hcall
  split at hcall
  · rename_i hassistant
    cases hitems : listOf (field message "tool_calls") with
    | none => simp [hitems] at hcall
    | some items =>
        cases hcalls : items.mapM (toolCall builtins) with
        | none => simp [hitems, hcalls] at hcall
        | some calls =>
            simp only [hitems, hcalls, Option.bind_eq_bind, Option.bind_some, Option.pure_def,
              Option.getD_some] at hcall
            have hmem := reduceOption_mem_iff.mp hcall
            obtain ⟨value, -, hvalue⟩ := Converting.exists_of_mem_mapM hcalls hmem
            exact ⟨hassistant.1, toolCall_eq_some hvalue⟩
  · cases hcall

theorem isTool_of_isAssistant (hassistant : isAssistant message = true) :
    isTool message = false := by
  simp only [isAssistant, decide_eq_true_eq] at hassistant
  simp [isTool, hassistant]

theorem field_fillContent_of_ne {key : String} (hkey : lit key ≠ lit "content") (name : Text)
    (response : Dict) : field (fillContent name response) key = field response key := by
  rw [field, fillContent, lookup_store_of_ne hkey, field]

theorem lawful_protocol (builtins : Builtins) {missing : MissingToolContent}
    (htelling : Telling missing) : (protocol builtins missing).Lawful where
  fill_isResponse := by
    intro name message hresponse
    change isTool (fillContent name message) = true
    rw [isTool, field_fillContent_of_ne (by simp)]
    exact hresponse
  fill_responseId := by
    intro name message
    change filledId (cleanId builtins (field (fillContent name message) "tool_call_id")) = _
    rw [field_fillContent_of_ne (by simp)]
    rfl
  fill_isBlank := by
    intro name message
    change isBlankContent (field (fillContent name message) "content") = false
    rw [field, fillContent, lookup_store_self]
    simp [isBlankContent, strip_outputMissing]
  synthesize_isResponse := by
    intro id name
    rfl
  synthesize_responseId := by
    intro message call hcall
    obtain ⟨-, hne, hstrip⟩ := mem_calls hcall
    have hfield : field (synthesizedMessage missing call.1 call.2) "tool_call_id" =
        .str call.1 := by
      simp [field, synthesizedMessage, lookup]
    change filledId (cleanId builtins
      (field (synthesizedMessage missing call.1 call.2) "tool_call_id")) = some call.1
    rw [hfield, cleanId, ReplayEnvelope.strOr_nil, hstrip, filledId, if_neg hne]
  synthesize_isBlank := by
    intro id name
    have hfield : field (synthesizedMessage missing id name) "content" =
        .str (missingText missing id name) := by
      simp [field, synthesizedMessage, lookup]
    change isBlankContent (field (synthesizedMessage missing id name) "content") = false
    rw [hfield]
    simp [isBlankContent, htelling.strip_missingText]

/-! ## Counting -/

/-- How often messages call an identifier. -/
def calledCount (builtins : Builtins) (id : Text) (messages : List Dict) : ℕ :=
  called id (messages.flatMap fun message => (toolCalls builtins message).getD [])

/-- How many results carry an identifier. -/
def respondedCount (builtins : Builtins) (id : Text) (messages : List Dict) : ℕ :=
  messages.countP fun message =>
    isTool message ∧ filledId (cleanId builtins (field message "tool_call_id")) = some id

section Counting

variable (builtins : Builtins) (missing : MissingToolContent)

theorem calls_eq_nil_of_isTool (htool : isTool message = true) :
    (toolCalls builtins message).getD [] = [] := by
  rw [toolCalls, if_neg]
  · rfl
  · rintro ⟨hassistant, -⟩
    rw [isTool_of_isAssistant hassistant] at htool
    cases htool

theorem called_callsOf_zipIdx (id : Text) (messages : List Dict) (start : ℕ) :
    called id ((protocol builtins missing).numbered.callsOf (messages.zipIdx start)) =
      calledCount builtins id messages := by
  induction messages generalizing start with
  | nil => rfl
  | cons message rest ih =>
      rw [calledCount, flatMap_cons, called_append, ← calledCount, ← ih (start + 1),
        zipIdx_cons, Protocol.callsOf, Protocol.others, filter_cons]
      cases htool : isTool message with
      | true =>
          rw [if_neg (by simp [Protocol.numbered, protocol, htool]),
            calls_eq_nil_of_isTool builtins htool]
          exact (Nat.zero_add _).symm
      | false =>
          rw [if_pos (by simp [Protocol.numbered, protocol, htool]), flatMap_cons,
            called_append]
          rfl

theorem length_queue_zipIdx (id : Text) (messages : List Dict) (start : ℕ) :
    (queue id ((protocol builtins missing).numbered.pool (messages.zipIdx start))).length =
      respondedCount builtins id messages := by
  induction messages generalizing start with
  | nil => rfl
  | cons message rest ih =>
      rw [respondedCount, countP_cons, ← respondedCount, ← ih (start + 1), zipIdx_cons,
        Protocol.pool]
      simp only [Protocol.numbered, protocol]
      cases isTool message with
      | false => simp
      | true =>
          cases filledId (cleanId builtins (field message "tool_call_id")) with
          | none => simp
          | some other =>
              by_cases hother : other = id
              · simp [queue, hother]
              · simp [queue, hother]

end Counting

/-! ## Results that stay -/

/-- The messages that are no results, with what became of their calls. -/
def blocks (builtins : Builtins) (missing : MissingToolContent) (messages : List Dict) :
    List ((Dict × ℕ) × Outcomes) :=
  (protocol builtins missing).numbered.blocksFrom messages.zipIdx
    ((protocol builtins missing).numbered.pool messages.zipIdx)

/-- The message with the number `owner` is followed by the result with the number
`index`, which is unchanged unless its content was blank. -/
def Attached (builtins : Builtins) (missing : MissingToolContent) (messages : List Dict)
    (owner : ℕ) (response : Dict) (index : ℕ) : Prop :=
  ∃ block ∈ blocks builtins missing messages, block.1.2 = owner ∧
    if isBlankContent (field response "content") then
      ∃ name, ((fillContent name response, index), Origin.answered true) ∈ block.2
    else ((response, index), Origin.answered false) ∈ block.2

/-- A result stands directly behind a message, with no more than other results
between them, and answers one of its calls. -/
structure InPlace (builtins : Builtins) (owner : Dict) (between : List Dict) (response : Dict)
    (id : Text) : Prop where
  tools : ∀ message ∈ between, isTool message = true
  isTool_response : isTool response = true
  responseId : filledId (cleanId builtins (field response "tool_call_id")) = some id
  owed : respondedCount builtins id between < calledCount builtins id [owner]

section Attachment

variable {builtins : Builtins} (missing : MissingToolContent) (front : List Dict) {owner : Dict}
  {between : List Dict} {response : Dict} (back : List Dict) {id : Text}

theorem InPlace.isTool_owner (hplace : InPlace builtins owner between response id) :
    isTool owner = false := by
  by_contra htool
  rw [Bool.not_eq_false] at htool
  have howed := hplace.owed
  rw [calledCount, flatMap_cons, calls_eq_nil_of_isTool builtins htool] at howed
  cases howed

theorem zipIdx_split :
    (front ++ owner :: (between ++ response :: back)).zipIdx =
      front.zipIdx ++ (owner, front.length) ::
        (between.zipIdx (front.length + 1) ++
          (response, front.length + 1 + between.length) ::
            back.zipIdx (front.length + 1 + between.length + 1)) := by
  simp [zipIdx_append, zipIdx_cons]

section

variable (hplace : InPlace builtins owner between response id)
include hplace

/-- The place of the result in the queue of its identifier. -/
theorem InPlace.getElem?_queue :
    (queue id ((protocol builtins missing).numbered.pool
      (front ++ owner :: (between ++ response :: back)).zipIdx))[
        respondedCount builtins id front + respondedCount builtins id between]? =
      some (response, front.length + 1 + between.length) := by
  have howner : (protocol builtins missing).numbered.pool
      ((owner, front.length) :: (between.zipIdx (front.length + 1) ++
          (response, front.length + 1 + between.length) ::
            back.zipIdx (front.length + 1 + between.length + 1))) =
      (protocol builtins missing).numbered.pool (between.zipIdx (front.length + 1) ++
          (response, front.length + 1 + between.length) ::
            back.zipIdx (front.length + 1 + between.length + 1)) := by
    rw [Protocol.pool]
    simp [Protocol.numbered, protocol, hplace.isTool_owner]
  rw [zipIdx_split, Protocol.pool_append, howner, Protocol.pool_append, Protocol.pool,
    queue_append, queue_append, getElem?_append_right (by simp [length_queue_zipIdx]),
    length_queue_zipIdx, Nat.add_sub_cancel_left,
    getElem?_append_right (by simp [length_queue_zipIdx]), length_queue_zipIdx,
    Nat.sub_self]
  simp [Protocol.numbered, protocol, hplace.isTool_response, hplace.responseId, queue]

/-- A number has one message, so a result has one place in one queue. -/
theorem InPlace.queue_unique {other : Text}
    {place : ℕ} (hget : (queue other ((protocol builtins missing).numbered.pool
      (front ++ owner :: (between ++ response :: back)).zipIdx))[place]? =
        some (message, front.length + 1 + between.length)) :
    other = id ∧ message = response ∧
      place = respondedCount builtins id front + respondedCount builtins id between := by
  have hentry : (other, message, front.length + 1 + between.length) ∈
      (protocol builtins missing).numbered.pool
        (front ++ owner :: (between ++ response :: back)).zipIdx := by
    obtain ⟨⟨key, value⟩, hentry, hsome⟩ := mem_filterMap.mp (mem_of_getElem? hget)
    simp only at hsome
    split at hsome
    · rename_i hkey
      cases hsome
      rw [← hkey]
      exact hentry
    · cases hsome
  obtain ⟨hmem, -, hid⟩ := Protocol.mem_pool _ hentry
  have hmessage : message = response := by
    rw [mem_zipIdx_iff_getElem?] at hmem
    simp only at hmem
    have hsplit : front ++ owner :: (between ++ response :: back) =
        (front ++ owner :: between) ++ response :: back := by simp
    rw [hsplit, getElem?_append_right (by simp; omega)] at hmem
    have hzero : front.length + 1 + between.length - (front ++ owner :: between).length = 0 := by
      simp only [length_append, length_cons]
      omega
    rw [hzero] at hmem
    exact (Option.some.inj hmem).symm
  have hother : other = id := by
    change filledId (cleanId builtins (field message "tool_call_id")) = some other at hid
    rw [hmessage, hplace.responseId] at hid
    exact (Option.some.inj hid).symm
  subst hother hmessage
  refine ⟨rfl, rfl, ?_⟩
  have hnodup : (queue other ((protocol builtins missing).numbered.pool
      (front ++ owner :: (between ++ message :: back)).zipIdx)).Nodup := by
    apply Protocol.nodup_queue_pool
    exact List.Nodup.of_map Prod.snd (by rw [zipIdx_map_snd]; exact nodup_range' ..)
  rw [← getElem?_inj (List.getElem?_eq_some_iff.mp hget).1 hnodup, hget,
    hplace.getElem?_queue missing front back]

/-- What becomes of the calls of the message the result stands behind. -/
theorem InPlace.mem_blocks_iff
    (block : (Dict × ℕ) × Outcomes) :
    (block ∈ blocks builtins missing (front ++ owner :: (between ++ response :: back)) ∧
        block.1.2 = front.length) ↔
      block = ((owner, front.length),
        ((protocol builtins missing).numbered.answers ((toolCalls builtins owner).getD [])
          ((protocol builtins missing).numbered.repairFrom front.zipIdx
            ((protocol builtins missing).numbered.pool
              (front ++ owner :: (between ++ response :: back)).zipIdx)).2).1) := by
  have howner : ¬ (protocol builtins missing).numbered.isResponse (owner, front.length) = true := by
    change ¬ isTool owner = true
    rw [hplace.isTool_owner]
    exact Bool.false_ne_true
  rw [blocks, zipIdx_split, Protocol.blocksFrom_append, Protocol.blocksFrom, if_neg howner]
  constructor
  · rintro ⟨hmem, hnumber⟩
    rcases mem_append.mp hmem with hfront | hlater
    · have hbound := snd_lt_of_mem_zipIdx (Protocol.mem_of_mem_blocksFrom _ hfront)
      omega
    · rcases mem_cons.mp hlater with heq | hback
      · exact heq
      · have hmem := Protocol.mem_of_mem_blocksFrom _ hback
        rw [mem_append, mem_cons] at hmem
        rcases hmem with hbetween | heq | hrest
        · have hbound := le_snd_of_mem_zipIdx hbetween
          omega
        · have hbound := congrArg Prod.snd heq
          simp only at hbound
          omega
        · have hbound := le_snd_of_mem_zipIdx hrest
          omega
  · rintro rfl
    exact ⟨mem_append_right _ mem_cons_self, rfl⟩

theorem InPlace.attached_iff :
    Attached builtins missing (front ++ owner :: (between ++ response :: back)) front.length
        response (front.length + 1 + between.length) ↔
      calledCount builtins id front ≤
          respondedCount builtins id front + respondedCount builtins id between ∧
        respondedCount builtins id front + respondedCount builtins id between <
          calledCount builtins id front + calledCount builtins id [owner] := by
  have hcalled : calledCount builtins id [owner] =
      called id ((toolCalls builtins owner).getD []) := by
    rw [calledCount, flatMap_singleton]
  have hqueue : ∀ (call : Text × Text) (place : ℕ),
      (queue call.1 ((protocol builtins missing).numbered.repairFrom front.zipIdx
        ((protocol builtins missing).numbered.pool
          (front ++ owner :: (between ++ response :: back)).zipIdx)).2)[place]? =
      (queue call.1 ((protocol builtins missing).numbered.pool
        (front ++ owner :: (between ++ response :: back)).zipIdx))[
          calledCount builtins call.1 front + place]? := by
    intro call place
    rw [Protocol.queue_repairFrom, getElem?_drop, called_callsOf_zipIdx]
  constructor
  · rintro ⟨block, hblock, hnumber, hanswered⟩
    have hthere := (hplace.mem_blocks_iff missing front back block).mp ⟨hblock, hnumber⟩
    have hmem : ∃ message filled, ((message, front.length + 1 + between.length),
        Origin.answered filled) ∈ block.2 := by
      split at hanswered
      · obtain ⟨name, hname⟩ := hanswered
        exact ⟨_, _, hname⟩
      · exact ⟨_, _, hanswered⟩
    obtain ⟨message, filled, hmem⟩ := hmem
    rw [hthere] at hmem
    obtain ⟨position, hposition⟩ := mem_iff_getElem?.mp hmem
    rw [Protocol.answers_getElem?] at hposition
    obtain ⟨call, hcall, houtcome⟩ := Option.map_eq_some_iff.mp hposition
    rw [hqueue] at houtcome
    obtain ⟨found, hfound⟩ : ∃ found, (queue call.1 ((protocol builtins missing).numbered.pool
        (front ++ owner :: (between ++ response :: back)).zipIdx))[
          calledCount builtins call.1 front + called call.1
            (((toolCalls builtins owner).getD []).take position)]? =
          some (found, front.length + 1 + between.length) := by
      cases hget : (queue call.1 ((protocol builtins missing).numbered.pool
        (front ++ owner :: (between ++ response :: back)).zipIdx))[
          calledCount builtins call.1 front + called call.1
            (((toolCalls builtins owner).getD []).take position)]? with
      | none =>
          rw [hget] at houtcome
          cases congrArg Prod.snd houtcome
      | some found =>
          rw [hget] at houtcome
          have hindex : found.2 = front.length + 1 + between.length := by
            have hfst := congrArg (fun result => result.1.2) houtcome
            simp only [Protocol.outcome] at hfst
            split at hfst
            · exact hfst
            · exact hfst
          exact ⟨found.1, by rw [← hindex]⟩
    obtain ⟨hid, -, hplaced⟩ := hplace.queue_unique missing front back hfound
    have hlt := called_take_lt hcall hid
    rw [hid] at hplaced
    omega
  · rintro ⟨hlow, hhigh⟩
    obtain ⟨position, call, hcall, hid, htake⟩ := exists_call
      (show respondedCount builtins id front + respondedCount builtins id between -
        calledCount builtins id front < called id ((toolCalls builtins owner).getD []) by omega)
    refine ⟨_, ((hplace.mem_blocks_iff missing front back _).mpr rfl).1, rfl, ?_⟩
    have hresult := Protocol.answers_getElem? ((protocol builtins missing).numbered)
      ((toolCalls builtins owner).getD [])
      ((protocol builtins missing).numbered.repairFrom front.zipIdx
        ((protocol builtins missing).numbered.pool
          (front ++ owner :: (between ++ response :: back)).zipIdx)).2 position
    rw [hcall, Option.map_some, hqueue, hid, htake,
      show calledCount builtins id front + (respondedCount builtins id front +
        respondedCount builtins id between - calledCount builtins id front) =
        respondedCount builtins id front + respondedCount builtins id between by omega,
      hplace.getElem?_queue missing front back] at hresult
    have hmem := mem_of_getElem? hresult
    have hsame : (protocol builtins missing).numbered.isBlank
        (response, front.length + 1 + between.length) =
          isBlankContent (field response "content") := rfl
    simp only [Protocol.outcome, hsame] at hmem
    split
    · rename_i hblank
      rw [if_pos hblank] at hmem
      exact ⟨call.2, hmem⟩
    · rename_i hblank
      rw [if_neg hblank] at hmem
      exact hmem

end

end Attachment

/-! ## The contract -/

/-- What reconciling promises about its result. -/
structure Contract (builtins : Builtins) (missing : MissingToolContent) (messages : List Dict)
    (result : Reconciled) : Prop where
  adjacent : (protocol builtins missing).Adjacent result.repaired
  others : result.repaired.filter (fun message => !isTool message) =
    messages.filter fun message => !isTool message
  blocks : result.repaired = (blocks builtins missing messages).flatMap fun block =>
    block.1.1 :: block.2.map fun answered => answered.1.1
  attached : ∀ front owner between response back id,
    messages = front ++ owner :: (between ++ response :: back) →
    InPlace builtins owner between response id →
    Attached builtins missing messages front.length response
      (front.length + 1 + between.length)
  again : ∃ again, reconcileToolCallAdjacency builtins missing result.repaired = some again ∧
    again.repaired = result.repaired ∧ again.synthesized = 0
  counts : (result.synthesized = 0 ∧ result.reordered = 0 ∧ result.discarded = 0 ∧
    result.filledContent = 0) ↔ result.repaired = messages

/-- Every result that stands behind its own call is preceded by as many results
with its identifier as leave it to a call of that message. -/
def InOrder (builtins : Builtins) (messages : List Dict) : Prop :=
  ∀ front owner between response back id,
    messages = front ++ owner :: (between ++ response :: back) →
    InPlace builtins owner between response id →
    calledCount builtins id front ≤
        respondedCount builtins id front + respondedCount builtins id between ∧
      respondedCount builtins id front + respondedCount builtins id between <
        calledCount builtins id front + calledCount builtins id [owner]

section Contract

variable {builtins : Builtins} {missing : MissingToolContent} {messages : List Dict}

theorem toolCalls_isSome_of_isTool (htool : isTool message = true) :
    (toolCalls builtins message).isSome = true := by
  rw [toolCalls, if_neg]
  · rfl
  · rintro ⟨hassistant, -⟩
    rw [isTool_of_isAssistant hassistant] at htool
    cases htool

/-- Results make no calls, so a list stays readable when only results change. -/
theorem WellFormed.of_others (hformed : WellFormed builtins messages) {repaired : List Dict}
    (hothers : repaired.filter (fun message => !isTool message) =
      messages.filter fun message => !isTool message) : WellFormed builtins repaired := by
  intro message hmessage
  cases htool : isTool message with
  | true => exact toolCalls_isSome_of_isTool htool
  | false =>
      have hmem : message ∈ repaired.filter fun message => !isTool message :=
        mem_filter.mpr ⟨hmessage, by simp [htool]⟩
      rw [hothers] at hmem
      exact hformed message (mem_filter.mp hmem).1

/-- Reconciling an adjacent list without blank results changes and counts nothing. -/
theorem counted_of_adjacent (hadjacent : (protocol builtins missing).Adjacent messages)
    (hfilled : ∀ message ∈ messages, isTool message = true →
      isBlankContent (field message "content") = false) :
    counted messages (outcomes builtins missing messages) = ⟨messages, 0, 0, 0, 0⟩ := by
  have houtcomes : outcomes builtins missing messages =
      messages.zipIdx.map (protocol builtins missing).numbered.settled := by
    rw [outcomes, Protocol.repair_of_adjacent _ (hadjacent.zipIdx 0)]
    intro message hmessage htool
    exact hfilled message.1 (fst_mem_of_mem_zipIdx hmessage) htool
  have horigin : ∀ message : Dict × ℕ,
      ((protocol builtins missing).numbered.settled message).2 =
        if isTool message.1 then .answered false else .kept := fun _ => rfl
  have hanswered : (messages.zipIdx.map
      (protocol builtins missing).numbered.settled).countP isAnswered =
        messages.countP isTool := by
    have hsame : isAnswered ∘ (protocol builtins missing).numbered.settled =
        isTool ∘ Prod.fst := by
      funext message
      cases htool : isTool message.1 with
      | false => simp [isAnswered, horigin, htool]
      | true => simp [isAnswered, horigin, htool]
    rw [countP_map, hsame, ← countP_map, zipIdx_map_fst]
  have hnone : ∀ origin : Origin, origin = .synthesized ∨ origin = .answered true →
      (messages.zipIdx.map (protocol builtins missing).numbered.settled).countP
        (fun result => result.2 = origin) = 0 := by
    intro origin horigins
    rw [countP_eq_zero]
    intro result hresult
    obtain ⟨message, -, rfl⟩ := mem_map.mp hresult
    rw [horigin]
    rcases horigins with rfl | rfl
    · cases isTool message.1 <;> simp
    · cases isTool message.1 <;> simp
  have hreordered : (messages.zipIdx.map
      (protocol builtins missing).numbered.settled).zipIdx.countP isReordered = 0 := by
    rw [countP_eq_zero]
    intro entry hentry
    rw [mem_zipIdx_iff_getElem?, getElem?_map, getElem?_zipIdx] at hentry
    obtain ⟨message, hmessage, hsettled⟩ := Option.map_eq_some_iff.mp hentry
    obtain ⟨plain, -, rfl⟩ := Option.map_eq_some_iff.mp hmessage
    rw [isReordered, ← hsettled, horigin]
    cases isTool plain with
    | false => simp
    | true => simp [Protocol.settled]
  rw [houtcomes, counted, hanswered, hnone _ (Or.inl rfl), hnone _ (Or.inr rfl), hreordered,
    map_map]
  congr 1
  · exact zipIdx_map_fst 0 messages
  · exact Int.sub_self _

theorem unchanged_outcomes
    (hsynthesized : (counted messages (outcomes builtins missing messages)).synthesized = 0)
    (hfilled : (counted messages (outcomes builtins missing messages)).filledContent = 0) :
    Protocol.Unchanged (outcomes builtins missing messages) := by
  rintro ⟨message, origin⟩ hresult
  have hmade := countP_eq_zero.mp hsynthesized _ hresult
  have hblank := countP_eq_zero.mp hfilled _ hresult
  cases origin with
  | kept => exact Or.inl rfl
  | answered filled =>
      cases filled with
      | false => exact Or.inr rfl
      | true => simp at hblank
  | synthesized => simp at hmade

theorem isAnswered_eq_isTool (htelling : Telling missing)
    (hunchanged : Protocol.Unchanged (outcomes builtins missing messages))
    {result : (Dict × ℕ) × Origin} (hresult : result ∈ outcomes builtins missing messages) :
    isAnswered result = isTool result.1.1 := by
  have hkept := (Protocol.repairFrom_others_eq (lawful_protocol builtins htelling).numbered
    messages.zipIdx (Protocol.pooled_pool _ _)).2 result hresult
  rcases hunchanged result hresult with horigin | horigin
  · have htool : isTool result.1.1 = false := hkept.mp horigin
    rw [isAnswered, horigin, htool]
  · have htool : isTool result.1.1 ≠ false := by
      intro htool
      rw [hkept.mpr htool] at horigin
      cases horigin
    rw [isAnswered, horigin, Bool.eq_true_of_not_eq_false htool]

theorem countP_numbered (builtins : Builtins) (missing : MissingToolContent)
    (messages : List Dict) :
    messages.zipIdx.countP (protocol builtins missing).numbered.isResponse =
      messages.countP isTool := by
  conv_rhs => rw [← zipIdx_map_fst 0 messages, countP_map]
  rfl

/-- When nothing is made up, filled in or thrown away, the messages are permuted. -/
theorem outcomes_perm (htelling : Telling missing)
    (hunchanged : Protocol.Unchanged (outcomes builtins missing messages))
    (hdiscarded : (counted messages (outcomes builtins missing messages)).discarded = 0) :
    ((outcomes builtins missing messages).map Prod.fst).Perm messages.zipIdx := by
  apply Protocol.repaired_perm (lawful_protocol builtins htelling).numbered hunchanged
  have hanswered : (outcomes builtins missing messages).countP isAnswered =
      messages.countP isTool := by
    have hzero : (messages.countP isTool : ℤ) -
        (outcomes builtins missing messages).countP isAnswered = 0 := hdiscarded
    omega
  rw [countP_numbered, ← hanswered, Protocol.repaired, countP_map]
  apply countP_congr
  intro result hresult
  rw [isAnswered_eq_isTool htelling hunchanged hresult]
  rfl

theorem repaired_eq_of_counts (htelling : Telling missing)
    (hsynthesized : (counted messages (outcomes builtins missing messages)).synthesized = 0)
    (hreordered : (counted messages (outcomes builtins missing messages)).reordered = 0)
    (hdiscarded : (counted messages (outcomes builtins missing messages)).discarded = 0)
    (hfilled : (counted messages (outcomes builtins missing messages)).filledContent = 0) :
    (counted messages (outcomes builtins missing messages)).repaired = messages := by
  have hunchanged := unchanged_outcomes hsynthesized hfilled
  have hsame : (outcomes builtins missing messages).map Prod.fst = messages.zipIdx := by
    apply eq_of_inPlace (fun message => !isTool message.1)
      (outcomes_perm htelling hunchanged hdiscarded)
    · exact Protocol.repaired_others (lawful_protocol builtins htelling).numbered messages.zipIdx
    · intro entry hentry hkeep
      rw [mem_zipIdx_iff_getElem?, getElem?_map] at hentry
      obtain ⟨result, hresult, heq⟩ := Option.map_eq_some_iff.mp hentry
      have hplace := countP_eq_zero.mp hreordered (result, entry.2)
        (mem_zipIdx_iff_getElem?.mpr hresult)
      have hanswered := isAnswered_eq_isTool htelling hunchanged (mem_of_getElem? hresult)
      rw [heq, show isTool entry.1.1 = true by simpa using hkeep] at hanswered
      rw [← heq]
      simp only [isAnswered] at hanswered
      split at hanswered
      · rename_i horigin
        simpa [isReordered, horigin] using hplace
      · cases hanswered
  have hplain := congrArg (List.map Prod.fst) hsame
  rw [map_map, zipIdx_map_fst] at hplain
  exact hplain

/-- Reconciling keeps its contract exactly when the calls can be read and the
results that are in place are in order. -/
theorem reconcile_contract_iff (builtins : Builtins) {missing : MissingToolContent}
    (htelling : Telling missing) (messages : List Dict) :
    (∃ result, reconcileToolCallAdjacency builtins missing messages = some result ∧
        Contract builtins missing messages result) ↔
      WellFormed builtins messages ∧ InOrder builtins messages := by
  constructor
  · rintro ⟨result, hresult, hcontract⟩
    refine ⟨wellFormed_of_reconcile hresult, ?_⟩
    intro front owner between response back id hmessages hplace
    have hattached := hcontract.attached front owner between response back id hmessages hplace
    rw [hmessages] at hattached
    exact (hplace.attached_iff missing front back).mp hattached
  · rintro ⟨hformed, horder⟩
    have hlawful := lawful_protocol builtins htelling
    obtain ⟨hadjacent, hfilled⟩ := Protocol.repaired_adjacent hlawful messages
    have hothers := Protocol.repaired_others hlawful messages
    refine ⟨_, reconcile_eq_counted builtins missing hformed, ?_, ?_, ?_, ?_, ?_, ?_⟩
    · rw [counted_repaired]
      exact hadjacent
    · rw [counted_repaired]
      exact hothers
    · rw [counted, outcomes, Protocol.repair, Protocol.repairFrom_fst, map_flatMap]
      rfl
    · intro front owner between response back id hmessages hplace
      have hcounts := horder front owner between response back id hmessages hplace
      rw [hmessages]
      exact (hplace.attached_iff missing front back).mpr hcounts
    · rw [counted_repaired]
      refine ⟨_, reconcile_eq_counted builtins missing (hformed.of_others hothers), ?_⟩
      rw [counted_of_adjacent hadjacent hfilled]
      exact ⟨rfl, rfl⟩
    · constructor
      · rintro ⟨hsynthesized, hreordered, hdiscarded, hfilledContent⟩
        exact repaired_eq_of_counts htelling hsynthesized hreordered hdiscarded hfilledContent
      · intro hsame
        rw [counted_repaired] at hsame
        rw [hsame] at hadjacent hfilled
        rw [counted_of_adjacent hadjacent hfilled]
        exact ⟨rfl, rfl, rfl, rfl⟩

end Contract

/-! ## Two rounds with one identifier -/

def callMessage (id : String) : Dict :=
  [(lit "role", .str (lit "assistant")), (lit "content", .null),
    (lit "tool_calls", .arr [.obj [(lit "id", .str (lit id)),
      (lit "function", .obj [(lit "name", .str (lit "shell"))])]])]

def resultMessage (id content : String) : Dict :=
  [(lit "role", .str (lit "tool")), (lit "tool_call_id", .str (lit id)),
    (lit "content", .str (lit content))]

theorem reconcile_contract_answered_call :
    Telling none ∧ ∃ result, reconcileToolCallAdjacency ReplayEnvelope.noBuiltins none
      [callMessage "call_1", resultMessage "call_1" "done"] = some result ∧
        Contract ReplayEnvelope.noBuiltins none
          [callMessage "call_1", resultMessage "call_1" "done"] result := by
  have htelling : Telling none := by simp [Telling]
  have hformed : WellFormed ReplayEnvelope.noBuiltins
      [callMessage "call_1", resultMessage "call_1" "done"] := by
    decide +kernel
  refine ⟨htelling, (reconcile_contract_iff ReplayEnvelope.noBuiltins htelling _).mpr
    ⟨hformed, ?_⟩⟩
  intro front owner between response back id hmessages hplace
  have hlength := congrArg List.length hmessages
  simp only [length_append, length_cons, length_nil] at hlength
  have hfront : front = [] := eq_nil_of_length_eq_zero (by omega)
  have hbetween : between = [] := eq_nil_of_length_eq_zero (by omega)
  rw [hfront, hbetween]
  have howed := hplace.owed
  rw [hbetween] at howed
  exact ⟨Nat.zero_le _, by simpa [calledCount, called, respondedCount] using howed⟩

/-- The first call was never answered, so it takes the result of the second. -/
theorem reconcile_reused_id_breaks_contract :
    ¬ ∃ result, reconcileToolCallAdjacency ReplayEnvelope.noBuiltins none
      [callMessage "call_1", callMessage "call_1", resultMessage "call_1" "done"] = some result ∧
        Contract ReplayEnvelope.noBuiltins none
          [callMessage "call_1", callMessage "call_1", resultMessage "call_1" "done"] result := by
  rintro ⟨result, -, hcontract⟩
  have hplace : InPlace ReplayEnvelope.noBuiltins (callMessage "call_1") []
      (resultMessage "call_1" "done") (lit "call_1") :=
    ⟨by simp, by decide, by decide +kernel, by decide +kernel⟩
  have hattached := hcontract.attached [callMessage "call_1"] (callMessage "call_1") []
    (resultMessage "call_1" "done") [] (lit "call_1") rfl hplace
  have hcounts := (hplace.attached_iff none [callMessage "call_1"] []).mp hattached
  revert hcounts
  decide +kernel

end ReuleauxCoder.ToolHistory
