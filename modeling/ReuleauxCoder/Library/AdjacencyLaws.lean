import ReuleauxCoder.Library.AdjacencyRelated

/-!
# Adjacent lists

A list is adjacent when the responses of each message stand directly behind it,
in the order of its calls.  Repaired lists are adjacent, adjacent lists without
blank responses are what the repair leaves alone, and a repair that only moves
responses permutes the list.
-/

namespace Adjacency

open List

variable {Id Name Message : Type*} [DecidableEq Id]

namespace Protocol

variable (protocol : Protocol Id Name Message)

/-- Made up and filled messages are responses to the call they are made for. -/
structure Lawful : Prop where
  fill_isResponse : ∀ name message, protocol.isResponse message = true →
    protocol.isResponse (protocol.fill name message) = true
  fill_responseId : ∀ name message,
    protocol.responseId (protocol.fill name message) = protocol.responseId message
  fill_isBlank : ∀ name message, protocol.isBlank (protocol.fill name message) = false
  synthesize_isResponse : ∀ id name, protocol.isResponse (protocol.synthesize id name) = true
  synthesize_responseId : ∀ message, ∀ call ∈ protocol.calls message,
    protocol.responseId (protocol.synthesize call.1 call.2) = some call.1
  synthesize_isBlank : ∀ id name, protocol.isBlank (protocol.synthesize id name) = false

/-- A message responds to a call. -/
def Answers (call : Id × Name) (message : Message) : Prop :=
  protocol.isResponse message = true ∧ protocol.responseId message = some call.1

inductive Adjacent : List Message → Prop
  | nil : Adjacent []
  | block {message : Message} {answers rest : List Message}
      (hmessage : protocol.isResponse message = false)
      (hanswers : List.Forall₂ protocol.Answers (protocol.calls message) answers)
      (hrest : Adjacent rest) : Adjacent (message :: (answers ++ rest))

/-- Every entry of a pool responds to its identifier. -/
def Pooled (responses : List (Id × Message)) : Prop :=
  ∀ entry ∈ responses, protocol.isResponse entry.2 = true ∧
    protocol.responseId entry.2 = some entry.1

omit [DecidableEq Id] in
theorem pooled_pool (messages : List Message) : protocol.Pooled (protocol.pool messages) :=
  fun _ hmem => (protocol.mem_pool hmem).2

variable {responses : List (Id × Message)} {calls : List (Id × Name)} {messages : List Message}

theorem Pooled.answer {protocol : Protocol Id Name Message} (hpooled : protocol.Pooled responses)
    (call : Id × Name) : protocol.Pooled (protocol.answer call responses).2 := by
  rw [Protocol.answer]
  cases htake : take call.1 responses with
  | none => exact hpooled
  | some found =>
      intro entry hentry
      exact hpooled entry ((take_eq_some htake).2.2.mem_iff.mpr (mem_cons_of_mem _ hentry))

omit [DecidableEq Id] in
theorem isResponse_of_answers {answers : List Message}
    (hanswers : List.Forall₂ protocol.Answers calls answers) :
    ∀ answered ∈ answers, protocol.isResponse answered = true := by
  induction hanswers with
  | nil => simp
  | cons hanswer _ ih => simpa using ⟨hanswer.1, ih⟩

omit [DecidableEq Id] in
/-- An adjacent list falls apart in adjacent parts where the second part starts with no response. -/
theorem Adjacent.of_append {protocol : Protocol Id Name Message} {front back : List Message}
    (hadjacent : protocol.Adjacent (front ++ back))
    (hback : ∀ message ∈ back.head?, protocol.isResponse message = false) :
    protocol.Adjacent front ∧ protocol.Adjacent back := by
  generalize hwhole : front ++ back = whole at hadjacent
  induction hadjacent generalizing front with
  | nil =>
      obtain ⟨rfl, rfl⟩ := append_eq_nil_iff.mp hwhole
      exact ⟨.nil, .nil⟩
  | @block message answers rest hmessage hanswers hrest ih =>
      cases front with
      | nil =>
          rw [nil_append] at hwhole
          rw [hwhole]
          exact ⟨.nil, .block hmessage hanswers hrest⟩
      | cons first others =>
          obtain ⟨rfl, hothers⟩ := cons_eq_cons.mp hwhole
          rcases append_eq_append_iff.mp hothers with
            ⟨part, hpart, hbehind⟩ | ⟨part, hpart, hbehind⟩
          · cases part with
            | nil =>
                rw [append_nil] at hpart
                rw [nil_append] at hbehind
                rw [hbehind, ← hpart, ← append_nil answers]
                exact ⟨.block hmessage hanswers .nil, hrest⟩
            | cons answer more =>
                have hresponses := protocol.isResponse_of_answers hanswers
                have hanswer := hresponses answer (by simp [hpart])
                rw [hback answer (by simp [hbehind])] at hanswer
                cases hanswer
          · obtain ⟨hfront, hback⟩ := ih hbehind.symm
            rw [hpart]
            exact ⟨.block hmessage hanswers hfront, hback⟩

omit [DecidableEq Id] in
/-- Adjacency depends on the responses and the calls alone. -/
theorem Adjacent.congr {left right : Protocol Id Name Message} (hadjacent : left.Adjacent messages)
    (hresponse : right.isResponse = left.isResponse) (hid : right.responseId = left.responseId)
    (hcalls : right.calls = left.calls) : right.Adjacent messages := by
  induction hadjacent with
  | nil => exact .nil
  | block hmessage hanswers _ ih =>
      refine .block (hresponse ▸ hmessage) ?_ ih
      rw [hcalls]
      exact hanswers.imp fun _ _ hanswer => ⟨hresponse ▸ hanswer.1, hid ▸ hanswer.2⟩

theorem answer_ne_kept (call : Id × Name) (responses : List (Id × Message)) :
    (protocol.answer call responses).1.2 ≠ .kept := by
  rw [answer_fst]
  cases (queue call.1 responses).head? with
  | none => simp [outcome]
  | some response =>
      rw [outcome]
      split
      · simp
      · simp

theorem answers_ne_kept (responses : List (Id × Message)) {result : Message × Origin}
    (hresult : result ∈ (protocol.answers calls responses).1) : result.2 ≠ .kept := by
  induction calls generalizing responses with
  | nil => cases hresult
  | cons call calls ih =>
      rcases mem_cons.mp hresult with rfl | hlater
      · exact protocol.answer_ne_kept call responses
      · exact ih _ hlater

/-! ## Length -/

theorem length_answers (calls : List (Id × Name)) (responses : List (Id × Message)) :
    (protocol.answers calls responses).1.length = calls.length := by
  induction calls generalizing responses with
  | nil => rfl
  | cons call calls ih =>
      rw [answers, length_cons, length_cons, ih]

theorem length_repairFrom (messages : List Message) (responses : List (Id × Message)) :
    (protocol.repairFrom messages responses).1.length =
      (protocol.others messages).length + (protocol.callsOf messages).length := by
  induction messages generalizing responses with
  | nil => rfl
  | cons message rest ih =>
      rw [repairFrom, callsOf, others, filter_cons]
      split
      · rename_i hresponse
        rw [if_neg (by simp [hresponse])]
        exact ih responses
      · rename_i hresponse
        rw [if_pos (by simp [hresponse])]
        simp only [length_cons, length_append, flatMap_cons,
          protocol.length_answers]
        rw [ih, callsOf, others]
        omega

/-- A repaired list holds what is no response, and a response for every call. -/
theorem length_repaired (messages : List Message) :
    (protocol.repaired messages).length =
      (protocol.others messages).length + (protocol.callsOf messages).length := by
  rw [repaired, length_map]
  exact protocol.length_repairFrom messages _

section Lawful

variable {protocol : Protocol Id Name Message} (hlawful : protocol.Lawful)
include hlawful

theorem answer_answers {message : Message} {call : Id × Name}
    (hcall : call ∈ protocol.calls message) (hpooled : protocol.Pooled responses) :
    protocol.Answers call (protocol.answer call responses).1.1 ∧
      protocol.isBlank (protocol.answer call responses).1.1 = false := by
  rw [answer]
  cases htake : take call.1 responses with
  | none =>
      exact ⟨⟨hlawful.synthesize_isResponse _ _, hlawful.synthesize_responseId message call hcall⟩,
        hlawful.synthesize_isBlank _ _⟩
  | some found =>
      have hentry := hpooled (call.1, found.1)
        ((take_eq_some htake).2.2.mem_iff.mpr mem_cons_self)
      simp only [outcome]
      split
      · exact ⟨⟨hlawful.fill_isResponse _ _ hentry.1,
          (hlawful.fill_responseId _ _).trans hentry.2⟩, hlawful.fill_isBlank _ _⟩
      · rename_i hblank
        exact ⟨hentry, Bool.not_eq_true _ ▸ hblank⟩

theorem answers_answers {message : Message} (hcalls : ∀ call ∈ calls, call ∈ protocol.calls message)
    (hpooled : protocol.Pooled responses) :
    List.Forall₂ protocol.Answers calls ((protocol.answers calls responses).1.map Prod.fst) ∧
      (∀ answered ∈ (protocol.answers calls responses).1.map Prod.fst,
        protocol.isBlank answered = false) ∧
      protocol.Pooled (protocol.answers calls responses).2 := by
  induction calls generalizing responses with
  | nil => exact ⟨List.Forall₂.nil, by simp [answers], hpooled⟩
  | cons call calls ih =>
      obtain ⟨hanswer, hblank⟩ := answer_answers hlawful (hcalls call mem_cons_self) hpooled
      obtain ⟨hothers, hblanks, hrest⟩ :=
        ih (fun other hother => hcalls other (mem_cons_of_mem _ hother))
          (hpooled.answer call)
      refine ⟨List.Forall₂.cons hanswer hothers, ?_, hrest⟩
      intro answered hanswered
      simp only [answers, map_cons, mem_cons] at hanswered
      rcases hanswered with rfl | hmem
      · exact hblank
      · exact hblanks answered hmem

theorem repairFrom_adjacent (messages : List Message) (hpooled : protocol.Pooled responses) :
    protocol.Adjacent ((protocol.repairFrom messages responses).1.map Prod.fst) ∧
      ∀ answered ∈ (protocol.repairFrom messages responses).1.map Prod.fst,
        protocol.isResponse answered = true → protocol.isBlank answered = false := by
  induction messages generalizing responses with
  | nil => exact ⟨Adjacent.nil, by simp [repairFrom]⟩
  | cons message rest ih =>
      rw [repairFrom]
      split
      · exact ih hpooled
      · rename_i hmessage
        obtain ⟨hanswers, hblanks, hleft⟩ :=
          answers_answers hlawful (fun _ hcall => hcall) hpooled
        obtain ⟨hadjacent, hothers⟩ := ih hleft
        simp only [map_cons, map_append]
        refine ⟨Adjacent.block (Bool.not_eq_true _ ▸ hmessage) hanswers hadjacent, ?_⟩
        intro answered hanswered hresponse
        rcases mem_cons.mp hanswered with rfl | hmem
        · exact absurd hresponse hmessage
        · rcases mem_append.mp hmem with hfirst | hlater
          · exact hblanks answered hfirst
          · exact hothers answered hlater hresponse

theorem repairFrom_others_eq (messages : List Message) (hpooled : protocol.Pooled responses) :
    protocol.others ((protocol.repairFrom messages responses).1.map Prod.fst) =
        protocol.others messages ∧
      ∀ result ∈ (protocol.repairFrom messages responses).1,
        result.2 = .kept ↔ protocol.isResponse result.1 = false := by
  induction messages generalizing responses with
  | nil => exact ⟨rfl, by simp [repairFrom]⟩
  | cons message rest ih =>
      rw [repairFrom]
      by_cases hmessage : protocol.isResponse message = true
      · rw [if_pos hmessage]
        obtain ⟨hothers, horigins⟩ := ih hpooled
        refine ⟨?_, horigins⟩
        rw [hothers]
        simp [others, hmessage]
      · rw [if_neg hmessage]
        obtain ⟨hanswers, -, hleft⟩ := answers_answers hlawful (fun _ hcall => hcall) hpooled
        obtain ⟨hothers, horigins⟩ := ih hleft
        have hresponses := protocol.isResponse_of_answers hanswers
        have hnone : protocol.others ((protocol.answers (protocol.calls message)
            responses).1.map Prod.fst) = [] := by
          rw [others, filter_eq_nil_iff]
          intro answered hanswered
          simp [hresponses answered hanswered]
        constructor
        · rw [others, others, map_cons, filter_cons_of_pos (by simpa using hmessage),
            filter_cons_of_pos (by simpa using hmessage), map_append,
            filter_append, ← others, ← others, ← others, hnone, nil_append, hothers]
        · intro result hresult
          rcases mem_cons.mp hresult with rfl | hmem
          · simpa using hmessage
          · rcases mem_append.mp hmem with hanswered | hlater
            · have hresponse := hresponses result.1 (mem_map_of_mem hanswered)
              rw [hresponse]
              simpa using protocol.answers_ne_kept _ hanswered
            · exact horigins result hlater

/-- The messages that are no responses are kept in order. -/
theorem repaired_others (messages : List Message) :
    protocol.others (protocol.repaired messages) = protocol.others messages :=
  (repairFrom_others_eq hlawful messages (protocol.pooled_pool messages)).1

/-- A repaired list is adjacent, and none of its responses is blank. -/
theorem repaired_adjacent (messages : List Message) :
    protocol.Adjacent (protocol.repaired messages) ∧
      ∀ answered ∈ protocol.repaired messages,
        protocol.isResponse answered = true → protocol.isBlank answered = false :=
  repairFrom_adjacent hlawful messages (protocol.pooled_pool messages)

end Lawful

/-! ## What the repair leaves alone -/

/-- The origin of a message that is already in its place. -/
def settled (message : Message) : Message × Origin :=
  (message, if protocol.isResponse message then .answered false else .kept)

theorem answers_settled {answers : List Message}
    (hanswers : List.Forall₂ protocol.Answers calls answers)
    (hfilled : ∀ answered ∈ answers, protocol.isBlank answered = false)
    (responses : List (Id × Message)) :
    protocol.answers calls (protocol.pool answers ++ responses) =
      (answers.map protocol.settled, responses) := by
  induction hanswers with
  | nil => rfl
  | @cons call answered calls answers hanswer hrest ih =>
      have hfirst : protocol.answer call
          (protocol.pool (answered :: answers) ++ responses) =
            (protocol.settled answered, protocol.pool answers ++ responses) := by
        rw [pool, hanswer.1, hanswer.2, answer, cons_append, take, if_pos rfl]
        simp [outcome, settled, hfilled answered mem_cons_self, hanswer.1]
      rw [Protocol.answers, hfirst]
      simp only
      rw [ih fun other hother => hfilled other (mem_cons_of_mem _ hother), map_cons]

theorem repairFrom_append_responses {front : List Message}
    (hfront : ∀ message ∈ front, protocol.isResponse message = true) (back : List Message)
    (responses : List (Id × Message)) :
    protocol.repairFrom (front ++ back) responses = protocol.repairFrom back responses := by
  induction front with
  | nil => rfl
  | cons message rest ih =>
      rw [cons_append, repairFrom, if_pos (hfront message mem_cons_self)]
      exact ih fun other hother => hfront other (mem_cons_of_mem _ hother)

/-- An adjacent list without blank responses is left alone. -/
theorem repair_of_adjacent (hadjacent : protocol.Adjacent messages)
    (hfilled : ∀ message ∈ messages,
      protocol.isResponse message = true → protocol.isBlank message = false) :
    protocol.repair messages = (messages.map protocol.settled, []) := by
  rw [repair]
  induction hadjacent with
  | nil => rfl
  | @block message answers rest hmessage hanswers hrest ih =>
      have hresponses := protocol.isResponse_of_answers hanswers
      have hpool : protocol.pool (message :: (answers ++ rest)) =
          protocol.pool answers ++ protocol.pool rest := by
        rw [pool, hmessage]
        exact protocol.pool_append answers rest
      rw [hpool, repairFrom, if_neg (by simp [hmessage]),
        protocol.answers_settled hanswers
          (fun answered hmem => hfilled answered (by simp [hmem]) (hresponses answered hmem))]
      simp only
      rw [protocol.repairFrom_append_responses hresponses,
        ih fun other hother => hfilled other (by simp [hother])]
      simp [settled, hmessage]

/-! ## What the repair permutes -/

/-- Every answer is a response that was there, unchanged. -/
def Unchanged (outcomes : List (Message × Origin)) : Prop :=
  ∀ result ∈ outcomes, result.2 = .kept ∨ result.2 = .answered false

theorem answer_perm {call : Id × Name}
    (hunchanged : (protocol.answer call responses).1.2 = .answered false) :
    (responses.map Prod.snd).Perm
      ((protocol.answer call responses).1.1 ::
        (protocol.answer call responses).2.map Prod.snd) := by
  rw [answer] at hunchanged ⊢
  cases htake : take call.1 responses with
  | none =>
      rw [htake] at hunchanged
      cases hunchanged
  | some found =>
      rw [htake] at hunchanged
      simp only [outcome] at hunchanged ⊢
      split at hunchanged
      · cases hunchanged
      · rename_i hblank
        rw [if_neg hblank]
        exact (take_eq_some htake).2.2.map Prod.snd

theorem answers_perm (hunchanged : Unchanged (protocol.answers calls responses).1) :
    (responses.map Prod.snd).Perm
      ((protocol.answers calls responses).1.map Prod.fst ++
        (protocol.answers calls responses).2.map Prod.snd) := by
  induction calls generalizing responses with
  | nil => exact List.Perm.refl _
  | cons call calls ih =>
      simp only [answers] at hunchanged ⊢
      have hfirst := (hunchanged _ mem_cons_self).resolve_left
        (protocol.answer_ne_kept call responses)
      have hrest := ih fun result hresult => hunchanged result (mem_cons_of_mem _ hresult)
      exact (protocol.answer_perm hfirst).trans (hrest.cons _)

theorem repairFrom_perm (hunchanged : Unchanged (protocol.repairFrom messages responses).1) :
    (protocol.others messages ++ responses.map Prod.snd).Perm
      ((protocol.repairFrom messages responses).1.map Prod.fst ++
        (protocol.repairFrom messages responses).2.map Prod.snd) := by
  induction messages generalizing responses with
  | nil => exact List.Perm.refl _
  | cons message rest ih =>
      rw [others, filter_cons]
      rw [repairFrom] at hunchanged ⊢
      by_cases hresponse : protocol.isResponse message = true
      · rw [if_pos hresponse] at hunchanged ⊢
        rw [if_neg (by simp [hresponse])]
        exact ih hunchanged
      · rw [if_neg hresponse] at hunchanged ⊢
        rw [if_pos (by simp [hresponse])]
        simp only [map_cons, map_append, cons_append] at hunchanged ⊢
        have hanswers := protocol.answers_perm fun result hresult =>
          hunchanged result (mem_cons_of_mem _ (mem_append_left _ hresult))
        have hothers := ih fun result hresult =>
          hunchanged result (mem_cons_of_mem _ (mem_append_right _ hresult))
        apply List.Perm.cons
        calc protocol.others rest ++ responses.map Prod.snd
            _ |>.Perm (protocol.others rest ++
                ((protocol.answers (protocol.calls message) responses).1.map Prod.fst ++
                  (protocol.answers (protocol.calls message) responses).2.map Prod.snd)) :=
              hanswers.append_left _
            _ |>.Perm ((protocol.answers (protocol.calls message) responses).1.map Prod.fst ++
                (protocol.others rest ++
                  (protocol.answers (protocol.calls message) responses).2.map Prod.snd)) :=
              perm_append_comm_assoc _ _ _
            _ |>.Perm _ := by
              rw [append_assoc]
              exact hothers.append_left _

omit [DecidableEq Id] in
theorem length_pool_le (messages : List Message) :
    (protocol.pool messages).length ≤ messages.countP protocol.isResponse := by
  induction messages with
  | nil => exact Nat.le_refl 0
  | cons message rest ih =>
      rw [pool, countP_cons]
      split
      · rename_i hresponse _
        simpa [hresponse] using ih
      · exact ih.trans (Nat.le_add_right _ _)

omit [DecidableEq Id] in
/-- When every response is in the pool, the pool is all that `others` leaves out. -/
theorem pool_perm (hpool : (protocol.pool messages).length = messages.countP protocol.isResponse) :
    messages.Perm (protocol.others messages ++ (protocol.pool messages).map Prod.snd) := by
  induction messages with
  | nil => exact List.Perm.refl _
  | cons message rest ih =>
      rw [pool, countP_cons] at hpool
      rw [pool, others, filter_cons]
      split at hpool
      · rename_i id hresponse hid
        simp only [hresponse, if_true, length_cons, add_left_inj] at hpool
        simp only [hresponse, Bool.not_true, Bool.false_eq_true, if_false, map_cons]
        exact ((ih hpool).cons message).trans perm_middle.symm
      · rename_i hpair
        have hlength := protocol.length_pool_le rest
        have hmessage : protocol.isResponse message = false := by
          by_contra hresponse
          rw [Bool.not_eq_false] at hresponse
          rw [if_pos hresponse] at hpool
          omega
        rw [hmessage] at hpool
        simp only [hmessage, Bool.not_false, if_true, cons_append]
        exact (ih (by simpa using hpool)).cons message

/-- A repair that changes no response and uses as many as there are permutes the list. -/
theorem repaired_perm {protocol : Protocol Id Name Message} (hlawful : protocol.Lawful)
    (hunchanged : Unchanged (protocol.repair messages).1)
    (hused : (protocol.repaired messages).countP protocol.isResponse =
      messages.countP protocol.isResponse) : (protocol.repaired messages).Perm messages := by
  have hperm := protocol.repairFrom_perm hunchanged
  have hpool := protocol.length_pool_le messages
  have hkept : (protocol.repaired messages).length =
      messages.countP protocol.isResponse + (protocol.others messages).length := by
    rw [length_eq_countP_add_countP protocol.isResponse, hused, ← repaired_others hlawful,
      others, ← countP_eq_length_filter]
    simp
  have hlength := hperm.length_eq
  simp only [length_append, length_map] at hlength
  rw [repaired, repair, length_map] at hkept
  have hleft : (protocol.repairFrom messages (protocol.pool messages)).2 = [] := by
    apply eq_nil_of_length_eq_zero
    omega
  have hall : (protocol.pool messages).length = messages.countP protocol.isResponse := by
    rw [hleft] at hlength
    simp only [length_nil] at hlength
    omega
  rw [hleft, map_nil, append_nil] at hperm
  exact hperm.symm.trans (protocol.pool_perm hall).symm

/-! ## Numbered messages -/

omit [DecidableEq Id] in
theorem Lawful.numbered {protocol : Protocol Id Name Message} (hlawful : protocol.Lawful) :
    protocol.numbered.Lawful where
  fill_isResponse name message := hlawful.fill_isResponse name message.1
  fill_responseId name message := hlawful.fill_responseId name message.1
  fill_isBlank name message := hlawful.fill_isBlank name message.1
  synthesize_isResponse := hlawful.synthesize_isResponse
  synthesize_responseId message := hlawful.synthesize_responseId message.1
  synthesize_isBlank := hlawful.synthesize_isBlank

omit [DecidableEq Id] in
theorem Adjacent.zipIdx {protocol : Protocol Id Name Message}
    (hadjacent : protocol.Adjacent messages) (start : ℕ) :
    protocol.numbered.Adjacent (messages.zipIdx start) := by
  induction hadjacent generalizing start with
  | nil => exact Adjacent.nil
  | @block message answers rest hmessage hanswers hrest ih =>
      rw [zipIdx_cons, zipIdx_append]
      refine Adjacent.block hmessage ?_ (ih _)
      have hplain : List.Forall₂ protocol.Answers (protocol.calls message)
          ((answers.zipIdx (start + 1)).map Prod.fst) := by
        rw [zipIdx_map_fst]
        exact hanswers
      rw [forall₂_map_right_iff] at hplain
      exact hplain

end Protocol

/-- A permutation that keeps the order of some numbered values and puts the
others where they were is no permutation. -/
theorem eq_of_inPlace {α : Type*} (keep : α × ℕ → Bool) {values : List α} {start : ℕ}
    {output : List (α × ℕ)} (hperm : output.Perm (values.zipIdx start))
    (hkept : output.filter keep = (values.zipIdx start).filter keep)
    (hplace : ∀ entry ∈ output.zipIdx start, keep entry.1 = false → entry.1.2 = entry.2) :
    output = values.zipIdx start := by
  induction values generalizing start output with
  | nil => exact perm_nil.mp hperm
  | cons value values ih =>
      cases output with
      | nil => exact absurd hperm.length_eq (by simp)
      | cons first output =>
          rw [zipIdx_cons] at hperm hkept hplace ⊢
          have hfirst : first = (value, start) := by
            by_cases hkeep : keep first = true
            · rw [filter_cons_of_pos hkeep] at hkept
              by_cases hvalue : keep (value, start) = true
              · rw [filter_cons_of_pos hvalue] at hkept
                exact (List.cons.inj hkept).1
              · have hmem := hperm.mem_iff.mpr mem_cons_self
                rcases mem_cons.mp hmem with heq | hlater
                · exact heq.symm
                · obtain ⟨position, hposition, hget⟩ := mem_iff_getElem.mp hlater
                  have hindexed : ((value, start), start + 1 + position) ∈
                      (first, start) :: output.zipIdx (start + 1) := by
                    apply mem_cons_of_mem
                    rw [← hget, mem_iff_getElem]
                    exact ⟨position, by simpa using hposition, by simp⟩
                  have hsame := hplace _ hindexed (by simpa using hvalue)
                  simp only at hsame
                  omega
            · have hsame := hplace (first, start) mem_cons_self (by simpa using hkeep)
              have hmem := hperm.mem_iff.mp mem_cons_self
              rcases mem_cons.mp hmem with heq | hlater
              · exact heq
              · have hlow := le_snd_of_mem_zipIdx hlater
                simp only at hsame
                omega
          subst hfirst
          congr 1
          apply ih
          · exact (perm_cons _).mp hperm
          · by_cases hvalue : keep (value, start) = true
            · rw [filter_cons_of_pos hvalue, filter_cons_of_pos hvalue] at hkept
              exact (List.cons.inj hkept).2
            · rw [filter_cons_of_neg hvalue, filter_cons_of_neg hvalue] at hkept
              exact hkept
          · intro entry hentry
            exact hplace entry (mem_cons_of_mem _ hentry)

end Adjacency
