import Mathlib

/-!
# Repairing call and response order

Some messages carry calls and others respond to them.  The repair puts the
responses of each message directly behind it, in the order of its calls: a
response is taken from the pool of all responses by its identifier, first come
first served, and a missing one is made up.  Nothing is assumed about messages
beyond what the repair looks at.

What a call gets depends on nothing but its place among the calls with its
identifier and the queue of responses with that identifier.
-/

namespace Adjacency

open List

/-- What the repair looks at, and how it fills gaps. -/
structure Protocol (Id Name Message : Type*) where
  isResponse : Message → Bool
  responseId : Message → Option Id
  calls : Message → List (Id × Name)
  isBlank : Message → Bool
  fill : Name → Message → Message
  synthesize : Id → Name → Message

/-- Where a message of the repaired list comes from. -/
inductive Origin where
  | kept
  | answered (filled : Bool)
  | synthesized
  deriving DecidableEq

variable {Id Name Message : Type*} [DecidableEq Id]

/-- The first entry with an identifier, and the entries without it. -/
def take {α : Type*} (id : Id) : List (Id × α) → Option (α × List (Id × α))
  | [] => none
  | (other, value) :: rest =>
      if other = id then some (value, rest)
      else (take id rest).map fun found => (found.1, (other, value) :: found.2)

namespace Protocol

variable (protocol : Protocol Id Name Message)

/-- The responses of a list that carry an identifier. -/
def pool : List Message → List (Id × Message)
  | [] => []
  | message :: rest =>
      match protocol.isResponse message, protocol.responseId message with
      | true, some id => (id, message) :: pool rest
      | _, _ => pool rest

/-- What becomes of a call for which a response was found, or none. -/
def outcome (call : Id × Name) : Option Message → Message × Origin
  | some response =>
      if protocol.isBlank response then (protocol.fill call.2 response, .answered true)
      else (response, .answered false)
  | none => (protocol.synthesize call.1 call.2, .synthesized)

def answer (call : Id × Name) (responses : List (Id × Message)) :
    (Message × Origin) × List (Id × Message) :=
  match take call.1 responses with
  | some (response, rest) => (protocol.outcome call (some response), rest)
  | none => (protocol.outcome call none, responses)

def answers : List (Id × Name) → List (Id × Message) →
    List (Message × Origin) × List (Id × Message)
  | [], responses => ([], responses)
  | call :: calls, responses =>
      let (first, responses) := protocol.answer call responses
      let (others, responses) := answers calls responses
      (first :: others, responses)

def repairFrom : List Message → List (Id × Message) →
    List (Message × Origin) × List (Id × Message)
  | [], responses => ([], responses)
  | message :: rest, responses =>
      if protocol.isResponse message then repairFrom rest responses
      else
        let (answered, responses) := protocol.answers (protocol.calls message) responses
        let (others, responses) := repairFrom rest responses
        ((message, .kept) :: (answered ++ others), responses)

/-- Every message that is no response, with what became of its calls. -/
def blocksFrom : List Message → List (Id × Message) → List (Message × List (Message × Origin))
  | [], _ => []
  | message :: rest, responses =>
      if protocol.isResponse message then blocksFrom rest responses
      else
        let (answered, responses) := protocol.answers (protocol.calls message) responses
        (message, answered) :: blocksFrom rest responses

/-- The repaired list with the origin of each message, and the unused responses. -/
def repair (messages : List Message) : List (Message × Origin) × List (Id × Message) :=
  protocol.repairFrom messages (protocol.pool messages)

def repaired (messages : List Message) : List Message :=
  (protocol.repair messages).1.map Prod.fst

end Protocol

/-! ## Queues -/

/-- The entries with an identifier, in order. -/
def queue {α : Type*} (id : Id) (entries : List (Id × α)) : List α :=
  entries.filterMap fun entry => if entry.1 = id then some entry.2 else none

example : take 2 [(1, 10), (2, 20)] = some (20, [(1, 10)]) := by simp [take]

theorem queue_append {α : Type*} (id : Id) (front back : List (Id × α)) :
    queue id (front ++ back) = queue id front ++ queue id back :=
  filterMap_append

variable {id : Id}

theorem take_eq_none {α : Type*} {entries : List (Id × α)} (htake : take id entries = none) :
    queue id entries = [] := by
  induction entries with
  | nil => rfl
  | cons entry rest ih =>
      rw [take] at htake
      split at htake
      · cases htake
      · rename_i hne
        rw [Option.map_eq_none_iff] at htake
        rw [queue, filterMap_cons_none (by simp [hne])]
        exact ih htake

theorem take_eq_some {α : Type*} {entries rest : List (Id × α)} {value : α}
    (htake : take id entries = some (value, rest)) :
    queue id entries = value :: queue id rest ∧
      (∀ other, other ≠ id → queue other rest = queue other entries) ∧
      entries.Perm ((id, value) :: rest) := by
  induction entries generalizing rest with
  | nil => cases htake
  | cons entry others ih =>
      obtain ⟨key, first⟩ := entry
      rw [take] at htake
      split at htake
      · rename_i hkey
        cases htake
        subst hkey
        refine ⟨by simp [queue], ?_, List.Perm.refl _⟩
        intro other hother
        simp [queue, Ne.symm hother]
      · rename_i hkey
        obtain ⟨found, hfound, heq⟩ := Option.map_eq_some_iff.mp htake
        cases heq
        obtain ⟨hqueue, hothers, hperm⟩ := ih hfound
        refine ⟨?_, ?_, ?_⟩
        · simpa [queue, hkey] using hqueue
        · intro other hother
          have hsame := hothers other hother
          by_cases hfirst : key = other
          · simpa [queue, hfirst] using hsame
          · simpa [queue, hfirst] using hsame
        · exact (hperm.cons (key, first)).trans (List.Perm.swap _ _ _)

/-- How many of the calls carry an identifier. -/
def called (id : Id) (calls : List (Id × Name)) : ℕ :=
  calls.countP fun call => call.1 = id

theorem called_append (id : Id) (front back : List (Id × Name)) :
    called id (front ++ back) = called id front + called id back :=
  countP_append

/-- Every number below the count is the place of a call with the identifier. -/
theorem exists_call {calls : List (Id × Name)} {place : ℕ} (hplace : place < called id calls) :
    ∃ position call, calls[position]? = some call ∧ call.1 = id ∧
      called id (calls.take position) = place := by
  induction calls generalizing place with
  | nil => cases hplace
  | cons call calls ih =>
      rw [called, countP_cons] at hplace
      by_cases hid : call.1 = id
      · cases place with
        | zero => exact ⟨0, call, rfl, hid, rfl⟩
        | succ place =>
            rw [if_pos (by simpa using hid)] at hplace
            obtain ⟨position, other, hget, hother, htake⟩ := ih (Nat.succ_lt_succ_iff.mp hplace)
            refine ⟨position + 1, other, hget, hother, ?_⟩
            rw [take_succ_cons, called, countP_cons, if_pos (by simpa using hid),
              ← called, htake]
      · rw [if_neg (by simpa using hid), add_zero] at hplace
        obtain ⟨position, other, hget, hother, htake⟩ := ih hplace
        refine ⟨position + 1, other, hget, hother, ?_⟩
        rw [take_succ_cons, called, countP_cons, if_neg (by simpa using hid),
          ← called, htake, add_zero]

theorem called_take_lt {calls : List (Id × Name)} {position : ℕ} {call : Id × Name}
    (hget : calls[position]? = some call) (hid : call.1 = id) :
    called id (calls.take position) < called id calls := by
  have hsplit : calls = calls.take position ++ call :: calls.drop (position + 1) := by
    obtain ⟨hlt, rfl⟩ := List.getElem?_eq_some_iff.mp hget
    rw [getElem_cons_drop, take_append_drop]
  have hcount : called id calls =
      called id (calls.take position) + called id (call :: calls.drop (position + 1)) := by
    rw [← called_append, ← hsplit]
  rw [hcount, called, called, countP_cons, if_pos (by simpa using hid)]
  omega

theorem called_cons (id : Id) (call : Id × Name) (calls : List (Id × Name)) :
    called id (call :: calls) = called id [call] + called id calls :=
  called_append id [call] calls

namespace Protocol

variable (protocol : Protocol Id Name Message)

/-- The messages that are no responses. -/
def others (messages : List Message) : List Message :=
  messages.filter fun message => !protocol.isResponse message

/-! ## Positions -/

omit [DecidableEq Id] in
theorem pool_append (front back : List Message) :
    protocol.pool (front ++ back) = protocol.pool front ++ protocol.pool back := by
  induction front with
  | nil => rfl
  | cons message rest ih =>
      rw [cons_append, pool, pool, ih]
      split
      · rfl
      · rfl

variable {messages : List Message}

omit [DecidableEq Id] in
theorem mem_pool {entry : Id × Message} (hmem : entry ∈ protocol.pool messages) :
    entry.2 ∈ messages ∧ protocol.isResponse entry.2 = true ∧
      protocol.responseId entry.2 = some entry.1 := by
  induction messages with
  | nil => cases hmem
  | cons message rest ih =>
      rw [pool] at hmem
      split at hmem
      · rename_i id hresponse hid
        rcases mem_cons.mp hmem with rfl | hrest
        · exact ⟨mem_cons_self, hresponse, hid⟩
        · exact ⟨mem_cons_of_mem _ (ih hrest).1, (ih hrest).2⟩
      · exact ⟨mem_cons_of_mem _ (ih hmem).1, (ih hmem).2⟩

theorem nodup_queue_pool (hnodup : messages.Nodup) (id : Id) :
    (queue id (protocol.pool messages)).Nodup := by
  induction messages with
  | nil => exact nodup_nil
  | cons message rest ih =>
      rw [nodup_cons] at hnodup
      rw [pool]
      split
      · rename_i other _ _
        by_cases hother : other = id
        · rw [queue, filterMap_cons_some (by rw [if_pos hother]), nodup_cons]
          refine ⟨?_, ih hnodup.2⟩
          intro hmem
          obtain ⟨entry, hentry, hsome⟩ := mem_filterMap.mp hmem
          split at hsome
          · cases hsome
            exact hnodup.1 (protocol.mem_pool hentry).1
          · cases hsome
        · rw [queue, filterMap_cons_none (by rw [if_neg hother])]
          exact ih hnodup.2
      · exact ih hnodup.2

/-- The calls of the messages that are no responses, in order. -/
def callsOf (messages : List Message) : List (Id × Name) :=
  (protocol.others messages).flatMap protocol.calls

theorem answer_fst (call : Id × Name) (responses : List (Id × Message)) :
    (protocol.answer call responses).1 =
      protocol.outcome call (queue call.1 responses).head? := by
  rw [answer]
  cases htake : take call.1 responses with
  | none => rw [take_eq_none htake, head?_nil]
  | some found => rw [(take_eq_some htake).1, head?_cons]

theorem queue_answer (id : Id) (call : Id × Name) (responses : List (Id × Message)) :
    queue id (protocol.answer call responses).2 =
      (queue id responses).drop (called id [call]) := by
  rw [answer, called, countP_singleton]
  cases htake : take call.1 responses with
  | none =>
      by_cases hid : call.1 = id
      · rw [← hid, take_eq_none htake, drop_nil]
      · simp [hid]
  | some found =>
      obtain ⟨hqueue, hothers, -⟩ := take_eq_some htake
      by_cases hid : call.1 = id
      · subst hid
        simp [hqueue]
      · simp [hid, hothers id (Ne.symm hid)]


/-- Answering calls shortens the queue of each identifier by its calls. -/
theorem queue_answers (id : Id) (calls : List (Id × Name)) (responses : List (Id × Message)) :
    queue id (protocol.answers calls responses).2 =
      (queue id responses).drop (called id calls) := by
  induction calls generalizing responses with
  | nil => rfl
  | cons call calls ih =>
      rw [called_cons]
      simp only [answers]
      rw [ih, queue_answer, drop_drop]

/-- The call in a position gets the response its identifier's queue has for it. -/
theorem answers_getElem? (calls : List (Id × Name)) (responses : List (Id × Message))
    (position : ℕ) :
    (protocol.answers calls responses).1[position]? = calls[position]?.map fun call =>
      protocol.outcome call
        (queue call.1 responses)[called call.1 (calls.take position)]? := by
  induction calls generalizing responses position with
  | nil => simp [answers]
  | cons call calls ih =>
      cases position with
      | zero => simp [answers, answer_fst, called, head?_eq_getElem?]
      | succ position =>
          simp only [answers, getElem?_cons_succ, take_succ_cons]
          rw [ih]
          congr 1
          funext later
          rw [queue_answer, getElem?_drop, ← called_cons]

theorem repairFrom_fst (messages : List Message) (responses : List (Id × Message)) :
    (protocol.repairFrom messages responses).1 =
      (protocol.blocksFrom messages responses).flatMap fun block =>
        (block.1, .kept) :: block.2 := by
  induction messages generalizing responses with
  | nil => rfl
  | cons message rest ih =>
      rw [repairFrom, blocksFrom]
      split
      · exact ih responses
      · simp only [flatMap_cons, cons_append]
        rw [ih]

theorem queue_repairFrom (id : Id) (messages : List Message) (responses : List (Id × Message)) :
    queue id (protocol.repairFrom messages responses).2 =
      (queue id responses).drop (called id (protocol.callsOf messages)) := by
  induction messages generalizing responses with
  | nil => rfl
  | cons message rest ih =>
      rw [repairFrom, callsOf, others, filter_cons]
      split
      · rename_i hresponse
        rw [if_neg (by simp [hresponse])]
        exact ih responses
      · rename_i hresponse
        rw [if_pos (by simp [hresponse]), flatMap_cons, called_append, ← drop_drop,
          ← protocol.queue_answers]
        exact ih _

theorem mem_of_mem_blocksFrom {responses : List (Id × Message)}
    {block : Message × List (Message × Origin)}
    (hblock : block ∈ protocol.blocksFrom messages responses) : block.1 ∈ messages := by
  induction messages generalizing responses with
  | nil => cases hblock
  | cons message rest ih =>
      rw [blocksFrom] at hblock
      split at hblock
      · exact mem_cons_of_mem _ (ih hblock)
      · rcases mem_cons.mp hblock with rfl | hrest
        · exact mem_cons_self
        · exact mem_cons_of_mem _ (ih hrest)

theorem blocksFrom_append (front back : List Message) (responses : List (Id × Message)) :
    protocol.blocksFrom (front ++ back) responses = protocol.blocksFrom front responses ++
      protocol.blocksFrom back (protocol.repairFrom front responses).2 := by
  induction front generalizing responses with
  | nil => rfl
  | cons message rest ih =>
      rw [cons_append, blocksFrom, blocksFrom, repairFrom]
      split
      · exact ih responses
      · simp only [cons_append]
        rw [ih]

end Protocol

end Adjacency
