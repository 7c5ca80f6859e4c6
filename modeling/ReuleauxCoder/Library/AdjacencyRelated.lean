import ReuleauxCoder.Library.Adjacency

/-!
# Related lists are repaired alike

The repair is parametric: two protocols that cannot tell related messages apart
and fill gaps alike repair related lists to related lists.  In particular a list
may be repaired with its messages numbered, and the numbers dropped afterwards.
-/

namespace Adjacency

variable {Id Name Message Other : Type*} [DecidableEq Id] {related : Message → Other → Prop}

/-- Related messages look alike to two protocols, which fill gaps alike. -/
structure Respects (left : Protocol Id Name Message) (right : Protocol Id Name Other)
    (related : Message → Other → Prop) : Prop where
  isResponse : ∀ message other, related message other →
    left.isResponse message = right.isResponse other
  responseId : ∀ message other, related message other →
    left.responseId message = right.responseId other
  calls : ∀ message other, related message other → left.calls message = right.calls other
  isBlank : ∀ message other, related message other →
    left.isBlank message = right.isBlank other
  fill : ∀ name message other, related message other →
    related (left.fill name message) (right.fill name other)
  synthesize : ∀ id name, related (left.synthesize id name) (right.synthesize id name)

/-- Entries with equal identifiers and related messages. -/
def RelatedEntries (related : Message → Other → Prop) (left : Id × Message) (right : Id × Other) :
    Prop :=
  left.1 = right.1 ∧ related left.2 right.2

def RelatedOutcomes (related : Message → Other → Prop) (left : Message × Origin)
    (right : Other × Origin) : Prop :=
  related left.1 right.1 ∧ left.2 = right.2

theorem take_related (id : Id) {left : List (Id × Message)} {right : List (Id × Other)}
    (hrelated : List.Forall₂ (RelatedEntries related) left right) :
    Option.Rel (fun found other => related found.1 other.1 ∧
      List.Forall₂ (RelatedEntries related) found.2 other.2) (take id left) (take id right) := by
  induction hrelated with
  | nil => exact Option.Rel.none
  | @cons entry other lefts rights hentry hrest ih =>
      obtain ⟨key, message⟩ := entry
      obtain ⟨otherKey, otherMessage⟩ := other
      obtain ⟨hkey, hmessage⟩ := hentry
      simp only at hkey hmessage
      subst hkey
      rw [take, take]
      split
      · exact Option.Rel.some ⟨hmessage, hrest⟩
      · generalize take id lefts = found at ih ⊢
        generalize take id rights = otherFound at ih ⊢
        cases ih with
        | none => exact Option.Rel.none
        | some hfound =>
            exact Option.Rel.some ⟨hfound.1, List.Forall₂.cons ⟨rfl, hmessage⟩ hfound.2⟩

section Respecting

variable {left : Protocol Id Name Message} {right : Protocol Id Name Other}
  (hrespects : Respects left right related)
include hrespects

variable {messages : List Message} {others : List Other}

omit [DecidableEq Id] in
theorem pool_related (hrelated : List.Forall₂ related messages others) :
    List.Forall₂ (RelatedEntries related) (left.pool messages) (right.pool others) := by
  induction hrelated with
  | nil => exact List.Forall₂.nil
  | @cons message other lefts rights hmessage hrest ih =>
      rw [Protocol.pool, Protocol.pool, hrespects.isResponse _ _ hmessage,
        hrespects.responseId _ _ hmessage]
      split
      · exact List.Forall₂.cons ⟨rfl, hmessage⟩ ih
      · exact ih

theorem answer_related (call : Id × Name) {responses : List (Id × Message)}
    {others : List (Id × Other)} (hrelated : List.Forall₂ (RelatedEntries related) responses others) :
    RelatedOutcomes related (left.answer call responses).1 (right.answer call others).1 ∧
      List.Forall₂ (RelatedEntries related) (left.answer call responses).2
        (right.answer call others).2 := by
  have htake := take_related call.1 hrelated
  rw [Protocol.answer, Protocol.answer]
  cases hleft : take call.1 responses with
  | none =>
      rw [hleft] at htake
      cases hright : take call.1 others with
      | none => exact ⟨⟨hrespects.synthesize call.1 call.2, rfl⟩, hrelated⟩
      | some found =>
          rw [hright] at htake
          cases htake
  | some found =>
      rw [hleft] at htake
      cases hright : take call.1 others with
      | none =>
          rw [hright] at htake
          cases htake
      | some other =>
          rw [hright] at htake
          cases htake with
          | some hfound =>
              simp only [Protocol.outcome, hrespects.isBlank _ _ hfound.1]
              split
              · exact ⟨⟨hrespects.fill _ _ _ hfound.1, rfl⟩, hfound.2⟩
              · exact ⟨⟨hfound.1, rfl⟩, hfound.2⟩

theorem answers_related (calls : List (Id × Name)) {responses : List (Id × Message)}
    {others : List (Id × Other)} (hrelated : List.Forall₂ (RelatedEntries related) responses others) :
    List.Forall₂ (RelatedOutcomes related) (left.answers calls responses).1
        (right.answers calls others).1 ∧
      List.Forall₂ (RelatedEntries related) (left.answers calls responses).2
        (right.answers calls others).2 := by
  induction calls generalizing responses others with
  | nil => exact ⟨List.Forall₂.nil, hrelated⟩
  | cons call calls ih =>
      obtain ⟨hfirst, hpool⟩ := answer_related hrespects call hrelated
      obtain ⟨hothers, hrest⟩ := ih hpool
      exact ⟨List.Forall₂.cons hfirst hothers, hrest⟩

theorem repairFrom_related (hmessages : List.Forall₂ related messages others)
    {responses : List (Id × Message)} {otherResponses : List (Id × Other)}
    (hrelated : List.Forall₂ (RelatedEntries related) responses otherResponses) :
    List.Forall₂ (RelatedOutcomes related) (left.repairFrom messages responses).1
        (right.repairFrom others otherResponses).1 ∧
      List.Forall₂ (RelatedEntries related) (left.repairFrom messages responses).2
        (right.repairFrom others otherResponses).2 := by
  induction hmessages generalizing responses otherResponses with
  | nil => exact ⟨List.Forall₂.nil, hrelated⟩
  | @cons message other lefts rights hmessage hrest ih =>
      rw [Protocol.repairFrom, Protocol.repairFrom, hrespects.isResponse _ _ hmessage]
      split
      · exact ih hrelated
      · rw [hrespects.calls _ _ hmessage]
        obtain ⟨hanswers, hpool⟩ := answers_related hrespects (right.calls other) hrelated
        obtain ⟨hothers, hlast⟩ := ih hpool
        exact ⟨List.Forall₂.cons ⟨hmessage, rfl⟩ (List.rel_append hanswers hothers), hlast⟩

/-- Related lists are repaired to related lists, in the same way. -/
theorem repair_related (hmessages : List.Forall₂ related messages others) :
    List.Forall₂ (RelatedOutcomes related) (left.repair messages).1 (right.repair others).1 ∧
      List.Forall₂ (RelatedEntries related) (left.repair messages).2 (right.repair others).2 :=
  repairFrom_related hrespects hmessages (pool_related hrespects hmessages)

theorem repaired_related (hmessages : List.Forall₂ related messages others) :
    List.Forall₂ related (left.repaired messages) (right.repaired others) := by
  rw [Protocol.repaired, Protocol.repaired, List.forall₂_map_left_iff, List.forall₂_map_right_iff]
  exact (repair_related hrespects hmessages).1.imp fun _ _ houtcome => houtcome.1

end Respecting

/-! ## Numbered messages -/

/-- The protocol on messages that carry a number. -/
def Protocol.numbered (protocol : Protocol Id Name Message) : Protocol Id Name (Message × ℕ) where
  isResponse message := protocol.isResponse message.1
  responseId message := protocol.responseId message.1
  calls message := protocol.calls message.1
  isBlank message := protocol.isBlank message.1
  fill name message := (protocol.fill name message.1, message.2)
  synthesize id name := (protocol.synthesize id name, 0)

omit [DecidableEq Id] in
theorem Protocol.respects_numbered (protocol : Protocol Id Name Message) :
    Respects protocol.numbered protocol fun message plain => message.1 = plain where
  isResponse := by
    rintro message _ rfl
    rfl
  responseId := by
    rintro message _ rfl
    rfl
  calls := by
    rintro message _ rfl
    rfl
  isBlank := by
    rintro message _ rfl
    rfl
  fill := by
    rintro name message _ rfl
    rfl
  synthesize := fun _ _ => rfl

theorem Protocol.repaired_numbered (protocol : Protocol Id Name Message)
    (messages : List (Message × ℕ)) :
    (protocol.numbered.repaired messages).map Prod.fst =
      protocol.repaired (messages.map Prod.fst) := by
  have hrelated : List.Forall₂ (fun (message : Message × ℕ) plain => message.1 = plain) messages
      (messages.map Prod.fst) := by
    rw [List.forall₂_map_right_iff]
    exact List.forall₂_same.mpr fun _ _ => rfl
  have hrepaired := repaired_related protocol.respects_numbered hrelated
  rw [← List.forall₂_eq_eq_eq, List.forall₂_map_left_iff]
  exact hrepaired

end Adjacency
