import ReuleauxCoder.Persistence.SnapshotWriter

/-!
# Requests for a snapshot

An accepted request leaves somebody behind who will start a persist: the timer of the
latest generation, or a party on its way to the write lock.  Only a writer that is closed
turns such parties away, so a request is lost where a close has started its persist
before the request and marks the writer closed behind it.  A timer that does not start
leaves only the record of its own failure, while the timer of the request before it has
already been cancelled.
-/

namespace ReuleauxCoder.Persistence

open Transition List

/-- A persist attempt answers every request before it; the record of a failed timer start
answers only the request that the timer was for. -/
def Mark.settles (generation : ℕ) : Mark → Bool
  | .persistStarted => true
  | .failureRecorded (.scheduling failed) => failed = generation
  | .failureRecorded .persist | .requested _ | .startFailed _ | .closed => false

/-- Every request that was accepted before the writer became closed is followed by a
persist attempt, or by the record of its own failure. -/
def Covered (history : List Mark) : Prop :=
  ∀ before generation after, history = before ++ .requested generation :: after →
    .closed ∉ before → ∃ mark ∈ after, mark.settles generation = true

/-- The request was accepted, and nothing has settled it yet. -/
def Unsettled (history : List Mark) (generation : ℕ) : Prop :=
  ∃ before after, history = before ++ .requested generation :: after ∧ .closed ∉ before ∧
    ∀ mark ∈ after, mark.settles generation = false

namespace Unsettled

variable {history : List Mark} {mark : Mark} {generation : ℕ}

theorem not_nil : ¬ Unsettled [] generation := by
  rintro ⟨before, after, hsplit, -⟩
  exact absurd hsplit (by simp)

/-- What follows a request, when one more mark has been made. -/
theorem split_snoc {before after : List Mark}
    (hsplit : history ++ [mark] = before ++ .requested generation :: after) :
    (mark = .requested generation ∧ history = before) ∨
      ∃ earlier, after = earlier ++ [mark] ∧
        history = before ++ .requested generation :: earlier := by
  rcases eq_nil_or_concat' after with rfl | ⟨earlier, last, rfl⟩
  · have hparts := append_inj' hsplit rfl
    exact .inl ⟨(List.cons.inj hparts.2).1, hparts.1⟩
  · rw [← cons_append, ← append_assoc] at hsplit
    have hparts := append_inj' hsplit rfl
    obtain rfl : mark = last := (List.cons.inj hparts.2).1
    exact .inr ⟨earlier, rfl, hparts.1⟩

/-- One more mark leaves a request unsettled only where the mark is that request, accepted in
front of any close, or where the request was unsettled before and the mark is not its answer. -/
theorem of_snoc (hunsettled : Unsettled (history ++ [mark]) generation) :
    (mark = .requested generation ∧ .closed ∉ history) ∨
      (Unsettled history generation ∧ mark.settles generation = false) := by
  obtain ⟨before, after, hsplit, hopen, hnone⟩ := hunsettled
  rcases split_snoc hsplit with ⟨rfl, rfl⟩ | ⟨earlier, rfl, hearlier⟩
  · exact .inl ⟨rfl, hopen⟩
  · have hbefore : Unsettled history generation :=
      ⟨before, earlier, hearlier, hopen, fun other hother =>
        hnone other (mem_append_left _ hother)⟩
    exact .inr ⟨hbefore, hnone mark (mem_append_right _ (mem_singleton_self mark))⟩

/-- A mark that is no request leaves no other request unsettled. -/
theorem of_snoc_other (hunsettled : Unsettled (history ++ [mark]) generation)
    (hmark : ∀ requested, mark ≠ .requested requested) :
    Unsettled history generation ∧ mark.settles generation = false := by
  rcases hunsettled.of_snoc with ⟨hrequest, -⟩ | hbefore
  · exact absurd hrequest (hmark generation)
  · exact hbefore

/-- A persist attempt leaves nothing unsettled. -/
theorem not_persistStarted : ¬ Unsettled (history ++ [.persistStarted]) generation := by
  intro hunsettled
  obtain ⟨-, hopen⟩ := hunsettled.of_snoc_other fun _ heq => Mark.noConfusion heq
  cases hopen

end Unsettled

/-- Nothing is owed exactly where no accepted request is unsettled. -/
theorem covered_iff (history : List Mark) :
    Covered history ↔ ∀ generation, ¬ Unsettled history generation := by
  constructor
  · rintro hcovered generation ⟨before, after, hsplit, hopen, hnone⟩
    obtain ⟨mark, hmark, hsettles⟩ := hcovered before generation after hsplit hopen
    rw [hnone mark hmark] at hsettles
    exact Bool.false_ne_true hsettles
  · intro hnone before generation after hsplit hopen
    by_contra hnobody
    refine hnone generation ⟨before, after, hsplit, hopen, fun mark hmark => ?_⟩
    rw [Bool.eq_false_iff]
    exact fun hsettles => hnobody ⟨mark, hmark, hsettles⟩

namespace SnapshotWriter

/-! ## Who serves a request -/

/-- The party in the phase will start a persist or record the failure of the request, unless
a later request takes its place. -/
def Serves (writer : SnapshotWriter) (party : Party) (generation : ℕ) : Prop :=
  match writer.phase party with
  | .reporting failed => failed = generation
  | .waiting (.scope _) | .writable _ => writer.closed = false
  | .pending latest | .checking latest | .waiting (.deferred latest) =>
      writer.closed = false ∧ latest = writer.generation
  | _ => False

structure Served (writer : SnapshotWriter) : Prop where
  served : ∀ generation, Unsettled writer.history generation →
    ∃ party, writer.Serves party generation
  closed : writer.closed = true → .closed ∈ writer.history

/-- The failure of the request is still to be recorded. -/
def Reports (writer : SnapshotWriter) (generation : ℕ) : Prop :=
  ∃ party, writer.phase party = .reporting generation

/-- A flush or a close waits for the write lock, or a party that holds it may write. -/
def Writes (writer : SnapshotWriter) : Prop :=
  ∃ party, (∃ scope, writer.phase party = .waiting (.scope scope)) ∨
    ∃ purpose, writer.phase party = .writable purpose

/-- When a close marks the writer closed, the only accepted requests that nothing has settled
are those whose failure is still to be recorded.  When a timer does not start, an earlier
request that nothing has settled is one of these, or a flush or a close is on its way to a
persist. -/
structure Undisturbed (writer : SnapshotWriter) (action : Action) : Prop where
  marking : ∀ party succeeds, action = .proceed party succeeds →
    writer.phase party = .marking → ∀ generation,
      Unsettled writer.history generation → writer.Reports generation
  scheduling : ∀ party, action = .proceed party false → writer.phase party = .scheduling →
    writer.closed = false → ∀ generation,
      Unsettled writer.history generation → writer.Reports generation ∨ writer.Writes

theorem phase_advance_self (writer : SnapshotWriter) (party : Party) (phase : Phase) :
    (writer.advance party phase).phase party = phase := by
  simp [advance]

theorem phase_advance_of_ne {party other : Party} (hother : other ≠ party)
    (writer : SnapshotWriter) (phase : Phase) :
    (writer.advance party phase).phase other = writer.phase other := by
  simp [advance, hother]

/-- A party keeps serving while others move. -/
theorem Serves.of_same {writer later : SnapshotWriter} {party : Party} {generation : ℕ}
    (hserves : writer.Serves party generation) (hphase : later.phase party = writer.phase party)
    (hclosed : later.closed = writer.closed)
    (hgeneration : later.generation = writer.generation) : later.Serves party generation := by
  rw [Serves, hphase, hclosed, hgeneration]
  exact hserves

theorem Serves.of_reporting {writer : SnapshotWriter} {party : Party} {generation : ℕ}
    (hphase : writer.phase party = .reporting generation) :
    writer.Serves party generation := by
  rw [Serves, hphase]

/-- When the writer is closed, only a failure is still to be recorded. -/
theorem Serves.reporting {writer : SnapshotWriter} {party : Party} {generation : ℕ}
    (hserves : writer.Serves party generation) (hclosed : writer.closed = true) :
    writer.phase party = .reporting generation := by
  rw [Serves, hclosed] at hserves
  split at hserves
  · rename_i failed hphase
    rw [hphase, hserves]
  all_goals simp at hserves

/-- A party that does not serve may move on. -/
theorem Served.advance {writer : SnapshotWriter} (hserved : writer.Served) {party : Party}
    (hidle : ∀ generation, ¬ writer.Serves party generation) (phase : Phase) :
    (writer.advance party phase).Served where
  served := by
    intro generation hunsettled
    obtain ⟨other, hother⟩ := hserved.served generation hunsettled
    have hne : other ≠ party := fun hsame => hidle generation (hsame ▸ hother)
    exact ⟨other, hother.of_same (phase_advance_of_ne hne writer phase) rfl rfl⟩
  closed := hserved.closed

/-- A party that serves may move on to serve in another phase. -/
theorem Served.advance_serving {writer : SnapshotWriter} (hserved : writer.Served)
    {party : Party} {phase : Phase}
    (hserves : ∀ generation, writer.Serves party generation →
      (writer.advance party phase).Serves party generation) :
    (writer.advance party phase).Served where
  served := by
    intro generation hunsettled
    obtain ⟨other, hother⟩ := hserved.served generation hunsettled
    by_cases hsame : other = party
    · exact ⟨party, hserves generation (hsame ▸ hother)⟩
    · exact ⟨other, hother.of_same (phase_advance_of_ne hsame writer phase) rfl rfl⟩
  closed := hserved.closed

/-- Fields that nobody's service reads may change. -/
theorem Served.of_same {writer later : SnapshotWriter} (hserved : writer.Served)
    (hphase : later.phase = writer.phase) (hclosed : later.closed = writer.closed)
    (hgeneration : later.generation = writer.generation)
    (hhistory : later.history = writer.history) : later.Served where
  served := by
    intro generation hunsettled
    rw [hhistory] at hunsettled
    obtain ⟨other, hother⟩ := hserved.served generation hunsettled
    exact ⟨other, hother.of_same (congrFun hphase other) hclosed hgeneration⟩
  closed := by
    rw [hclosed, hhistory]
    exact hserved.closed

/-- A mark that is no request owes nothing new. -/
theorem Served.note {writer : SnapshotWriter} (hserved : writer.Served) {mark : Mark}
    (hmark : ∀ requested, mark ≠ .requested requested) : (writer.note mark).Served where
  served := by
    intro generation hunsettled
    obtain ⟨other, hother⟩ := hserved.served generation (hunsettled.of_snoc_other hmark).1
    exact ⟨other, hother.of_same rfl rfl rfl⟩
  closed := fun hclosed => mem_append_left _ (hserved.closed hclosed)

section Step

variable {writer : SnapshotWriter} {party : Party}

theorem not_serves_of_phase {phase : Phase} (hphase : writer.phase party = phase)
    (hnever : phase = .idle ∨ phase = .scheduling ∨ (∃ scope, phase = .entering scope) ∨
      (∃ purpose, phase = .persisting purpose) ∨ phase = .marking) (generation : ℕ) :
    ¬ writer.Serves party generation := by
  rw [Serves, hphase]
  rcases hnever with rfl | rfl | ⟨scope, rfl⟩ | ⟨purpose, rfl⟩ | rfl <;> exact id

theorem closed_cancelTimer (writer : SnapshotWriter) :
    writer.cancelTimer.closed = writer.closed := by
  unfold cancelTimer
  split
  · split <;> rfl
  · rfl

theorem history_cancelTimer (writer : SnapshotWriter) :
    writer.cancelTimer.history = writer.history := by
  unfold cancelTimer
  split
  · split <;> rfl
  · rfl

/-- Cancelling a timer moves only a party that waits for its delay. -/
theorem phase_cancelTimer {phase : Phase} (hphase : writer.phase party = phase)
    (hnot : ∀ generation, phase ≠ .pending generation) :
    writer.cancelTimer.phase party = phase := by
  unfold cancelTimer
  split
  · rename_i timer _
    split
    · rename_i hpending
      have hother : party ≠ .timer timer := by
        rintro rfl
        exact hnot timer (hphase.symm.trans hpending)
      rw [phase_advance_of_ne hother]
      exact hphase
    · exact hphase
  · exact hphase

theorem phase_schedule_failed (hopen : writer.closed = false) :
    (writer.schedule party false).phase =
      Function.update writer.cancelTimer.phase party (.reporting (writer.generation + 1)) := by
  rw [SnapshotWriter.schedule, hopen, if_neg Bool.false_ne_true]
  rfl

theorem closed_schedule_failed (hopen : writer.closed = false) :
    (writer.schedule party false).closed = false := by
  rw [SnapshotWriter.schedule, hopen, if_neg Bool.false_ne_true]
  exact writer.closed_cancelTimer.trans hopen

theorem history_schedule_failed (hopen : writer.closed = false) :
    (writer.schedule party false).history = writer.history ++
      [.requested (writer.generation + 1)] ++ [.startFailed (writer.generation + 1)] := by
  rw [SnapshotWriter.schedule, hopen, if_neg Bool.false_ne_true, ← history_cancelTimer writer]
  rfl

/-- Behind a failed start, a party that neither scheduled nor waited for its delay is where
it was. -/
theorem phase_schedule_failed_of_ne {other : Party} {phase : Phase}
    (hphase : writer.phase party = .scheduling) (hopen : writer.closed = false)
    (hother : writer.phase other = phase) (hscheduling : phase ≠ .scheduling)
    (hpending : ∀ latest, phase ≠ .pending latest) :
    (writer.schedule party false).phase other = phase := by
  have hne : other ≠ party := by
    rintro rfl
    exact hscheduling (hother.symm.trans hphase)
  rw [phase_schedule_failed hopen, Function.update_of_ne hne]
  exact phase_cancelTimer hother hpending

/-- Behind a failed start the earlier requests keep the parties that serve them, as long as
none of them relied on the cancelled timer. -/
theorem Served.schedule_failed (hphase : writer.phase party = .scheduling)
    (hopen : writer.closed = false)
    (hundisturbed : ∀ generation, Unsettled writer.history generation →
      writer.Reports generation ∨ writer.Writes) :
    (writer.schedule party false).Served where
  served := by
    intro generation hunsettled
    rw [history_schedule_failed hopen] at hunsettled
    obtain ⟨hbefore, -⟩ := hunsettled.of_snoc_other fun _ heq => Mark.noConfusion heq
    rcases hbefore.of_snoc with ⟨hrequest, -⟩ | ⟨hearlier, -⟩
    · injection hrequest with hnew
      refine ⟨party, Serves.of_reporting ?_⟩
      rw [phase_schedule_failed hopen, Function.update_self, hnew]
    · rcases hundisturbed generation hearlier with ⟨other, hother⟩ | ⟨other, hwrites⟩
      · refine ⟨other, Serves.of_reporting ?_⟩
        apply phase_schedule_failed_of_ne hphase hopen hother
        · exact fun heq => Phase.noConfusion heq
        · exact fun _ heq => Phase.noConfusion heq
      · refine ⟨other, ?_⟩
        rcases hwrites with ⟨scope, hother⟩ | ⟨purpose, hother⟩
        · rw [Serves, phase_schedule_failed_of_ne hphase hopen hother
            (fun heq => Phase.noConfusion heq) (fun _ heq => Phase.noConfusion heq)]
          exact closed_schedule_failed hopen
        · rw [Serves, phase_schedule_failed_of_ne hphase hopen hother
            (fun heq => Phase.noConfusion heq) (fun _ heq => Phase.noConfusion heq)]
          exact closed_schedule_failed hopen
  closed := by
    rw [closed_schedule_failed hopen]
    exact fun hnow => absurd hnow Bool.false_ne_true

/-- A timer that starts serves every request so far. -/
theorem Served.schedule_started (hopen : writer.closed = false) :
    (writer.schedule party true).Served := by
  have hcancelled : writer.cancelTimer.closed = false := by rw [closed_cancelTimer, hopen]
  rw [SnapshotWriter.schedule, hopen, if_neg Bool.false_ne_true, if_pos rfl]
  constructor
  · intro generation _
    refine ⟨.timer (writer.generation + 1), ?_⟩
    rw [Serves, phase_advance_self]
    exact ⟨hcancelled, rfl⟩
  · intro hnow
    exact absurd (hcancelled.symm.trans hnow) Bool.false_ne_true

section

variable (hserved : writer.Served)
include hserved

theorem Served.schedule (hphase : writer.phase party = .scheduling)
    (started : Bool) (hundisturbed : started = false → writer.closed = false → ∀ generation,
      Unsettled writer.history generation → writer.Reports generation ∨ writer.Writes) :
    (writer.schedule party started).Served := by
  cases hclosed : writer.closed with
  | true =>
      rw [SnapshotWriter.schedule, if_pos hclosed]
      exact hserved.advance (not_serves_of_phase hphase (.inr (.inl rfl))) .idle
  | false =>
      cases started with
      | true => exact Served.schedule_started hclosed
      | false => exact Served.schedule_failed hphase hclosed (hundisturbed rfl hclosed)

/-- The record of a failure answers the request that its party served. -/
theorem Served.report {failed : ℕ}
    (hphase : writer.phase party = .reporting failed) :
    (writer.report party failed).Served where
  served := by
    intro generation hunsettled
    obtain ⟨hbefore, hopen⟩ := hunsettled.of_snoc_other fun _ heq => Mark.noConfusion heq
    obtain ⟨other, hother⟩ := hserved.served generation hbefore
    have hne : other ≠ party := by
      rintro rfl
      rw [Serves, hphase] at hother
      exact of_decide_eq_false hopen hother
    exact ⟨other, hother.of_same (phase_advance_of_ne hne _ .idle) rfl rfl⟩
  closed := fun hclosed => mem_append_left _ (hserved.closed hclosed)

theorem Served.checkDeferred {generation : ℕ}
    (hphase : writer.phase party = .checking generation) :
    (writer.checkDeferred party generation).Served := by
  unfold SnapshotWriter.checkDeferred
  split
  · rename_i hstale
    apply hserved.advance
    intro requested
    rw [Serves, hphase]
    rintro ⟨hopen, hlatest⟩
    simp [hopen, hlatest] at hstale
  · have hretired : ({ writer with timer := none } : SnapshotWriter).Served :=
      hserved.of_same rfl rfl rfl rfl
    apply hretired.advance_serving
    intro requested hserves
    rw [Serves, phase_advance_self]
    rw [Serves, show ({ writer with timer := none } : SnapshotWriter).phase party =
      .checking generation from hphase] at hserves
    exact hserves

/-- A party that waits for the write lock serves every request of an open writer; in front of
a closed one, the failures that are owed are still recorded. -/
theorem Served.enter {scope entered : Scope}
    (hphase : writer.phase party = .entering entered) (later : SnapshotWriter)
    (hsame : later.closed = writer.cancelTimer.closed)
    (hphases : later.phase = writer.cancelTimer.phase) {generation : ℕ}
    (howed : writer.closed = true → Unsettled writer.history generation) :
    ∃ other, (later.advance party (.waiting (.scope scope))).Serves other generation := by
  by_cases hclosed : writer.closed = true
  · obtain ⟨other, hother⟩ := hserved.served generation (howed hclosed)
    have hreporting := hother.reporting hclosed
    have hne : other ≠ party := by
      rintro rfl
      rw [hphase] at hreporting
      cases hreporting
    have hkept : (later.advance party (.waiting (.scope scope))).phase other =
        .reporting generation := by
      rw [phase_advance_of_ne hne, hphases]
      exact phase_cancelTimer hreporting fun _ heq => by cases heq
    exact ⟨other, Serves.of_reporting hkept⟩
  · refine ⟨party, ?_⟩
    rw [Serves, phase_advance_self]
    exact (hsame.trans writer.closed_cancelTimer).trans (Bool.eq_false_iff.mpr hclosed)

theorem Served.writeScope (scope : Scope)
    (hphase : writer.phase party = .entering scope) :
    (writer.writeScope party scope).Served := by
  cases scope with
  | flush =>
      constructor
      · intro generation hunsettled
        refine hserved.enter hphase ({ writer.cancelTimer with
          timer := none, generation := writer.generation + 1 }.note
            (.requested (writer.generation + 1))) rfl rfl fun hclosed => ?_
        change Unsettled (writer.cancelTimer.history ++ _) generation at hunsettled
        rw [history_cancelTimer] at hunsettled
        rcases hunsettled.of_snoc with ⟨-, hopen⟩ | ⟨hbefore, -⟩
        · exact absurd (hserved.closed hclosed) hopen
        · exact hbefore
      · intro hclosed
        change _ ∈ writer.cancelTimer.history ++ _
        rw [history_cancelTimer]
        exact mem_append_left _
          (hserved.closed (writer.closed_cancelTimer.symm.trans hclosed))
  | close =>
      constructor
      · intro generation hunsettled
        refine hserved.enter hphase { writer.cancelTimer with
          timer := none, generation := writer.generation + 1 } rfl rfl fun _ => ?_
        change Unsettled writer.cancelTimer.history generation at hunsettled
        rwa [history_cancelTimer] at hunsettled
      · intro hclosed
        change _ ∈ writer.cancelTimer.history
        rw [history_cancelTimer]
        exact hserved.closed (writer.closed_cancelTimer.symm.trans hclosed)

theorem Served.acquire {purpose : Purpose}
    (hphase : writer.phase party = .waiting purpose) :
    (writer.acquire party purpose).Served := by
  unfold SnapshotWriter.acquire
  split
  · exact hserved
  split
  · -- whoever may write is on the way to a persist
    rename_i hadmits
    have hopen : writer.closed = false := by
      cases purpose with
      | scope scope => simpa [admits] using hadmits
      | deferred generation =>
          simp only [admits, Bool.not_eq_true', Bool.or_eq_false_iff] at hadmits
          exact hadmits.1
    constructor
    · intro generation _
      refine ⟨party, ?_⟩
      rw [Serves, phase_advance_self]
      exact hopen
    · exact hserved.closed
  · rename_i hrefused
    apply hserved.advance
    intro generation
    rw [Serves, hphase]
    cases purpose with
    | scope scope =>
        intro hopen
        exact hrefused (by simp [admits, hopen])
    | deferred latest =>
        rintro ⟨hopen, hlatest⟩
        exact hrefused (by simp [admits, hopen, hlatest])

theorem Served.startPersist (purpose : Purpose) :
    (writer.startPersist party purpose).Served where
  served := fun _ hunsettled => absurd hunsettled Unsettled.not_persistStarted
  closed := fun hclosed => mem_append_left _ (hserved.closed hclosed)

/-- The end of a persist settles nothing: its start has settled what came before it. -/
theorem Served.finishPersist {purpose : Purpose}
    (hphase : writer.phase party = .persisting purpose) (succeeded : Bool) :
    (writer.finishPersist party purpose succeeded).Served := by
  have hnever : ∀ generation, ¬ writer.Serves party generation :=
    not_serves_of_phase hphase (.inr (.inr (.inr (.inl ⟨purpose, rfl⟩))))
  have hmove : ∀ (later : SnapshotWriter) (phase : Phase), later.Served →
      later.phase = writer.phase → later.closed = writer.closed →
      later.generation = writer.generation → (later.advance party phase).Served := by
    intro later phase hlater hphases hclosed hgeneration
    apply hlater.advance
    intro generation hserves
    exact hnever generation
      (hserves.of_same (congrFun hphases party).symm hclosed.symm hgeneration.symm)
  unfold SnapshotWriter.finishPersist
  split
  · dsimp only
    split
    · exact hmove _ .marking (hserved.of_same rfl rfl rfl rfl) rfl rfl rfl
    · exact hmove _ .idle (hserved.of_same rfl rfl rfl rfl) rfl rfl rfl
  · have hreleased : ({ writer with writeLock := none } : SnapshotWriter).Served :=
      hserved.of_same rfl rfl rfl rfl
    exact hmove _ .idle (hreleased.note fun _ heq => Mark.noConfusion heq) rfl rfl rfl

end

theorem Served.markClosed (hphase : writer.phase party = .marking)
    (hundisturbed : ∀ generation, Unsettled writer.history generation →
      writer.Reports generation) : (writer.markClosed party).Served where
  served := by
    intro generation hunsettled
    obtain ⟨hbefore, -⟩ := hunsettled.of_snoc_other fun _ heq => Mark.noConfusion heq
    obtain ⟨other, hother⟩ := hundisturbed generation hbefore
    have hne : other ≠ party := by
      rintro rfl
      rw [hphase] at hother
      cases hother
    have hkept : (writer.markClosed party).phase other = .reporting generation := by
      rw [SnapshotWriter.markClosed, phase_advance_of_ne hne]
      exact hother
    exact ⟨other, Serves.of_reporting hkept⟩
  closed := fun _ => mem_append_right _ (mem_singleton.mpr rfl)

end Step

theorem Served.proceed {writer : SnapshotWriter} (hserved : writer.Served) (party : Party)
    (succeeds : Bool) (hundisturbed : writer.Undisturbed (.proceed party succeeds)) :
    (writer.proceed party succeeds).Served := by
  rw [SnapshotWriter.proceed]
  cases hphase : writer.phase party with
  | idle => exact hserved
  | scheduling =>
      apply hserved.schedule hphase succeeds
      rintro rfl hopen
      exact hundisturbed.scheduling party rfl hphase hopen
  | reporting generation => exact hserved.report hphase
  | pending generation =>
      apply hserved.advance_serving
      intro requested hserves
      rw [Serves, hphase] at hserves
      rw [Serves, phase_advance_self]
      exact hserves
  | checking generation => exact hserved.checkDeferred hphase
  | entering scope => exact hserved.writeScope scope hphase
  | waiting purpose => exact hserved.acquire hphase
  | writable purpose => exact hserved.startPersist purpose
  | persisting purpose => exact hserved.finishPersist hphase succeeds
  | marking => exact Served.markClosed hphase (hundisturbed.marking party succeeds rfl hphase)

/-- Every step keeps each unsettled request served, when it meets the condition. -/
theorem Served.step {writer : SnapshotWriter} (hserved : writer.Served) {action : Action}
    (hundisturbed : writer.Undisturbed action) : (writer.step action).Served := by
  cases action with
  | call number deferred =>
      rw [SnapshotWriter.step]
      split
      · rename_i hphase
        have hnever := not_serves_of_phase hphase (.inl rfl)
        rw [SnapshotWriter.call]
        split
        · exact hserved.advance hnever _
        · exact hserved.advance hnever _
      · exact hserved
  | close number =>
      rw [SnapshotWriter.step]
      split
      · rename_i hphase
        exact hserved.advance (not_serves_of_phase hphase (.inl rfl)) _
      · exact hserved
  | proceed party succeeds => exact hserved.proceed party succeeds hundisturbed

/-- In a run whose steps all meet the condition, somebody serves each request that nothing
has settled yet. -/
theorem served_run {actions : List Action}
    (hmeets : Meets step Undisturbed {} actions) :
    (actions.foldl step {}).Served := by
  have hstart : ({} : SnapshotWriter).Served :=
    ⟨fun _ hunsettled => absurd hunsettled Unsettled.not_nil,
      fun hclosed => absurd hclosed Bool.false_ne_true⟩
  apply invariant_foldl Served _ hstart hmeets
  exact fun writer action hserved hundisturbed => hserved.step hundisturbed

/-- Where no close ends over a request that came behind the start of its persist, and no
failed start retires the timer of an earlier request, every request that was accepted is
served once the writer is at rest. -/
theorem requests_served {actions : List Action} (hmeets : Meets step Undisturbed {} actions)
    (hquiescent : (actions.foldl step {}).Quiescent) :
    Covered (actions.foldl step {}).history := by
  rw [covered_iff]
  intro generation hunsettled
  obtain ⟨party, hserves⟩ := (served_run hmeets).served generation hunsettled
  exact not_serves_of_phase (hquiescent party) (.inl rfl) generation hserves

/-- A flush, and a deferred request whose timer does not start. -/
def failedStart : List Action :=
  let caller := Action.proceed (.caller 0) true
  [.call 0 false, caller, caller, caller, caller, .call 0 true, .proceed (.caller 0) false,
    caller]

theorem failedStart_quiescent : (failedStart.foldl step {}).Quiescent := by
  intro party
  simp [failedStart, step, proceed, call, schedule, report, writeScope, acquire, startPersist,
    finishPersist, advance, note, cancelTimer, admits]

theorem undisturbed_call (writer : SnapshotWriter) (number : ℕ) (deferred : Bool) :
    writer.Undisturbed (.call number deferred) where
  marking := fun _ _ heq => Action.noConfusion heq
  scheduling := fun _ heq => Action.noConfusion heq

theorem undisturbed_of_phase {writer : SnapshotWriter} {party : Party}
    (hphase : writer.phase party ≠ .marking) : writer.Undisturbed (.proceed party true) where
  marking := by
    rintro other outcome ⟨⟩ hmarking
    exact absurd hmarking hphase
  scheduling := by
    intro other heq
    injection heq with _ htrue
    cases htrue

/-- Behind a persist attempt, a timer may fail to start. -/
theorem undisturbed_of_persistStarted {writer : SnapshotWriter} (history : List Mark)
    (hhistory : writer.history = history ++ [.persistStarted]) (action : Action) :
    writer.Undisturbed action where
  marking := by
    intro _ _ _ _ generation hunsettled
    rw [hhistory] at hunsettled
    exact absurd hunsettled Unsettled.not_persistStarted
  scheduling := by
    intro _ _ _ _ generation hunsettled
    rw [hhistory] at hunsettled
    exact absurd hunsettled Unsettled.not_persistStarted

theorem requests_served_failedStart : Covered (failedStart.foldl step {}).history :=
  requests_served
    ⟨undisturbed_call _ _ _, undisturbed_of_phase (by decide),
      undisturbed_of_phase (by decide), undisturbed_of_phase (by decide),
      undisturbed_of_phase (by decide), undisturbed_call _ _ _,
      undisturbed_of_persistStarted [.requested 1] (by decide) _,
      undisturbed_of_phase (by decide), trivial⟩
    failedStart_quiescent

/-- A deferred request that arrives while a close persists: its timer fires in front of a
closed writer. -/
def lateRequest : List Action :=
  let caller := Action.proceed (.caller 0) true
  let closer := Action.proceed (.caller 1) true
  let timer := Action.proceed (.timer 3) true
  [.call 0 false, caller, caller, caller, caller, .close 1, closer, closer, closer,
    .call 0 true, caller, closer, closer, timer, timer]

theorem lateRequest_quiescent : (lateRequest.foldl step {}).Quiescent := by
  intro party
  by_cases hcaller : party = .caller 0
  · subst hcaller
    decide
  by_cases hcloser : party = .caller 1
  · subst hcloser
    decide
  by_cases htimer : party = .timer 3
  · subst htimer
    decide
  simp [lateRequest, step, proceed, call, writeScope, acquire, startPersist, finishPersist,
    schedule, checkDeferred, markClosed, advance, note, cancelTimer, admits, hcaller, hcloser,
    htimer]

theorem requests_not_always_served : ¬ ∀ actions : List Action,
    (actions.foldl step {}).Quiescent → Covered (actions.foldl step {}).history := by
  intro hall
  obtain ⟨mark, hmark, hsettles⟩ := hall lateRequest lateRequest_quiescent
    [.requested 1, .persistStarted, .persistStarted] 3 [.closed] (by decide) (by decide)
  rw [mem_singleton.mp hmark] at hsettles
  exact Bool.false_ne_true hsettles

end SnapshotWriter

end ReuleauxCoder.Persistence
