import ReuleauxCoder.Remote.Interactions

/-!
# What a waiting worker receives

An answer that arrives for a settled record overwrites it.  Without such answers, the
first settlement of an interaction stays and is what its waiter receives, and a session
that is closed approves nothing more.
-/

namespace ReuleauxCoder.Remote

open PyText PyJson Transition Function
open List hiding lookup

/-! ## Records over time -/

/-- What may become of a record, in a session that is `closed` or not. -/
structure Waiter.Onward (closed : Bool) (before after : Waiter) : Prop where
  kept : before.done = true → after = before
  refused : closed = true → before.answer.approves = false → after.answer.approves = false

theorem Waiter.Onward.refl (closed : Bool) (waiter : Waiter) : waiter.Onward closed waiter :=
  ⟨fun _ => rfl, fun _ hrefused => hrefused⟩

theorem Waiter.Onward.trans {earlier later : Bool} {first second third : Waiter}
    (hclosed : earlier = true → later = true) (hleft : first.Onward earlier second)
    (hright : second.Onward later third) : first.Onward earlier third where
  kept hdone := by
    have hsecond := hleft.kept hdone
    rw [hright.kept (hsecond ▸ hdone), hsecond]
  refused hearlier hrefused :=
    hright.refused (hclosed hearlier) (hleft.refused hearlier hrefused)

theorem Waiter.onward_of_refused {closed : Bool} {before after : Waiter}
    (hopen : before.done = false) (hafter : closed = true → after.answer.approves = false) :
    before.Onward closed after where
  kept hdone := by
    rw [hopen] at hdone
    cases hdone
  refused hclosed _ := hafter hclosed

theorem approves_cancelledFor (reason : Text) : (cancelledFor reason).answer.approves = false := rfl

/-- A record is empty until it is settled. -/
structure ChatSession.Tidy (session : ChatSession) : Prop where
  pending : ∀ index, (session.record index).done = false → session.record index = {}
  unused : ∀ index, session.nextRecord ≤ index → session.record index = {}
  known : ∀ index ∈ session.waiters.map Prod.snd, index < session.nextRecord

/-- What any number of steps leave of a session. -/
structure ChatSession.Onward (before after : ChatSession) : Prop where
  closed : before.closed = true → after.closed = true
  record : ∀ index, (before.record index).Onward before.closed (after.record index)
  answers : ∃ new, after.answers = before.answers ++ new ∧ ∀ index answer,
    (index, answer) ∈ new → ∃ waiter : Waiter,
      (before.record index).Onward before.closed waiter ∧ answer = waiter.answer

namespace ChatSession

theorem Onward.refl (session : ChatSession) : session.Onward session where
  closed hclosed := hclosed
  record index := .refl _ _
  answers := ⟨[], by rw [append_nil], fun _ _ hnone => absurd hnone not_mem_nil⟩

theorem Onward.trans {first second third : ChatSession} (hleft : first.Onward second)
    (hright : second.Onward third) : first.Onward third where
  closed hclosed := hright.closed (hleft.closed hclosed)
  record index := (hleft.record index).trans hleft.closed (hright.record index)
  answers := by
    obtain ⟨earlier, hearlier, hknown⟩ := hleft.answers
    obtain ⟨later, hlater, hnew⟩ := hright.answers
    refine ⟨earlier ++ later, by rw [hlater, hearlier, append_assoc], ?_⟩
    intro index answer hanswer
    rcases mem_append.mp hanswer with hold | hadded
    · exact hknown index answer hold
    · obtain ⟨waiter, honward, rfl⟩ := hnew index answer hadded
      exact ⟨waiter, (hleft.record index).trans hleft.closed honward, rfl⟩

/-! ## One step -/

variable {session : ChatSession}

/-- The answer repeats what is settled, or approves nothing in a closed session. -/
def Heeds (session : ChatSession) (requestId : Text) (settlement : Waiter) : Prop :=
  ∀ index, lookup requestId session.waiters = some index →
    if (session.record index).done = true then session.record index = settlement
    else session.closed = true → settlement.answer.approves = false

/-- No answer overwrites another one. -/
def Proper (session : ChatSession) : Action → Prop
  | .resolveInteraction requestId value cancelled reason =>
      session.Heeds requestId { done := true, value, cancelled := some cancelled, reason }
  | .resolveApproval approvalId decision reason =>
      session.Heeds approvalId
        { done := true, value := .bool (decision = .str (lit "allow_once"))
          cancelled := some false, reason }
  | _ => True

theorem addRecord_onward (htidy : session.Tidy) (requestId : Text) {waiter : Waiter}
    (hrefused : session.closed = true → waiter.answer.approves = false) :
    session.Onward (session.addRecord requestId waiter) where
  closed hclosed := hclosed
  record index := by
    by_cases hindex : index = session.nextRecord
    · subst hindex
      have hblank := htidy.unused session.nextRecord le_rfl
      simp only [addRecord, update_self]
      exact Waiter.onward_of_refused (by rw [hblank]) hrefused
    · simp only [addRecord, update_of_ne hindex]
      exact .refl _ _
  answers := ⟨[], (append_nil _).symm, fun _ _ hnone => absurd hnone not_mem_nil⟩

theorem addRecord_tidy (htidy : session.Tidy) (requestId : Text) {waiter : Waiter}
    (hwaiter : waiter.done = false → waiter = {}) :
    (session.addRecord requestId waiter).Tidy where
  pending index hopen := by
    by_cases hindex : index = session.nextRecord
    · subst hindex
      simp only [addRecord, update_self] at hopen ⊢
      exact hwaiter hopen
    · simp only [addRecord, update_of_ne hindex] at hopen ⊢
      exact htidy.pending index hopen
  unused index hindex := by
    have hless : session.nextRecord < index := hindex
    simp only [addRecord, update_of_ne hless.ne']
    exact htidy.unused index hless.le
  known index hindex := by
    rcases mem_values_store hindex with rfl | hold
    · exact Nat.lt_succ_self _
    · exact (htidy.known index hold).trans (Nat.lt_succ_self _)

/-- Known records may be settled. -/
theorem settled_tidy (htidy : session.Tidy) {settled : ChatSession}
    (hwaiters : settled.waiters = session.waiters)
    (hnext : settled.nextRecord = session.nextRecord)
    (hrecord : ∀ index, settled.record index = session.record index ∨
      (settled.record index).done = true ∧ index ∈ session.waiters.map Prod.snd) :
    settled.Tidy where
  pending index hopen := by
    rcases hrecord index with hsame | ⟨hdone, -⟩
    · rw [hsame] at hopen ⊢
      exact htidy.pending index hopen
    · rw [hdone] at hopen
      cases hopen
  unused index hindex := by
    rw [hnext] at hindex
    rcases hrecord index with hsame | ⟨-, hknown⟩
    · rw [hsame]
      exact htidy.unused index hindex
    · exact absurd (htidy.known index hknown) (Nat.not_lt.mpr hindex)
  known := by
    rw [hwaiters, hnext]
    exact htidy.known

theorem resolve_onward {requestId : Text} {value : Json} {cancelled : Bool} {reason : Json}
    (hheeds : session.Heeds requestId { done := true, value, cancelled := some cancelled, reason }) :
    session.Onward (session.resolveInteraction requestId value cancelled reason).1 := by
  unfold resolveInteraction
  cases hlookup : lookup requestId session.waiters with
  | none => exact .refl session
  | some known =>
      have hknown := hheeds known hlookup
      refine ⟨fun hclosed => hclosed, fun index => ?_, [], (append_nil _).symm,
        fun _ _ hnone => absurd hnone not_mem_nil⟩
      by_cases hindex : index = known
      · subst hindex
        simp only [update_self]
        split at hknown
        · rw [← hknown]
          exact .refl _ _
        · rename_i hopen
          exact Waiter.onward_of_refused (Bool.eq_false_iff.mpr hopen) hknown
      · simp only [update_of_ne hindex]
        exact .refl _ _

theorem resolve_tidy (htidy : session.Tidy) (requestId : Text) (value : Json) (cancelled : Bool)
    (reason : Json) : (session.resolveInteraction requestId value cancelled reason).1.Tidy := by
  unfold resolveInteraction
  cases hlookup : lookup requestId session.waiters with
  | none => exact htidy
  | some known =>
      refine settled_tidy htidy rfl rfl fun index => ?_
      by_cases hindex : index = known
      · subst hindex
        simp only [update_self]
        exact .inr ⟨trivial, mem_map_of_mem (mem_of_lookup_eq_some hlookup)⟩
      · simp only [update_of_ne hindex]
        exact .inl trivial

theorem settlePending_onward (session : ChatSession) (reason : Text) :
    session.Onward (session.settlePending reason) where
  closed hclosed := hclosed
  record index := by
    simp only [settlePending]
    split
    · rename_i hpending
      exact Waiter.onward_of_refused hpending.2 fun _ => approves_cancelledFor reason
    · exact .refl _ _
  answers := ⟨[], (append_nil _).symm, fun _ _ hnone => absurd hnone not_mem_nil⟩

theorem settlePending_tidy (htidy : session.Tidy) (reason : Text) :
    (session.settlePending reason).Tidy := by
  refine settled_tidy htidy rfl rfl fun index => ?_
  simp only [settlePending]
  split
  · rename_i hpending
    exact .inr ⟨rfl, hpending.1⟩
  · exact .inl rfl

theorem finishWait_tidy (htidy : session.Tidy) (requestId : Text) (index : ℕ) :
    (session.finishWait requestId index).Tidy where
  pending := htidy.pending
  unused := htidy.unused
  known other hother :=
    htidy.known other (((PyJson.drop_sublist requestId session.waiters).map Prod.snd).subset hother)

theorem finishWait_onward (session : ChatSession) (requestId : Text) (index : ℕ) :
    session.Onward (session.finishWait requestId index) where
  closed hclosed := hclosed
  record _ := .refl _ _
  answers := by
    refine ⟨[(index, (session.record index).answer)], rfl, fun other answer hmem => ?_⟩
    cases mem_singleton.mp hmem
    exact ⟨session.record index, .refl _ _, rfl⟩

/-- A session that closes keeps its records. -/
theorem close_onward {closing : ChatSession} (hrecord : closing.record = session.record)
    (hanswers : closing.answers = session.answers)
    (hclosed : session.closed = true → closing.closed = true) : session.Onward closing where
  closed := hclosed
  record index := by
    rw [hrecord]
    exact .refl _ _
  answers := ⟨[], by rw [hanswers, append_nil], fun _ _ hnone => absurd hnone not_mem_nil⟩

theorem startWait_onward (htidy : session.Tidy) (requestId : Text) :
    session.Onward (session.startWait requestId) := by
  unfold startWait
  cases hlookup : lookup requestId session.waiters with
  | some index =>
      dsimp only
      split
      · exact finishWait_onward session requestId index
      · exact close_onward rfl rfl id
  | none =>
      have hadded : session.Onward (session.addRecord requestId {}) :=
        addRecord_onward htidy requestId fun _ => rfl
      dsimp only
      split
      · exact hadded.trans (finishWait_onward _ requestId session.nextRecord)
      · exact hadded.trans (close_onward rfl rfl id)

/-- A step never undoes what was settled: the closed stay closed, records that are done do not
change, and nothing is approved after the shutdown. -/
theorem step_onward (htidy : session.Tidy) {action : Action} (hproper : session.Proper action) :
    session.Onward (session.step action) := by
  cases action with
  | registerInteraction requestId =>
      refine addRecord_onward htidy requestId fun hclosed => ?_
      rw [closed] at hclosed
      rw [if_pos hclosed]
      exact approves_cancelledFor _
  | resolveInteraction requestId value cancelled reason => exact resolve_onward hproper
  | resolveApproval approvalId decision reason => exact resolve_onward hproper
  | cancelPendingApprovals reason => exact settlePending_onward session reason
  | requestCancel reason =>
      simp only [step, requestCancel]
      split
      · exact .refl session
      · have hclosing : session.Onward { session with cancelRequested := true } :=
          close_onward rfl rfl fun _ => rfl
        exact hclosing.trans (settlePending_onward _ reason)
  | markDone =>
      have hclosing : session.Onward { session with done := true } :=
        close_onward rfl rfl fun _ => Bool.or_true _
      exact hclosing.trans (settlePending_onward _ _)
  | startWait requestId => exact startWait_onward htidy requestId
  | wake requestId index expired =>
      simp only [step, wake]
      split
      · exact finishWait_onward session requestId index
      · exact .refl session

theorem startWait_tidy (htidy : session.Tidy) (requestId : Text) :
    (session.startWait requestId).Tidy := by
  unfold startWait
  cases hlookup : lookup requestId session.waiters with
  | some index =>
      dsimp only
      split
      · exact finishWait_tidy htidy requestId index
      · exact ⟨htidy.pending, htidy.unused, htidy.known⟩
  | none =>
      have hadded : (session.addRecord requestId {}).Tidy :=
        addRecord_tidy htidy requestId fun _ => rfl
      dsimp only
      split
      · exact finishWait_tidy hadded requestId session.nextRecord
      · exact ⟨hadded.pending, hadded.unused, hadded.known⟩

/-- Fresh records are empty, and a record has an answer only once it is done. -/
theorem step_tidy (htidy : session.Tidy) (action : Action) : (session.step action).Tidy := by
  cases action with
  | registerInteraction requestId =>
      refine addRecord_tidy htidy requestId fun hopen => ?_
      split at hopen
      · cases hopen
      · rename_i hclosed
        rw [if_neg hclosed]
  | resolveInteraction requestId value cancelled reason =>
      exact resolve_tidy htidy requestId value cancelled reason
  | resolveApproval approvalId decision reason => exact resolve_tidy htidy approvalId _ _ reason
  | cancelPendingApprovals reason => exact settlePending_tidy htidy reason
  | requestCancel reason =>
      simp only [step, requestCancel]
      split
      · exact htidy
      · have hclosing : Tidy { session with cancelRequested := true } :=
          ⟨htidy.pending, htidy.unused, htidy.known⟩
        exact settlePending_tidy hclosing reason
  | markDone =>
      have hclosing : Tidy { session with done := true } :=
        ⟨htidy.pending, htidy.unused, htidy.known⟩
      exact settlePending_tidy hclosing _
  | startWait requestId => exact startWait_tidy htidy requestId
  | wake requestId index expired =>
      simp only [step, wake]
      split
      · exact finishWait_tidy htidy requestId index
      · exact htidy

/-! ## Runs -/

theorem tidy_empty : Tidy {} where
  pending _ _ := rfl
  unused _ _ := rfl
  known _ hnone := absurd hnone not_mem_nil

/-- Tidiness goes along with what is left of a session. -/
theorem foldl_onward {actions : List Action} (hproper : Meets step Proper session actions)
    (htidy : session.Tidy) :
    (actions.foldl step session).Tidy ∧ session.Onward (actions.foldl step session) := by
  have hrelated := related_foldl (fun before after : ChatSession =>
      before.Tidy → after.Tidy ∧ before.Onward after)
    (fun session htidy => ⟨htidy, .refl session⟩)
    (fun first second third hleft hright htidy => by
      obtain ⟨hsecond, hearlier⟩ := hleft htidy
      obtain ⟨hthird, hlater⟩ := hright hsecond
      exact ⟨hthird, hearlier.trans hlater⟩)
    (fun session action hproper htidy => ⟨step_tidy htidy action, step_onward htidy hproper⟩)
    hproper
  exact hrelated htidy

/-- Between two moments of a run, settled records stay as they are, and whoever waits
for one gets what it says; a session that is closed at the first moment approves none
of the interactions that were open then. -/
structure SettlesOnce (earlier later : ChatSession) : Prop where
  kept : ∀ index, (earlier.record index).done = true →
    later.record index = earlier.record index
  received : ∃ new, later.answers = earlier.answers ++ new ∧ ∀ index answer,
    (index, answer) ∈ new →
      ((earlier.record index).done = true → answer = (earlier.record index).answer) ∧
      (earlier.closed = true → (earlier.record index).done = false → answer.approves = false)

/-- Interactions settle once where no answer comes for a record that is settled otherwise: what a
waiter was told stays so. -/
theorem run_settlesOnce (before after : List Action)
    (hproper : Meets step Proper {} (before ++ after)) :
    SettlesOnce (run before) (run (before ++ after)) := by
  obtain ⟨hbefore, hafter⟩ := meets_append.mp hproper
  obtain ⟨htidy, -⟩ := foldl_onward hbefore tidy_empty
  obtain ⟨-, honward⟩ := foldl_onward hafter htidy
  have hrun : run (before ++ after) = after.foldl step (run before) := foldl_append
  rw [hrun]
  obtain ⟨new, hanswers, hnew⟩ := honward.answers
  refine ⟨fun index => (honward.record index).kept, new, hanswers, fun index answer hanswer => ?_⟩
  obtain ⟨waiter, hwaiter, rfl⟩ := hnew index answer hanswer
  refine ⟨fun hdone => congrArg Waiter.answer (hwaiter.kept hdone), fun hclosed hopen => ?_⟩
  refine hwaiter.refused hclosed ?_
  rw [htidy.pending index hopen]
  rfl

theorem run_settlesOnce_confirmed :
    SettlesOnce
      (run [.registerInteraction (lit "a"), .resolveInteraction (lit "a") (.bool true) false .null])
      (run [.registerInteraction (lit "a"), .resolveInteraction (lit "a") (.bool true) false .null,
        .requestCancel (lit "stop"), .startWait (lit "a")]) := by
  refine run_settlesOnce
    [.registerInteraction (lit "a"), .resolveInteraction (lit "a") (.bool true) false .null]
    [.requestCancel (lit "stop"), .startWait (lit "a")] ⟨trivial, ?_, trivial, trivial, trivial⟩
  intro index hindex
  cases hindex
  exact fun hclosed => by cases hclosed

/-- A late approval overwrites a cancellation. -/
theorem lateApproval_overwrites :
    ¬ ∀ before after, SettlesOnce (run before) (run (before ++ after)) := by
  intro hall
  have hlate := (hall [.registerInteraction (lit "a"), .requestCancel (lit "stop")]
    [.resolveApproval (lit "a") (.str (lit "allow_once")) .null, .startWait (lit "a")]).kept 0 rfl
  exact absurd (congrArg Waiter.cancelled hlate) (by decide)

end ChatSession

end ReuleauxCoder.Remote
