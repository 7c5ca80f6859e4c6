import ReuleauxCoder.Approval.Coordinator

/-!
# Cancelled approvals

What the coordinator keeps about one request is one account: its place in the
queue and how often it was removed, reported and answered.  Every step changes
the accounts it touches and leaves the rest alone.  A cancelled request stays
denied as long as nobody writes an approval over the cancellation and no requester
was already carrying one when it was cancelled.
-/

namespace ReuleauxCoder.Approval

open PyText List

def Phase.isDone : Phase → Bool
  | .done _ => true
  | _ => false

/-- The requester runs and has not left the `finally` block. -/
def Phase.isActive : Phase → Bool
  | .absent | .queued | .done _ => false
  | _ => true

def approves (result : Option ApprovalDecision) : Bool :=
  result.any ApprovalDecision.approved

/-- A session grant was applied and will be returned. -/
def Phase.holdsGrant : Phase → Bool
  | .granted _ _ => true
  | .leaving result => approves result
  | _ => false

/-- The requester has read an approving decision. -/
def Phase.holdsApproval : Phase → Bool
  | .decided decision => decision.approved
  | phase => phase.holdsGrant

/-- The requester has not read its decision yet. -/
def Phase.isUnread : Phase → Bool
  | .queued | .presented | .waiting | .woken => true
  | _ => false

/-- The requester can only get a denial. -/
def PendingApproval.Denied (pending : PendingApproval) : Prop :=
  match pending.phase with
  | .absent | .queued | .presented | .waiting | .woken => approves pending.decision = false
  | .decided decision => decision.approved = false
  | .granted _ _ => False
  | .leaving result | .done result => approves result = false

/-- Everything the coordinator keeps about one request. -/
structure Account where
  pending : PendingApproval
  queued : ℕ
  removed : ℕ
  cancelled : ℕ
  granted : ℕ
  returned : ℕ

def Coordinator.account (state : Coordinator) (index : ℕ) : Account where
  pending := state.pending index
  queued := state.queue.count index
  removed := state.removed.count index
  cancelled := state.cancelled.count index
  granted := state.granted.count index
  returned := state.returned.count index

structure Balanced (account : Account) : Prop where
  removedOnce : account.queued + account.removed =
    if account.pending.phase = .absent then 0 else 1
  inLine : account.pending.phase = .queued → (account.pending.event = true ↔ account.queued = 0)
  shown : account.pending.shown = true →
    account.pending.phase ≠ .absent ∧ account.pending.phase ≠ .queued
  returnedOnce : account.returned = if account.pending.phase.isDone then 1 else 0
  left : account.pending.phase.isDone = true → account.queued = 0
  granted : account.granted ≠ 0 →
    account.pending.phase.isDone = true ∨ account.pending.phase.holdsGrant = true
  cancelled : account.cancelled ≠ 0 →
    account.queued = 0 ∧ account.removed = 1 ∧ account.pending.Denied ∧ account.granted = 0

structure Sound (state : Coordinator) : Prop where
  fresh : ∀ index, state.next ≤ index → (state.pending index).phase = .absent
  balanced : ∀ index, Balanced (state.account index)

/-! ## Accounts after a step -/

section Accounts

variable (state : Coordinator) (index other : ℕ)

theorem account_setPhase (phase : Phase) :
    (state.setPhase index phase).account other =
      if other = index then
        { state.account index with pending := { state.pending index with phase } }
      else state.account other := by
  by_cases hother : other = index
  · subst hother
    simp [Coordinator.setPhase, Coordinator.account]
  · simp [Coordinator.setPhase, Coordinator.account, hother]

/-- Requests that match are resolved and taken out of the queue. -/
theorem account_settleQueued (test : ℕ → Bool) (decision : ApprovalDecision) :
    ((state.removeAll (state.queue.filter test)).resolveAll (state.queue.filter test)
      decision).account other =
      if other ∈ state.queue ∧ test other then
        { state.account other with
          pending := { state.pending other with decision := some decision, event := true }
          queued := 0
          removed := state.removed.count other + state.queue.count other }
      else state.account other := by
  have hmem : other ∈ state.queue.filter test ↔ other ∈ state.queue ∧ test other = true :=
    mem_filter
  by_cases hsettled : other ∈ state.queue ∧ test other = true
  · rw [if_pos hsettled]
    simp only [Coordinator.account, Coordinator.resolveAll, Coordinator.removeAll,
      if_pos (hmem.mpr hsettled), count_append, count_filter hsettled.2]
    congr 1
    rw [count_eq_zero, mem_filter]
    rintro ⟨-, hnot⟩
    simp [hsettled] at hnot
  · have hnot : other ∉ state.queue.filter test := fun hthere => hsettled (hmem.mp hthere)
    rw [if_neg hsettled]
    simp only [Coordinator.account, Coordinator.resolveAll, Coordinator.removeAll, if_neg hnot,
      count_append, count_eq_zero.mpr hnot, add_zero]
    congr 1
    apply count_filter
    exact decide_eq_true hnot

end Accounts

/-! ## Steps of one requester -/

/-- A requester that moves on keeps its denial, and its grant if it has one. -/
theorem Balanced.move {account : Account} (hbalanced : Balanced account) {phase : Phase}
    (hactive : account.pending.phase.isActive = true) (hphase : phase.isActive = true)
    (hdenied : account.pending.Denied → { account.pending with phase := phase }.Denied)
    (hgrant : account.pending.phase.holdsGrant = true → phase.holdsGrant = true) :
    Balanced { account with pending := { account.pending with phase := phase } } := by
  have hnow : account.pending.phase ≠ .absent ∧ account.pending.phase.isDone = false := by
    cases hcase : account.pending.phase <;> simp_all [Phase.isActive, Phase.isDone]
  have hthen : phase ≠ .absent ∧ phase ≠ .queued ∧ phase.isDone = false := by
    cases hcase : phase <;> simp_all [Phase.isActive, Phase.isDone]
  constructor
  · have hremoved := hbalanced.removedOnce
    rw [if_neg hnow.1] at hremoved
    rw [if_neg hthen.1]
    exact hremoved
  · intro hqueued
    exact absurd hqueued hthen.2.1
  · intro _
    exact ⟨hthen.1, hthen.2.1⟩
  · have hreturned := hbalanced.returnedOnce
    rw [hnow.2] at hreturned
    rw [hthen.2.2]
    exact hreturned
  · intro hdone
    rw [hthen.2.2] at hdone
    cases hdone
  · intro hgranted
    rcases hbalanced.granted hgranted with hdone | hholds
    · rw [hnow.2] at hdone
      cases hdone
    · exact Or.inr (hgrant hholds)
  · intro hcancelled
    obtain ⟨hqueue, hremoved, hdeny, hgranted⟩ := hbalanced.cancelled hcancelled
    exact ⟨hqueue, hremoved, hdenied hdeny, hgranted⟩

theorem sound_of_account {state after : Coordinator} (hsound : Sound state) {index : ℕ}
    (hnext : after.next = state.next)
    (hphase : (state.pending index).phase ≠ .absent)
    (hindex : Balanced (after.account index))
    (hothers : ∀ other, other ≠ index → after.account other = state.account other) :
    Sound after := by
  constructor
  · intro other hother
    rw [hnext] at hother
    by_cases hsame : other = index
    · exact absurd (hsound.fresh index (hsame ▸ hother)) hphase
    · have hpending := congrArg Account.pending (hothers other hsame)
      exact (congrArg PendingApproval.phase hpending).trans (hsound.fresh other hother)
  · intro other
    by_cases hsame : other = index
    · rw [hsame]
      exact hindex
    · rw [hothers other hsame]
      exact hsound.balanced other

theorem ne_absent_of_isActive {phase : Phase} (hactive : phase.isActive = true) :
    phase ≠ .absent := by
  rintro rfl
  cases hactive

theorem sound_setPhase {state : Coordinator} (hsound : Sound state) {index : ℕ} {phase : Phase}
    (hactive : (state.pending index).phase.isActive = true) (hphase : phase.isActive = true)
    (hdenied : (state.pending index).Denied →
      { state.pending index with phase := phase }.Denied)
    (hgrant : (state.pending index).phase.holdsGrant = true → phase.holdsGrant = true) :
    Sound (state.setPhase index phase) := by
  have hnext : (state.setPhase index phase).next = state.next := rfl
  apply sound_of_account hsound hnext (ne_absent_of_isActive hactive)
  · rw [account_setPhase, if_pos rfl]
    exact (hsound.balanced index).move hactive hphase hdenied hgrant
  · intro other hother
    rw [account_setPhase, if_neg hother]

theorem sound_move {state : Coordinator} (hsound : Sound state) (index : ℕ)
    {next : PendingApproval → Option Phase}
    (hmove : ∀ pending phase, next pending = some phase →
      pending.phase.isActive = true ∧ pending.phase.holdsGrant = false ∧
        phase.isActive = true ∧ (pending.Denied → { pending with phase := phase }.Denied)) :
    Sound (state.move index next) := by
  rw [Coordinator.move]
  split
  · rename_i phase hnext
    obtain ⟨hactive, hgrant, hphase, hdenied⟩ := hmove _ _ hnext
    apply sound_setPhase hsound hactive hphase hdenied
    intro hholds
    rw [hgrant] at hholds
    cases hholds
  · exact hsound

theorem sound_handlerReturns {state : Coordinator} (hsound : Sound state) (index : ℕ) :
    Sound (state.move index Coordinator.handlerReturns) := by
  apply sound_move hsound
  intro pending phase hnext
  rw [Coordinator.handlerReturns] at hnext
  split at hnext
  · rename_i hpresented
    cases hnext
    simp [hpresented, PendingApproval.Denied, Phase.isActive, Phase.holdsGrant]
  · cases hnext

theorem sound_handlerFails {state : Coordinator} (hsound : Sound state) (index : ℕ)
    (error : Text) : Sound (state.move index (Coordinator.handlerFails error)) := by
  apply sound_move hsound
  intro pending phase hnext
  rw [Coordinator.handlerFails] at hnext
  split at hnext
  · rename_i hpresented
    cases hnext
    simp [hpresented, PendingApproval.Denied, Phase.isActive, Phase.holdsGrant, approves,
      ApprovalDecision.approved]
  · cases hnext

theorem sound_handlerInterrupted {state : Coordinator} (hsound : Sound state) (index : ℕ) :
    Sound (state.move index Coordinator.handlerInterrupted) := by
  apply sound_move hsound
  intro pending phase hnext
  rw [Coordinator.handlerInterrupted] at hnext
  split at hnext
  · rename_i hpresented
    cases hnext
    simp [hpresented, PendingApproval.Denied, Phase.isActive, Phase.holdsGrant, approves]
  · cases hnext

theorem sound_wake {state : Coordinator} (hsound : Sound state) (index : ℕ) :
    Sound (state.move index Coordinator.wake) := by
  apply sound_move hsound
  intro pending phase hnext
  rw [Coordinator.wake] at hnext
  split at hnext
  · rename_i hwaiting
    cases hnext
    simp [hwaiting.1, PendingApproval.Denied, Phase.isActive, Phase.holdsGrant]
  · cases hnext

theorem sound_timeOut {state : Coordinator} (hsound : Sound state) (index : ℕ) (timeout : Text) :
    Sound (state.move index (Coordinator.timeOut timeout)) := by
  apply sound_move hsound
  intro pending phase hnext
  rw [Coordinator.timeOut] at hnext
  split at hnext
  · rename_i hwaiting
    cases hnext
    simp [hwaiting.1, PendingApproval.Denied, Phase.isActive, Phase.holdsGrant,
      ApprovalDecision.approved]
  · cases hnext

theorem sound_readDecision {state : Coordinator} (hsound : Sound state) (index : ℕ) :
    Sound (state.move index Coordinator.readDecision) := by
  apply sound_move hsound
  intro pending phase hnext
  rw [Coordinator.readDecision] at hnext
  split at hnext
  · rename_i hwoken
    cases hnext
    cases hdecision : pending.decision with
    | none => simp [hwoken, PendingApproval.Denied, Phase.isActive, Phase.holdsGrant,
        ApprovalDecision.approved]
    | some decision => simp [hwoken, hdecision, PendingApproval.Denied, Phase.isActive,
        Phase.holdsGrant, approves]
  · cases hnext

theorem sound_deny {state : Coordinator} (hsound : Sound state) {index : ℕ}
    {decision : ApprovalDecision} (hphase : (state.pending index).phase = .decided decision)
    (reason : Text) : Sound (state.setPhase index (.leaving (some (.denyOnce reason)))) := by
  apply sound_setPhase hsound
  · rw [hphase]
    rfl
  · rfl
  · intro _
    rfl
  · intro hholds
    rw [hphase] at hholds
    cases hholds

/-- A cancelled request is not granted anything: it carries no approval. -/
theorem sound_grant {state : Coordinator} (hsound : Sound state) {index : ℕ}
    {grant : ApprovalGrant} {reason : Text} {released : List Text}
    (hphase : (state.pending index).phase = .decided (.allowSession (some grant) reason released)) :
    Sound { state.setPhase index (.granted grant reason) with
      granted := state.granted ++ [index] } := by
  have hactive : (state.pending index).phase.isActive = true := by
    rw [hphase]
    rfl
  have hbalanced := hsound.balanced index
  have hnotCancelled : state.cancelled.count index = 0 := by
    by_contra hcancelled
    have hdenied := (hbalanced.cancelled hcancelled).2.2.1
    change (state.pending index).Denied at hdenied
    rw [PendingApproval.Denied, hphase] at hdenied
    cases hdenied
  have hnext : ({ state.setPhase index (.granted grant reason) with
      granted := state.granted ++ [index] } : Coordinator).next = state.next := rfl
  apply sound_of_account hsound hnext (ne_absent_of_isActive hactive)
  · have hremoved := hbalanced.removedOnce
    have hreturned := hbalanced.returnedOnce
    simp only [Coordinator.account, hphase] at hremoved hreturned
    constructor <;> simp_all [Coordinator.account, Coordinator.setPhase, Phase.isDone,
      Phase.holdsGrant]
  · intro other hother
    simp [Coordinator.account, Coordinator.setPhase, hother, Ne.symm hother]

theorem sound_applyGrant {state : Coordinator} (hsound : Sound state) (hasHandler : Bool)
    (index : ℕ) (error : Option Text) :
    Sound (Coordinator.applyGrant hasHandler state index error) := by
  rw [Coordinator.applyGrant]
  split
  · rename_i grant reason released hphase
    split
    · exact sound_deny hsound hphase _
    · split
      · exact sound_deny hsound hphase _
      · split
        · exact sound_deny hsound hphase _
        · exact sound_grant hsound hphase
  · rename_i decision _ hphase
    apply sound_setPhase hsound
    · rw [hphase]
      rfl
    · rfl
    · intro hdenied
      rw [PendingApproval.Denied, hphase] at hdenied
      exact hdenied
    · intro hholds
      rw [hphase] at hholds
      cases hholds
  · exact hsound

/-! ## Regions under the lock -/

theorem sound_register {state : Coordinator} (hsound : Sound state) (request : ApprovalRequest) :
    Sound (state.register request) := by
  have hbalanced := hsound.balanced state.next
  have habsent := hsound.fresh state.next (Nat.le_refl _)
  constructor
  · intro index hindex
    have hne : index ≠ state.next := by
      rintro rfl
      exact absurd hindex (Nat.not_succ_le_self _)
    simp only [Coordinator.register, Function.update_of_ne hne]
    exact hsound.fresh index (Nat.le_of_succ_le hindex)
  · intro index
    by_cases hindex : index = state.next
    · subst hindex
      have hremoved := hbalanced.removedOnce
      have hreturned := hbalanced.returnedOnce
      have hgranted := hbalanced.granted
      have hcancelled := hbalanced.cancelled
      simp only [Coordinator.account, habsent, if_true, Phase.isDone, Phase.holdsGrant,
        Nat.add_eq_zero_iff] at hremoved hreturned hgranted hcancelled
      constructor <;> simp_all [Coordinator.account, Coordinator.register, Phase.isDone,
        Phase.holdsGrant]
    · have hsame : (state.register request).account index = state.account index := by
        simp [Coordinator.account, Coordinator.register, hindex, Ne.symm hindex]
      rw [hsame]
      exact hsound.balanced index

theorem sound_focus {state : Coordinator} (hsound : Sound state) (index : ℕ) :
    Sound (state.focus index) := by
  have hbalanced := hsound.balanced index
  simp only [Coordinator.focus]
  split
  · exact hsound
  · rename_i hqueued
    rw [not_not] at hqueued
    have habsent : (state.pending index).phase ≠ .absent := by
      rw [hqueued]
      simp
    have hremoved := hbalanced.removedOnce
    have hreturned := hbalanced.returnedOnce
    have hline := hbalanced.inLine hqueued
    have hgranted := hbalanced.granted
    have hcancelled := hbalanced.cancelled
    simp only [Coordinator.account, hqueued] at hremoved hreturned hgranted
    split
    · rename_i hevent
      have hleft : state.queue.count index = 0 := hline.mp hevent
      have hnext : ({ state.setPhase index (.done (some ((state.pending index).decision.getD
          (.denyOnce (lit "approval cancelled"))))) with
            returned := state.returned ++ [index] } : Coordinator).next = state.next := rfl
      apply sound_of_account hsound hnext habsent
      · have hdenied : state.cancelled.count index ≠ 0 →
            approves (some ((state.pending index).decision.getD
              (.denyOnce (lit "approval cancelled")))) = false := by
          intro hcount
          have hdeny := (hcancelled hcount).2.2.1
          change (state.pending index).Denied at hdeny
          rw [PendingApproval.Denied, hqueued] at hdeny
          cases hdecision : (state.pending index).decision with
          | none => rfl
          | some decision =>
              rw [hdecision] at hdeny
              exact hdeny
        have hnone : state.granted.count index = 0 := by
          by_contra hcount
          rcases hgranted hcount with hdone | hholds
          · cases hdone
          · cases hholds
        constructor
        all_goals simp only [Coordinator.account, Coordinator.setPhase, Function.update_self,
          Phase.isDone, count_append, count_singleton_self]
        · simpa using hremoved
        · simp
        · simp
        · simpa [Phase.isDone] using hreturned
        · exact fun _ => hleft
        · exact fun _ => Or.inl trivial
        · intro hcount
          exact ⟨hleft, (hcancelled hcount).2.1, hdenied hcount, hnone⟩
      · intro other hother
        simp [Coordinator.account, Coordinator.setPhase, hother, Ne.symm hother]
    · rename_i hevent
      split
      · have hnext : ({ state with
            pending := Function.update state.pending index
              { state.pending index with phase := .presented, shown := true } } :
                Coordinator).next = state.next := rfl
        apply sound_of_account hsound hnext habsent
        · constructor
          all_goals simp only [Coordinator.account, Function.update_self, Phase.isDone]
          · simpa using hremoved
          · simp
          · simp
          · simpa [Phase.isDone] using hreturned
          · simp
          · intro hcount
            rcases hgranted hcount with hdone | hholds
            · cases hdone
            · cases hholds
          · intro hcount
            exact absurd (hline.mpr (hcancelled hcount).1) hevent
        · intro other hother
          simp [Coordinator.account, hother]
      · exact hsound

/-- Writing to a request that the handler holds changes no account but its own. -/
theorem sound_shown {state : Coordinator} (hsound : Sound state) {index : ℕ}
    {pending : PendingApproval} (hshown : (state.pending index).shown = true)
    (hsame : pending.phase = (state.pending index).phase ∧ pending.shown = true)
    (hdenied : state.cancelled.count index ≠ 0 → (state.pending index).Denied →
      pending.Denied) :
    Sound { state with pending := Function.update state.pending index pending } := by
  have hbalanced := hsound.balanced index
  obtain ⟨habsent, hqueued⟩ := hbalanced.shown hshown
  have hnext : ({ state with pending := Function.update state.pending index pending } :
      Coordinator).next = state.next := rfl
  apply sound_of_account hsound hnext habsent
  · have hremoved := hbalanced.removedOnce
    have hreturned := hbalanced.returnedOnce
    have hleft := hbalanced.left
    have hgranted := hbalanced.granted
    simp only [Coordinator.account] at hremoved hreturned hleft hgranted habsent hqueued
    constructor
    all_goals simp only [Coordinator.account, Function.update_self, hsame.1]
    · exact hremoved
    · exact fun hphase => absurd hphase hqueued
    · exact fun _ => ⟨habsent, hqueued⟩
    · exact hreturned
    · exact hleft
    · exact hgranted
    · intro hcount
      obtain ⟨hqueue, hout, hdeny, hnone⟩ := hbalanced.cancelled hcount
      exact ⟨hqueue, hout, hdenied hcount hdeny, hnone⟩
  · intro other hother
    simp [Coordinator.account, hother]

theorem sound_setEvent {state : Coordinator} (hsound : Sound state) (index : ℕ) :
    Sound (state.setEvent index) := by
  rw [Coordinator.setEvent]
  split
  · rename_i hshown
    exact sound_shown hsound hshown ⟨rfl, hshown⟩ fun _ hdenied => hdenied
  · exact hsound

/-- The handler writes no approval into a request that was cancelled and whose
requester has not read its decision. -/
def WritesWhileOpen (state : Coordinator) (index : ℕ) (decision : ApprovalDecision) : Prop :=
  index ∈ state.cancelled → (state.pending index).phase.isUnread = true →
    decision.approved = false

theorem sound_writeDecision {state : Coordinator} (hsound : Sound state) {index : ℕ}
    {decision : ApprovalDecision} (hopen : WritesWhileOpen state index decision) :
    Sound (state.writeDecision index decision) := by
  rw [Coordinator.writeDecision]
  split
  · rename_i hshown
    obtain ⟨habsent, hqueued⟩ := (hsound.balanced index).shown hshown
    refine sound_shown hsound hshown ?_ ?_
    · exact ⟨rfl, hshown⟩
    · intro hcount hdenied
      have hwrite := hopen (count_pos_iff.mp (Nat.pos_of_ne_zero hcount))
      cases hphase : (state.pending index).phase with
      | absent => exact absurd hphase habsent
      | queued => exact absurd hphase hqueued
      | presented | waiting | woken =>
          rw [hphase] at hwrite
          simp only [PendingApproval.Denied, hphase]
          exact hwrite rfl
      | granted _ _ => simp only [PendingApproval.Denied, hphase] at hdenied
      | decided _ | leaving _ | done _ =>
          simp only [PendingApproval.Denied, hphase] at hdenied ⊢
          exact hdenied
  · exact hsound

/-- No request that matches carries an approval its requester has read. -/
def CancelsInTime (state : Coordinator) (predicate : ApprovalRequest → Bool) : Prop :=
  ∀ index ∈ state.queue, predicate (state.pending index).request = true →
    (state.pending index).phase.holdsApproval = false

theorem isActive_or_queued {state : Coordinator} (hsound : Sound state) {index : ℕ}
    (hmem : index ∈ state.queue) :
    (state.pending index).phase ≠ .absent ∧ (state.pending index).phase.isDone = false ∧
      state.queue.count index = 1 ∧ state.removed.count index = 0 := by
  have hbalanced := hsound.balanced index
  have hcount : state.queue.count index ≠ 0 := (count_pos_iff.mpr hmem).ne'
  have hremoved : state.queue.count index + state.removed.count index =
      if (state.pending index).phase = .absent then 0 else 1 := hbalanced.removedOnce
  have habsent : (state.pending index).phase ≠ .absent := by
    intro habsent
    rw [if_pos habsent] at hremoved
    omega
  rw [if_neg habsent] at hremoved
  refine ⟨habsent, ?_, by omega, by omega⟩
  by_contra hdone
  exact hcount (hbalanced.left (Bool.eq_true_of_not_eq_false hdone))

/-- A request that is resolved and taken out of the queue keeps a balanced account,
and is denied when the decision is a denial and its requester carries no approval. -/
theorem Balanced.settle {state : Coordinator} (hsound : Sound state) {index : ℕ}
    (hmem : index ∈ state.queue) (decision : ApprovalDecision) {cancelled : ℕ}
    (hcancelled : cancelled ≠ 0 → decision.approved = false ∧
      (state.pending index).phase.holdsApproval = false) :
    Balanced { state.account index with
      pending := { state.pending index with decision := some decision, event := true }
      queued := 0
      removed := state.removed.count index + state.queue.count index
      cancelled := cancelled } := by
  have hbalanced := hsound.balanced index
  obtain ⟨habsent, hdone, hone, hzero⟩ := isActive_or_queued hsound hmem
  constructor
  all_goals simp only [Coordinator.account]
  · rw [if_neg habsent]
    omega
  · exact fun _ => by simp
  · exact hbalanced.shown
  · exact hbalanced.returnedOnce
  · exact fun _ => trivial
  · exact hbalanced.granted
  · intro hcount
    obtain ⟨hdecision, hphase⟩ := hcancelled hcount
    refine ⟨trivial, by omega, ?_, ?_⟩
    · rw [PendingApproval.Denied]
      cases hcase : (state.pending index).phase with
      | absent => exact absurd hcase habsent
      | queued | presented | waiting | woken =>
          exact hdecision
      | decided _ =>
          rw [hcase] at hphase
          exact hphase
      | granted _ _ =>
          rw [hcase] at hphase
          cases hphase
      | leaving _ =>
          rw [hcase] at hphase
          exact hphase
      | done _ =>
          rw [hcase] at hdone
          cases hdone
    · by_contra hgranted
      rcases hbalanced.granted hgranted with hisDone | hholds
      · simp only [Coordinator.account] at hisDone
        rw [hdone] at hisDone
        cases hisDone
      · have happroval : (state.pending index).phase.holdsApproval = true := by
          simp only [Coordinator.account] at hholds
          cases hcase : (state.pending index).phase <;>
            simp_all [Phase.holdsGrant, Phase.holdsApproval]
        rw [hphase] at happroval
        cases happroval

theorem sound_of_accounts {state after : Coordinator} (hsound : Sound state)
    (hnext : after.next = state.next)
    (haccounts : ∀ index, after.account index = state.account index ∨
      (state.pending index).phase ≠ .absent ∧ Balanced (after.account index)) :
    Sound after := by
  constructor
  · intro index hindex
    rw [hnext] at hindex
    rcases haccounts index with hsame | ⟨hphase, -⟩
    · have hpending := congrArg Account.pending hsame
      exact (congrArg PendingApproval.phase hpending).trans (hsound.fresh index hindex)
    · exact absurd (hsound.fresh index hindex) hphase
  · intro index
    rcases haccounts index with hsame | ⟨-, hbalanced⟩
    · rw [hsame]
      exact hsound.balanced index
    · exact hbalanced

theorem sound_cancelMatching {state : Coordinator} (hsound : Sound state)
    {predicate : ApprovalRequest → Bool} (hintime : CancelsInTime state predicate)
    (reason : Text) : Sound (state.cancelMatching predicate reason) := by
  have hnext : (state.cancelMatching predicate reason).next = state.next := rfl
  apply sound_of_accounts hsound hnext
  intro index
  have hsettled := account_settleQueued state index
    (fun index => predicate (state.pending index).request) (.denyOnce reason)
  have haccount : (state.cancelMatching predicate reason).account index =
      { ((state.removeAll (state.queue.filter fun index =>
            predicate (state.pending index).request)).resolveAll
          (state.queue.filter fun index => predicate (state.pending index).request)
          (.denyOnce reason)).account index with
        cancelled := state.cancelled.count index + (state.queue.filter fun index =>
          predicate (state.pending index).request).count index } := by
    simp [Coordinator.account, Coordinator.cancelMatching, Coordinator.resolveAll,
      Coordinator.removeAll]
  rw [haccount, hsettled]
  split
  · rename_i hmatch
    right
    refine ⟨(isActive_or_queued hsound hmatch.1).1, ?_⟩
    apply Balanced.settle hsound hmatch.1
    intro _
    exact ⟨rfl, hintime index hmatch.1 hmatch.2⟩
  · rename_i hmatch
    left
    have hnone : (state.queue.filter fun index =>
        predicate (state.pending index).request).count index = 0 := by
      rw [count_eq_zero, mem_filter]
      exact hmatch
    rw [hnone]
    rfl

theorem sound_release {state : Coordinator} (hsound : Sound state) (index : ℕ) :
    Sound (state.release index) := by
  rw [Coordinator.release]
  split
  · rename_i grant reason hphase
    have hactive : (state.pending index).phase.isActive = true := by
      rw [hphase]
      rfl
    have hreleased : Sound ((state.removeAll (state.covered index grant)).resolveAll
        (state.covered index grant) (.allowSession (some grant)
          (lit "approved by a matching session grant from request " ++
            (state.pending index).request.requestId) [])) := by
      have hnext : ((state.removeAll (state.covered index grant)).resolveAll
          (state.covered index grant) (.allowSession (some grant)
            (lit "approved by a matching session grant from request " ++
              (state.pending index).request.requestId) [])).next = state.next := rfl
      apply sound_of_accounts hsound hnext
      intro other
      rw [Coordinator.covered, account_settleQueued]
      split
      · rename_i hmatch
        right
        refine ⟨(isActive_or_queued hsound hmatch.1).1, ?_⟩
        apply Balanced.settle hsound hmatch.1
        intro hcount
        have hqueue := ((hsound.balanced other).cancelled hcount).1
        have hone := (isActive_or_queued hsound hmatch.1).2.2.1
        simp only [Coordinator.account] at hqueue
        omega
      · left
        rfl
    have hkept : (((state.removeAll (state.covered index grant)).resolveAll
        (state.covered index grant) (.allowSession (some grant)
          (lit "approved by a matching session grant from request " ++
            (state.pending index).request.requestId) [])).pending index).phase =
          .granted grant reason := by
      simp only [Coordinator.resolveAll, Coordinator.removeAll]
      split
      · exact hphase
      · exact hphase
    apply sound_setPhase hreleased
    · rw [hkept]
      rfl
    · rfl
    · intro hdenied
      rw [PendingApproval.Denied, hkept] at hdenied
      cases hdenied
    · exact fun _ => rfl
  · exact hsound

/-- The `finally` block takes a request out of the queue unless it is out already. -/
theorem account_removeSelf (state : Coordinator) (index other : ℕ)
    (hremoved : state.queue.count index + state.removed.count index = 1) :
    (if index ∈ state.queue then state.removeAll [index] else state).account other =
      if other = index then { state.account index with queued := 0, removed := 1 }
      else state.account other := by
  by_cases hother : other = index
  · subst hother
    rw [if_pos rfl]
    split
    · rename_i hmem
      have hcount := count_pos_iff.mpr hmem
      simp only [Coordinator.account, Coordinator.removeAll, count_append,
        count_singleton_self]
      congr 1
      · rw [count_eq_zero, mem_filter]
        simp
      · omega
    · rename_i hmem
      have hcount := count_eq_zero.mpr hmem
      simp only [Coordinator.account, hcount]
      congr 1
      omega
  · rw [if_neg hother]
    split
    · simp only [Coordinator.account, Coordinator.removeAll, count_append,
        count_singleton, beq_iff_eq, if_neg (Ne.symm hother), add_zero]
      congr 1
      apply count_filter
      simpa using hother
    · rfl

theorem sound_leave {state : Coordinator} (hsound : Sound state) (index : ℕ) :
    Sound (state.leave index) := by
  rw [Coordinator.leave]
  split
  · rename_i result hphase
    have hbalanced := hsound.balanced index
    have habsent : (state.pending index).phase ≠ .absent := by
      rw [hphase]
      simp
    have hremoved : state.queue.count index + state.removed.count index = 1 := by
      have hbalance : state.queue.count index + state.removed.count index =
          if (state.pending index).phase = .absent then 0 else 1 := hbalanced.removedOnce
      rwa [if_neg habsent] at hbalance
    have hreturned : state.returned.count index = 0 := by
      have hbalance : state.returned.count index =
          if (state.pending index).phase.isDone then 1 else 0 := hbalanced.returnedOnce
      rw [hphase] at hbalance
      exact hbalance
    have hleft := account_removeSelf state index
    have haccount : ∀ other, (({ (if index ∈ state.queue then state.removeAll [index]
        else state).setPhase index (.done result) with
          returned := state.returned ++ [index] } : Coordinator).account other) =
        if other = index then
          { pending := { state.pending index with phase := .done result }
            queued := 0
            removed := 1
            cancelled := state.cancelled.count index
            granted := state.granted.count index
            returned := 1 }
        else state.account other := by
      intro other
      have hfields := hleft other hremoved
      by_cases hother : other = index
      · subst hother
        rw [if_pos rfl] at hfields ⊢
        simp only [Coordinator.account, Account.mk.injEq] at hfields ⊢
        obtain ⟨hpending, hqueue, hout, hcancelled, hgranted, -⟩ := hfields
        refine ⟨?_, hqueue, hout, hcancelled, hgranted, ?_⟩
        · simp [Coordinator.setPhase, hpending]
        · simp [hreturned]
      · rw [if_neg hother] at hfields ⊢
        simp only [Coordinator.account, Account.mk.injEq] at hfields ⊢
        obtain ⟨hpending, hqueue, hout, hcancelled, hgranted, -⟩ := hfields
        refine ⟨?_, hqueue, hout, hcancelled, hgranted, ?_⟩
        · simp [Coordinator.setPhase, hother, hpending]
        · simp [Ne.symm hother]
    have hnext : ({ (if index ∈ state.queue then state.removeAll [index]
        else state).setPhase index (.done result) with
          returned := state.returned ++ [index] } : Coordinator).next = state.next := by
      simp only [Coordinator.setPhase]
      split
      · rfl
      · rfl
    apply sound_of_account hsound hnext habsent
    · rw [haccount, if_pos rfl]
      constructor
      · rfl
      · simp
      · simp
      · rfl
      · exact fun _ => rfl
      · exact fun _ => Or.inl rfl
      · intro hcount
        obtain ⟨-, -, hdenied, hgranted⟩ := hbalanced.cancelled hcount
        refine ⟨rfl, rfl, ?_, hgranted⟩
        change (state.pending index).Denied at hdenied
        rw [PendingApproval.Denied, hphase] at hdenied
        exact hdenied
    · intro other hother
      rw [haccount, if_neg hother]
  · exact hsound

/-! ## Runs -/

/-- What the environment may do: the handler writes no approval over a
cancellation, and nobody cancels a request that already carries an approval. -/
def Coordinator.Admits (state : Coordinator) : CoordinatorAction → Prop
  | .writeDecision index decision => WritesWhileOpen state index decision
  | .cancelMatching predicate _ => CancelsInTime state predicate
  | _ => True

instance Coordinator.decidableAdmits (state : Coordinator) :
    ∀ action, Decidable (state.Admits action)
  | .writeDecision index decision => inferInstanceAs (Decidable (index ∈ state.cancelled →
      (state.pending index).phase.isUnread = true → decision.approved = false))
  | .cancelMatching predicate _ => inferInstanceAs (Decidable (∀ index ∈ state.queue,
      predicate (state.pending index).request = true →
        (state.pending index).phase.holdsApproval = false))
  | .register _ | .focus _ | .handlerReturns _ | .handlerFails _ _ | .handlerInterrupted _
  | .setEvent _ | .wake _ | .timeOut _ | .readDecision _ | .applyGrant _ _ | .release _
  | .leave _ => isTrue trivial

/-- Each step keeps the account of every request balanced, and touches no request that is not
made yet. -/
theorem step_sound (hasHandler : Bool) (timeout : Text) (state : Coordinator)
    (action : CoordinatorAction) (hsound : Sound state) (hadmits : state.Admits action) :
    Sound (Coordinator.step hasHandler timeout state action) := by
  cases action with
  | register request => exact sound_register hsound request
  | focus index => exact sound_focus hsound index
  | handlerReturns index => exact sound_handlerReturns hsound index
  | handlerFails index error => exact sound_handlerFails hsound index error
  | handlerInterrupted index => exact sound_handlerInterrupted hsound index
  | writeDecision index decision => exact sound_writeDecision hsound hadmits
  | setEvent index => exact sound_setEvent hsound index
  | wake index => exact sound_wake hsound index
  | timeOut index => exact sound_timeOut hsound index timeout
  | readDecision index => exact sound_readDecision hsound index
  | applyGrant index error => exact sound_applyGrant hsound hasHandler index error
  | release index => exact sound_release hsound index
  | leave index => exact sound_leave hsound index
  | cancelMatching predicate reason => exact sound_cancelMatching hsound hadmits reason

theorem sound_new : Sound Coordinator.new := by
  constructor
  · intro index _
    rfl
  · intro index
    constructor <;> simp [Coordinator.account, Coordinator.new, Phase.isDone]

/-- In every admitted run, a request that was reported as cancelled is answered
with a denial if at all and grants nothing, and every request is taken out of the
queue and answered at most once, both by the time it is answered; one that nobody
has taken up is still in the queue or already settled. -/
theorem run_cancellation_final (hasHandler : Bool) (timeout : Text)
    {actions : List CoordinatorAction}
    (hmeets : Transition.Meets (Coordinator.step hasHandler timeout) Coordinator.Admits
      Coordinator.new actions) :
    let final := actions.foldl (Coordinator.step hasHandler timeout) Coordinator.new
    (∀ index ∈ final.cancelled, index ∉ final.granted ∧
      ∀ result, (final.pending index).phase = .done result → approves result = false) ∧
    ∀ index, final.removed.count index ≤ 1 ∧ final.returned.count index ≤ 1 ∧
      ((final.pending index).phase.isDone = true → index ∉ final.queue ∧
        final.removed.count index = 1 ∧ final.returned.count index = 1) ∧
      ((final.pending index).phase = .queued →
        index ∈ final.queue ∨ (final.pending index).event = true) := by
  intro final
  have hsound : Sound final := Transition.invariant_foldl Sound
    (step_sound hasHandler timeout) sound_new hmeets
  constructor
  · intro index hindex
    have hcount : final.cancelled.count index ≠ 0 := (count_pos_iff.mpr hindex).ne'
    obtain ⟨-, -, hdenied, hgranted⟩ := (hsound.balanced index).cancelled hcount
    refine ⟨count_eq_zero.mp hgranted, ?_⟩
    intro result hphase
    change (final.pending index).Denied at hdenied
    rw [PendingApproval.Denied, hphase] at hdenied
    exact hdenied
  · intro index
    have hbalanced := hsound.balanced index
    have hremoved : final.queue.count index + final.removed.count index =
        if (final.pending index).phase = .absent then 0 else 1 := hbalanced.removedOnce
    have hreturned : final.returned.count index =
        if (final.pending index).phase.isDone then 1 else 0 := hbalanced.returnedOnce
    refine ⟨?_, ?_, ?_, ?_⟩
    · split at hremoved <;> omega
    · split at hreturned <;> omega
    · intro hdone
      have hqueue : final.queue.count index = 0 := hbalanced.left hdone
      have habsent : (final.pending index).phase ≠ .absent := by
        intro habsent
        rw [habsent] at hdone
        cases hdone
      rw [if_neg habsent] at hremoved
      rw [if_pos hdone] at hreturned
      exact ⟨count_eq_zero.mp hqueue, by omega, hreturned⟩
    · intro hqueued
      by_cases hmem : index ∈ final.queue
      · exact Or.inl hmem
      · exact Or.inr ((hbalanced.inLine hqueued).mpr (count_eq_zero.mpr hmem))

def shellRequest : ApprovalRequest where
  requestId := lit "request"
  toolName := lit "shell"

/-- A presented request is cancelled before anybody resolves it. -/
def cancelledRun : List CoordinatorAction :=
  [.register shellRequest, .focus 0, .handlerReturns 0,
    .cancelMatching (fun _ => true) (lit "job stopped"), .wake 0, .readDecision 0,
    .applyGrant 0 none, .leave 0]

theorem run_cancellation_final_job_stopped :
    let final := cancelledRun.foldl (Coordinator.step true (lit "60.0")) Coordinator.new
    final.cancelled = [0] ∧
      ∀ result, (final.pending 0).phase = .done result → approves result = false := by
  have hmeets : Transition.Meets (Coordinator.step true (lit "60.0")) Coordinator.Admits
      Coordinator.new cancelledRun := by
    decide +kernel
  have hfinal := (run_cancellation_final true (lit "60.0") hmeets).1 0 (by decide +kernel)
  exact ⟨by decide +kernel, hfinal.2⟩

/-- The dialog of a cancelled request is still open and approves it. -/
theorem cancelled_request_approved :
    let final := ([.register shellRequest, .focus 0, .handlerReturns 0,
        .cancelMatching (fun _ => true) (lit "job stopped"),
        .writeDecision 0 (.allowOnce (lit "approved")), .setEvent 0, .wake 0, .readDecision 0,
        .applyGrant 0 none, .leave 0] : List CoordinatorAction).foldl
          (Coordinator.step true (lit "60.0")) Coordinator.new
    final.cancelled = [0] ∧
      (final.pending 0).phase = .done (some (.allowOnce (lit "approved"))) := by
  decide +kernel

end ReuleauxCoder.Approval
