import Mathlib

/-!
# Bookkeeping shared by concurrent calls

Calls are numbered in the order in which they begin, and a function gives the
point that each has reached.  Four small laws: counting calls when one of them moves,
places that are reserved before they are taken, a token that is claimed once and
spent at most once, and a record of a value that several observers fetch before
they write it down.
-/

namespace Bookkeeping

section Counting

variable {Phase : Type*} {calls : List ℕ} {id : ℕ}

/-- One call moves: the count changes by what it counted before and after. -/
theorem countP_update (counts : Phase → Bool) (phase : ℕ → Phase) (next : Phase)
    (hnodup : calls.Nodup) (hmem : id ∈ calls) :
    (calls.countP fun other => counts (Function.update phase id next other)) +
        (if counts (phase id) then 1 else 0) =
      (calls.countP fun other => counts (phase other)) + if counts next then 1 else 0 := by
  induction calls with
  | nil => cases hmem
  | cons head rest ih =>
      rw [List.nodup_cons] at hnodup
      by_cases hhead : head = id
      · subst hhead
        have hrest : (rest.countP fun other => counts (Function.update phase head next other)) =
            rest.countP fun other => counts (phase other) := by
          apply List.countP_congr
          intro other hother
          have hne : other ≠ head := fun heq => hnodup.1 (heq ▸ hother)
          simp [Function.update_of_ne hne]
        simp only [List.countP_cons, Function.update_self, hrest]
        omega
      · have hmem : id ∈ rest := (List.mem_cons.mp hmem).resolve_left fun heq => hhead heq.symm
        simp only [List.countP_cons, Function.update_of_ne hhead]
        have := ih hnodup.2 hmem
        omega

/-- A call that counts no longer leaves the list. -/
theorem countP_erase (counts : ℕ → Bool) (hmem : id ∈ calls) :
    (calls.erase id).countP counts + (if counts id then 1 else 0) = calls.countP counts := by
  have := (List.perm_cons_erase hmem).countP_eq counts
  rw [this, List.countP_cons]

end Counting

/-! ## Places that are reserved before they are taken -/

/-- The places taken, the reservations still waiting, and those whose holder took
its place but has not given the reservation back. -/
structure Places where
  taken : ℕ
  waiting : ℕ
  joined : ℕ

namespace Places

/-- A reservation is refused unless the places taken and all reservations leave room. -/
inductive Step (limit : ℕ) (before after : Places) : Prop where
  | free (htaken : after.taken ≤ before.taken) (hwaiting : after.waiting = before.waiting)
      (hjoined : after.joined = before.joined)
  | reserve (hroom : after.taken + before.waiting + before.joined < limit)
      (htaken : after.taken ≤ before.taken) (hwaiting : after.waiting = before.waiting + 1)
      (hjoined : after.joined = before.joined)
  | join (htaken : after.taken = before.taken + 1) (hwaiting : after.waiting + 1 = before.waiting)
      (hjoined : after.joined = before.joined + 1)
  | leave (htaken : after.taken = before.taken)
      (hreleased : after.waiting + 1 = before.waiting ∧ after.joined = before.joined ∨
        after.waiting = before.waiting ∧ after.joined + 1 = before.joined)

/-- The places taken and those still waited for never exceed the limit. -/
theorem Step.bounded {limit : ℕ} {before after : Places} (hstep : Step limit before after)
    (hbounded : before.taken + before.waiting ≤ limit) : after.taken + after.waiting ≤ limit := by
  cases hstep with
  | free => omega
  | reserve => omega
  | join => omega
  | leave => omega

/-- With every reservation counted the bound needs room for each place that is
taken, which is counted twice until its reservation is given back. -/
theorem Step.bounded_of_room {limit : ℕ} {before after : Places}
    (hstep : Step limit before after)
    (hroom : before.taken < after.taken → before.taken + before.waiting + before.joined < limit)
    (hbounded : before.taken + before.waiting + before.joined ≤ limit) :
    after.taken + after.waiting + after.joined ≤ limit := by
  cases hstep with
  | free => omega
  | reserve => omega
  | join htaken =>
      have := hroom (by omega)
      omega
  | leave _ hreleased => omega

end Places

/-! ## A token that is spent at most once -/

/-- Whether the token was claimed, the calls that hold it, and how often it was
spent. -/
structure Token where
  claimed : Bool
  holders : Set ℕ
  spent : ℕ

inductive Token.Once : Token → Prop where
  | unclaimed {token} (hclaimed : token.claimed = false) (hholders : token.holders = ∅)
      (hspent : token.spent = 0) : Once token
  | held {token} (id : ℕ) (hclaimed : token.claimed = true) (hholders : token.holders = {id})
      (hspent : token.spent = 0) : Once token
  | gone {token} (hclaimed : token.claimed = true) (hholders : token.holders = ∅)
      (hspent : token.spent ≤ 1) : Once token

namespace Token

/-- What one step may do to a token: nothing, claim it for a call, claim it for
nobody, or spend it. -/
inductive Step (before after : Token) : Prop where
  | keep (hsame : after = before)
  | claim (id : ℕ) (hunclaimed : before.claimed = false) (hclaimed : after.claimed = true)
      (hholders : after.holders = insert id before.holders) (hspent : after.spent = before.spent)
  | forfeit (hunclaimed : before.claimed = false) (hclaimed : after.claimed = true)
      (hholders : after.holders = before.holders) (hspent : after.spent = before.spent)
  | spend (id : ℕ) (hmem : id ∈ before.holders) (hclaimed : after.claimed = before.claimed)
      (hholders : after.holders = before.holders \ {id}) (hspent : after.spent = before.spent + 1)

theorem Once.spent_le {token : Token} (honce : token.Once) : token.spent ≤ 1 := by
  cases honce with
  | unclaimed _ _ hspent => omega
  | held _ _ _ hspent => omega
  | gone _ _ hspent => exact hspent

theorem Once.empty_of_unclaimed {token : Token} (honce : token.Once)
    (hunclaimed : token.claimed = false) : token.holders = ∅ ∧ token.spent = 0 := by
  cases honce with
  | unclaimed _ hholders hspent => exact ⟨hholders, hspent⟩
  | held _ hclaimed => exact absurd (hunclaimed.symm.trans hclaimed) (by decide)
  | gone hclaimed => exact absurd (hunclaimed.symm.trans hclaimed) (by decide)

/-- A token that was claimed is not claimed again, whatever the step. -/
theorem Once.step {before after : Token} (honce : before.Once) (hstep : Step before after) :
    after.Once := by
  cases hstep with
  | keep hsame => exact hsame ▸ honce
  | claim id hunclaimed hclaimed hholders hspent =>
      obtain ⟨hempty, hzero⟩ := honce.empty_of_unclaimed hunclaimed
      exact .held id hclaimed (by rw [hholders, hempty, insert_empty_eq]) (hspent.trans hzero)
  | forfeit hunclaimed hclaimed hholders hspent =>
      obtain ⟨hempty, hzero⟩ := honce.empty_of_unclaimed hunclaimed
      exact .gone hclaimed (hholders.trans hempty) (by omega)
  | spend id hmem hclaimed hholders hspent =>
      cases honce with
      | unclaimed _ hempty _ => exact absurd (hempty ▸ hmem) (Set.notMem_empty id)
      | held holder htrue hsingle hzero =>
          have hid : id = holder := by simpa [hsingle] using hmem
          refine .gone (hclaimed.trans htrue) ?_ (by omega)
          rw [hholders, hsingle, hid, Set.sdiff_self]
      | gone _ hempty _ => exact absurd (hempty ▸ hmem) (Set.notMem_empty id)

end Token

/-! ## A record of a value that may become final -/

/-- Whether the source has answered that the value is final, whether the record
says so, and the answers that observers hold but have not recorded. -/
structure View where
  answered : Bool
  recorded : Bool
  pending : Set Bool

/-- What one step may do to a view: an observer fetches an answer, records the
answer it holds, does both at once, or neither.  A source that answered "final"
goes on doing so, and nobody records that while another observer holds an older
answer. -/
inductive View.Step (before after : View) : Prop where
  | idle (hanswered : after.answered = before.answered)
      (hrecorded : after.recorded = before.recorded)
      (hpending : after.pending ⊆ before.pending)
  | answer (final : Bool) (hsource : before.answered = true → final = true)
      (hanswered : after.answered = (before.answered || final))
      (hrecorded : after.recorded = before.recorded)
      (hpending : after.pending ⊆ insert final before.pending)
  | record (final : Bool) (hheld : final ∈ before.pending)
      (hanswered : after.answered = before.answered)
      (hrecorded : after.recorded = final)
      (hpending : after.pending ⊆ before.pending)
      (halone : final = true → before.recorded = false → false ∉ after.pending)
  | observe (final : Bool) (hsource : before.answered = true → final = true)
      (hanswered : after.answered = (before.answered || final))
      (hrecorded : after.recorded = final)
      (hpending : after.pending = ∅)

structure View.Settled (view : View) : Prop where
  answered : view.recorded = true → view.answered = true
  alone : view.recorded = true → false ∉ view.pending
  fetched : true ∈ view.pending → view.answered = true

namespace View

/-- No observer holds an older answer once the final one is recorded, and a step keeps it so. -/
theorem Settled.step {before after : View} (hsettled : before.Settled)
    (hstep : Step before after) : after.Settled := by
  cases hstep with
  | idle hanswered hrecorded hpending =>
      exact {
        answered := fun htrue => hanswered.trans (hsettled.answered (hrecorded ▸ htrue))
        alone := fun htrue hmem => hsettled.alone (hrecorded ▸ htrue) (hpending hmem)
        fetched := fun hmem => hanswered.trans (hsettled.fetched (hpending hmem)) }
  | answer final hsource hanswered hrecorded hpending =>
      refine ⟨fun htrue => ?_, fun htrue hmem => ?_, fun hmem => ?_⟩
      · rw [hanswered, hsettled.answered (hrecorded ▸ htrue), Bool.true_or]
      · have hfinal := hsource (hsettled.answered (hrecorded ▸ htrue))
        rcases hpending hmem with hnew | hold
        · exact absurd (hnew.trans hfinal) (by decide)
        · exact hsettled.alone (hrecorded ▸ htrue) hold
      · rcases hpending hmem with hnew | hold
        · rw [hanswered, ← hnew, Bool.or_true]
        · rw [hanswered, hsettled.fetched hold, Bool.true_or]
  | record final hheld hanswered hrecorded hpending halone =>
      refine ⟨fun htrue => ?_, fun htrue => ?_, fun hmem => ?_⟩
      · rw [hanswered]
        exact hsettled.fetched ((hrecorded.symm.trans htrue) ▸ hheld)
      · cases hbefore : before.recorded with
        | false => exact halone (hrecorded.symm.trans htrue) hbefore
        | true => exact fun hmem => hsettled.alone hbefore (hpending hmem)
      · exact hanswered.trans (hsettled.fetched (hpending hmem))
  | observe final hsource hanswered hrecorded hpending =>
      refine ⟨fun htrue => ?_, fun _ => by simp [hpending], fun hmem => ?_⟩
      · rw [hanswered, ← hrecorded, htrue, Bool.or_true]
      · exact absurd (hpending ▸ hmem) (Set.notMem_empty true)

/-- A recorded final value is never overwritten by an older answer. -/
theorem Settled.stays {before after : View} (hsettled : before.Settled)
    (hstep : Step before after) (hrecorded : before.recorded = true) :
    after.recorded = true := by
  cases hstep with
  | idle _ hsame _ => exact hsame.trans hrecorded
  | answer _ _ _ hsame _ => exact hsame.trans hrecorded
  | record final hheld _ hafter _ _ =>
      cases final with
      | true => exact hafter
      | false => exact absurd hheld (hsettled.alone hrecorded)
  | observe final hsource _ hafter _ =>
      exact hafter.trans (hsource (hsettled.answered hrecorded))

end View

end Bookkeeping
