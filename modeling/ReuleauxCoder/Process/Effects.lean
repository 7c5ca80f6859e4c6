import ReuleauxCoder.Process.Lifecycle

/-!
# What each action does

Every action takes at most one step of each bookkeeping law: it takes, reserves or
gives back a place, claims or spends one notification, fetches or records one
answer.
-/

namespace ReuleauxCoder.Process

open PyText PyJson Bookkeeping Function
open List hiding lookup

namespace Manager

variable {config : ManagerConfig} {manager : Manager} {id index : ℕ}

/-! ## What a step can do -/

/-- The answer that an action brings from the backend. -/
def answered (manager : Manager) : Action → Option (ℕ × ProcessSnapshot)
  | .readPoll id (some snapshot) =>
      match manager.call id with
      | .reading index _ _ => some (index, snapshot)
      | _ => none
  | .readWatch id (some snapshot) =>
      match manager.call id with
      | .watching index _ => some (index, snapshot)
      | _ => none
  | .terminate index (some snapshot) => some (index, snapshot)
  | .forceTerminate index (some (snapshot, _)) => some (index, snapshot)
  | _ => none

/-- The call whose answer an action records. -/
def recorder : Action → Option ℕ
  | .writePoll id _ | .writeWatch id _ | .writeStop id _ | .writeForced id _ => some id
  | _ => none

/-- A backend that has once said that a process exited does not take it back, and
an exit is recorded only while no other call holds an older answer. -/
structure Observes (manager : Manager) (action : Action) : Prop where
  source : ∀ index snapshot, manager.answered action = some (index, snapshot) →
    manager.reported index = true → snapshot.isExited = true
  alone : ∀ id index, recorder action = some id →
    (manager.call id).answer = some (index, true) →
    (manager.entry index).lastSnapshot.isExited = false →
    ∀ other < manager.nextCall, (manager.call other).answer ≠ some (index, false)

/-- `Observes`, checked on the answer that the action brings or records. -/
def observes (manager : Manager) (action : Action) : Bool :=
  ((manager.answered action).all fun answer =>
      !manager.reported answer.1 || answer.2.isExited) &&
    (recorder action).all fun id => (manager.call id).answer.all fun answer =>
      !answer.2 || (manager.entry answer.1).lastSnapshot.isExited ||
        (List.range manager.nextCall).all fun other =>
          (manager.call other).answer ≠ some (answer.1, false)

variable {action : Action}

theorem observes_iff : manager.observes action = true ↔ Observes manager action := by
  simp only [observes, Bool.and_eq_true, Option.all_eq_true, Bool.or_eq_true,
    Bool.not_eq_true', all_eq_true, mem_range, decide_eq_true_eq]
  constructor
  · rintro ⟨hsource, halone⟩
    refine ⟨fun index snapshot hanswered hreported => ?_,
      fun id index haction hanswer hrecorded other hother => ?_⟩
    · exact (hsource _ hanswered).resolve_left (by rw [hreported]; decide)
    · rcases halone id haction _ hanswer with (hfalse | hexited) | hothers
      · cases hfalse
      · exact absurd (hrecorded.symm.trans hexited) (by decide)
      · exact hothers other hother
  · intro hobserves
    refine ⟨fun answer hanswered => ?_, fun id haction answer hanswer => ?_⟩
    · cases hreported : manager.reported answer.1 with
      | false => exact .inl rfl
      | true => exact .inr (hobserves.source _ _ hanswered hreported)
    · obtain ⟨index, final⟩ := answer
      cases final with
      | false => exact .inl (.inl rfl)
      | true =>
          cases hrecorded : (manager.entry index).lastSnapshot.isExited with
          | true => exact .inl (.inr rfl)
          | false => exact .inr (hobserves.alone id index haction hanswer hrecorded)

instance (manager : Manager) (action : Action) : Decidable (Observes manager action) :=
  decidable_of_iff _ observes_iff

theorem Observes.answer_ne (hobserves : Observes manager action) (hwell : manager.WellFormed)
    (haction : recorder action = some id) (hanswer : (manager.call id).answer = some (index, true))
    (hrecorded : (manager.entry index).lastSnapshot.isExited = false) (other : ℕ) :
    (manager.call other).answer ≠ some (index, false) := by
  by_cases hother : other < manager.nextCall
  · exact hobserves.alone id index haction hanswer hrecorded other hother
  · rw [hwell.fresh other (Nat.le_of_not_lt hother)]
    nofun

/-- What a step can do. -/
structure Effect (config : ManagerConfig) (before : Manager) (action : Action)
    (after : Manager) : Prop where
  wellFormed : after.WellFormed
  places : Places.Step config.maxSessions before.places after.places
  registers : before.places.taken < after.places.taken → ∃ id now, action = .register id now
  tokens : ∀ index, Token.Step (before.token index) (after.token index)
  views : Observes before action → ∀ index, View.Step (before.view index) (after.view index)

theorem Quiet.effect {before after : Manager} (hquiet : Quiet before after) (action : Action) :
    Effect config before action after where
  wellFormed := hquiet.wellFormed
  places := .free hquiet.taken hquiet.waiting hquiet.joined
  registers hlt := absurd hlt (Nat.not_lt.mpr hquiet.taken)
  tokens index := .keep (hquiet.token index)
  views _ index := .idle (hquiet.answered index) (hquiet.recorded index) (hquiet.pending index)

variable {call : Call} {entry : ManagedEntry}

variable {snapshot : ProcessSnapshot}

/-- Fetching an answer adds it to those that wait to be recorded. -/
theorem step_view_fetch (hanswer : call.answer = some (index, snapshot.isExited))
    (hsource : manager.reported index = true → snapshot.isExited = true) (other : ℕ) :
    View.Step (manager.view other) (((manager.hear index snapshot).setCall id call).view other) := by
  by_cases hother : other = index
  · subst hother
    apply View.Step.answer snapshot.isExited hsource
    · simp [view, hear, setCall]
    · rfl
    · rintro final ⟨holder, hholder⟩
      by_cases hne : holder = id
      · subst hne
        simp only [setCall, update_self, hanswer, Option.some.injEq, Prod.mk.injEq,
          true_and] at hholder
        exact Or.inl hholder.symm
      · exact Or.inr ⟨holder, by simpa [setCall, hear, update_of_ne hne] using hholder⟩
  · apply View.Step.idle
    · simp [view, hear, setCall, update_of_ne hother]
    · rfl
    · rintro final ⟨holder, hholder⟩
      by_cases hne : holder = id
      · subst hne
        simp only [setCall, update_self, hanswer, Option.some.injEq,
          Prod.mk.injEq] at hholder
        exact absurd hholder.1.symm hother
      · exact ⟨holder, by simpa [setCall, hear, update_of_ne hne] using hholder⟩

/-- Recording an answer makes it the entry's, and the call holds it no longer. -/
theorem step_view_record {final : Bool} (hheld : (manager.call id).answer = some (index, final))
    (hanswer : call.answer = none) (hentry : entry.lastSnapshot.isExited = final)
    (halone : final = true → (manager.entry index).lastSnapshot.isExited = false →
      ∀ other, (manager.call other).answer ≠ some (index, false)) (other : ℕ) :
    View.Step (manager.view other) (((manager.setEntry index entry).setCall id call).view other) := by
  have hpending : ((manager.setCall id call).view other).pending ⊆ (manager.view other).pending :=
    pending_setCall hanswer other
  by_cases hother : other = index
  · subst hother
    refine .record final ⟨id, hheld⟩ rfl ?_ hpending ?_
    · simpa [view, setEntry, setCall] using hentry
    · intro hfinal hrecorded hmem
      obtain ⟨holder, hholder⟩ := hpending hmem
      exact halone hfinal hrecorded holder hholder
  · apply View.Step.idle
    · rfl
    · simp [view, setEntry, setCall, update_of_ne hother]
    · exact hpending

section Effects

section

variable (hwell : manager.WellFormed)
include hwell

theorem starts_length :
    manager.starting = manager.places.waiting + manager.places.joined := by
  rw [hwell.counted]
  have hreserved : ∀ other ∈ manager.starts, (manager.call other).reservation ≠ none :=
    fun other hmem => (hwell.reserved other).mp hmem
  simp only [places]
  generalize manager.starts = starts at hreserved
  induction starts with
  | nil => rfl
  | cons head rest ih =>
      have hrest := ih fun other hmem => hreserved other (mem_cons_of_mem head hmem)
      have hhead := hreserved head mem_cons_self
      rw [length_cons, hrest, countP_cons, countP_cons]
      rcases Option.ne_none_iff_exists'.mp hhead with ⟨joined, hjoined⟩
      cases joined <;> simp [hjoined] <;> omega

/-- A new start joins the calls and the list of reservations. -/
theorem enroll_wellFormed (request : StartRequest) :
    WellFormed { manager.spawn (.starting request) with
      starting := manager.starting + 1
      starts := manager.starts ++ [manager.nextCall] } := by
  have hcall : ∀ other, other ≠ manager.nextCall →
      (manager.spawn (.starting request)).call other = manager.call other :=
    fun other hne => update_of_ne hne _ manager.call
  have hnew : (manager.spawn (.starting request)).call manager.nextCall = .starting request :=
    update_self _ _ manager.call
  have hnotin : manager.nextCall ∉ manager.starts := by
    rw [hwell.reserved, hwell.fresh manager.nextCall le_rfl]
    simp [Call.reservation]
  exact {
    fresh := fun other hother => by
      have hle : manager.nextCall + 1 ≤ other := hother
      exact (hcall other (by omega)).trans (hwell.fresh other (by omega))
    blank := hwell.blank
    silent := hwell.silent
    known := fun other target htarget => by
      by_cases hne : other = manager.nextCall
      · subst hne
        simp only [hnew] at htarget
        cases htarget
      · simp only [hcall other hne] at htarget
        exact hwell.known other target htarget
    entries := hwell.entries
    targets := hwell.targets
    captured := hwell.captured
    nodup := by
      apply nodup_append.mpr
      refine ⟨hwell.nodup, nodup_singleton _, ?_⟩
      intro other hother new hmem heq
      rw [mem_singleton] at hmem
      exact hnotin (hmem ▸ heq ▸ hother)
    reserved := fun other => by
      by_cases hne : other = manager.nextCall
      · subst hne
        simp only [hnew]
        simp [Call.reservation]
      · simp only [hcall other hne, mem_append, mem_singleton, hne, or_false]
        exact hwell.reserved other
    counted := by
      simp [hwell.counted] }

theorem countP_enroll (request : StartRequest) (joined : Bool) :
    ((manager.starts ++ [manager.nextCall]).countP fun other =>
        ((manager.spawn (.starting request)).call other).reservation = some joined) =
      (manager.starts.countP fun other => (manager.call other).reservation = some joined) +
        if joined then 0 else 1 := by
  rw [countP_append]
  congr 1
  · apply countP_congr
    intro other hother
    have hne : other ≠ manager.nextCall := fun heq => by
      have := (hwell.reserved other).mp hother
      rw [heq, hwell.fresh manager.nextCall le_rfl] at this
      exact this rfl
    simp [spawn, setCall, update_of_ne hne]
  · cases joined <;> simp [spawn, setCall, Call.reservation]

theorem effect_reserve (request : StartRequest) (now : ℚ) :
    Effect config manager (.reserve request now) (manager.reserve config request now) := by
  unfold reserve
  split
  · exact (Quiet.refl hwell).effect _
  · have hclean := quiet_cleanupExpired config hwell now
    simp only
    split
    · exact hclean.effect _
    · rename_i hroom
      generalize manager.cleanupExpired config now = cleaned at hclean hroom
      have hstarting := starts_length hclean.wellFormed
      have hfresh := hclean.wellFormed.fresh cleaned.nextCall le_rfl
      have htoken : ∀ index, (cleaned.setCall cleaned.nextCall (.starting request)).token index =
          cleaned.token index := token_setCall (by rw [hfresh]; rfl)
      have hpending : ∀ index,
          ((cleaned.setCall cleaned.nextCall (.starting request)).view index).pending ⊆
            (cleaned.view index).pending := pending_setCall rfl
      exact {
        wellFormed := enroll_wellFormed hclean.wellFormed request
        places := by
          apply Places.Step.reserve
          · have htaken : cleaned.places.taken = cleaned.entries.length := rfl
            rw [← hclean.waiting, ← hclean.joined]
            change cleaned.entries.length + _ + _ < _
            omega
          · exact hclean.taken
          · rw [← hclean.waiting]
            exact countP_enroll hclean.wellFormed request false
          · rw [← hclean.joined]
            exact countP_enroll hclean.wellFormed request true
        registers := fun hlt => absurd hlt (Nat.not_lt.mpr hclean.taken)
        tokens := fun index => .keep ((htoken index).trans (hclean.token index))
        views := fun _ index => .idle (hclean.answered index) (hclean.recorded index)
          ((hpending index).trans (hclean.pending index)) }

theorem finish_wellFormed {joined : Bool}
    (hcall : manager.call id = .leaving joined) :
    WellFormed { manager.setCall id .done with
      starting := manager.starting - 1
      starts := manager.starts.erase id } where
  fresh other hother := by
    have hne : other ≠ id := fun heq => by
      have hlt : id < manager.nextCall := hwell.lt_nextCall (by rw [hcall]; nofun)
      have hle : manager.nextCall ≤ other := hother
      omega
    exact (update_of_ne hne _ manager.call).trans (hwell.fresh other hother)
  blank := hwell.blank
  silent := hwell.silent
  known other target htarget := by
    by_cases hne : other = id
    · subst hne
      simp [setCall, Call.target] at htarget
    · simp only [setCall, update_of_ne hne] at htarget
      exact hwell.known other target htarget
  entries := hwell.entries
  targets := hwell.targets
  captured := hwell.captured
  nodup := hwell.nodup.erase id
  reserved other := by
    by_cases hne : other = id
    · subst hne
      simp [setCall, Call.reservation, hwell.nodup.mem_erase_iff]
    · simp only [setCall, update_of_ne hne, hwell.nodup.mem_erase_iff]
      simpa [hne] using hwell.reserved other
  counted := by
    have hmem : id ∈ manager.starts := by
      rw [hwell.reserved, hcall]
      simp [Call.reservation]
    simp [hwell.counted, length_erase_of_mem hmem]

theorem countP_finish {joined : Bool}
    (hcall : manager.call id = .leaving joined) (which : Bool) :
    ((manager.starts.erase id).countP fun other =>
        ((manager.setCall id .done).call other).reservation = some which) +
        (if joined = which then 1 else 0) =
      manager.starts.countP fun other => (manager.call other).reservation = some which := by
  have hmem : id ∈ manager.starts := by
    rw [hwell.reserved, hcall]
    simp [Call.reservation]
  have hsame : ((manager.starts.erase id).countP fun other =>
        ((manager.setCall id .done).call other).reservation = some which) =
      (manager.starts.erase id).countP fun other =>
        (manager.call other).reservation = some which := by
    apply countP_congr
    intro other hother
    have hne : other ≠ id := (hwell.nodup.mem_erase_iff.mp hother).1
    simp [setCall, update_of_ne hne]
  rw [hsame, ← countP_erase (fun other => decide ((manager.call other).reservation = some which))
    hmem, hcall]
  simp [Call.reservation]

/-- A start that gives its reservation back. -/
theorem effect_finishStart :
    Effect config manager (.finishStart id) (manager.finishStart id) := by
  unfold finishStart
  split
  · rename_i joined hcall
    have hwaiting := countP_finish hwell hcall false
    have hjoined := countP_finish hwell hcall true
    have htoken : ∀ index, (manager.setCall id .done).token index = manager.token index :=
      token_setCall (by rw [hcall]; rfl)
    have hpending : ∀ index,
        ((manager.setCall id .done).view index).pending ⊆ (manager.view index).pending :=
      pending_setCall rfl
    exact {
      wellFormed := finish_wellFormed hwell hcall
      places := by
        apply Places.Step.leave
        · rfl
        · cases joined with
          | false => exact .inl ⟨hwaiting, hjoined⟩
          | true => exact .inr ⟨hwaiting, hjoined⟩
      registers := fun hlt => absurd hlt (lt_irrefl _)
      tokens := fun index => .keep (htoken index)
      views := fun _ index => .idle rfl rfl (hpending index) }
  · exact (Quiet.refl hwell).effect _

theorem enter_wellFormed
    (hfree : lookup entry.sessionId manager.entries = none)
    (hreservation : (manager.call id).reservation = some false) :
    (manager.enter id entry).WellFormed where
  fresh other hother := by
    have hlt : id < manager.nextCall := hwell.lt_nextCall fun hdone => by
      rw [hdone] at hreservation
      cases hreservation
    have hle : manager.nextCall ≤ other := hother
    have hne : other ≠ id := by omega
    exact (update_of_ne hne _ manager.call).trans (hwell.fresh other hother)
  blank index hindex := by
    have hle : manager.nextEntry + 1 ≤ index := hindex
    have hne : index ≠ manager.nextEntry := by omega
    exact (update_of_ne hne _ manager.entry).trans (hwell.blank index (by omega))
  silent index hindex := by
    have hle : manager.nextEntry + 1 ≤ index := hindex
    have hne : index ≠ manager.nextEntry := by omega
    exact (update_of_ne hne _ manager.reported).trans (hwell.silent index (by omega))
  known other target htarget := by
    by_cases hne : other = id
    · subst hne
      simp only [enter, setCall, update_self, Call.target, Option.some.injEq] at htarget
      exact htarget ▸ Nat.lt_succ_self _
    · simp only [enter, setCall, update_of_ne hne] at htarget
      exact (hwell.known other target htarget).trans (Nat.lt_succ_self _)
  entries index hmem := by
    simp only [enter, store_of_lookup_eq_none _ hfree, map_append, mem_append, map_cons, map_nil,
      mem_singleton] at hmem
    cases hmem with
    | inl hold => exact (hwell.entries index hold).trans (Nat.lt_succ_self _)
    | inr hnew => exact hnew ▸ Nat.lt_succ_self _
  targets index hmem := (hwell.targets index hmem).trans (Nat.lt_succ_self _)
  captured index hmem := (hwell.captured index hmem).trans (Nat.lt_succ_self _)
  nodup := hwell.nodup
  reserved other := by
    by_cases hne : other = id
    · subst hne
      have hmem : other ∈ manager.starts := by
        rw [hwell.reserved, hreservation]
        simp
      simp [enter, setCall, Call.reservation, setEntry, hear, hmem]
    · simp only [enter, setCall, update_of_ne hne]
      exact hwell.reserved other
  counted := hwell.counted

theorem countP_enter
    (hreservation : (manager.call id).reservation = some false) (which : Bool) :
    (manager.starts.countP fun other =>
        ((manager.enter id entry).call other).reservation = some which) +
        (if which then 0 else 1) =
      (manager.starts.countP fun other => (manager.call other).reservation = some which) +
        if which then 1 else 0 := by
  have hmem : id ∈ manager.starts := by
    rw [hwell.reserved, hreservation]
    simp
  have hcount := countP_update (fun call : Call => decide (call.reservation = some which))
    manager.call (.registered manager.nextEntry) hwell.nodup hmem
  rw [hreservation] at hcount
  cases which with
  | false => exact hcount
  | true => exact hcount

end

theorem holders_setCall_of_eq (hcompletes : call.completes = some index) :
    ((manager.setCall id call).token index).holders =
      insert id (manager.token index).holders := by
  ext other
  by_cases hne : other = id
  · subst hne
    simp [token, setCall, hcompletes]
  · simp [token, setCall, hne]

theorem holders_setCall_of_ne (hcompletes : call.completes ≠ some index) :
    ((manager.setCall id call).token index).holders = (manager.token index).holders \ {id} := by
  ext other
  by_cases hne : other = id
  · subst hne
    simp [token, setCall, hcompletes]
  · simp [token, setCall, hne]

/-- The tokens of the other entries stay as they are. -/
theorem token_setEntry_of_ne {other : ℕ} (hne : other ≠ index) (entry : ManagedEntry) :
    (manager.setEntry index entry).token other = manager.token other := by
  simp [token, setEntry, update_of_ne hne, completions]

theorem token_enter (hwell : manager.WellFormed) (hemitted : entry.completionEmitted = false)
    (hcompletes : (manager.call id).completes = none) (index : ℕ) :
    (manager.enter id entry).token index = manager.token index := by
  have hclaimed : ((manager.enter id entry).entry index).completionEmitted =
      (manager.entry index).completionEmitted := by
    by_cases hne : index = manager.nextEntry
    · subst hne
      simp [enter, setCall, hear, setEntry, hemitted, hwell.blank manager.nextEntry le_rfl]
    · simp [enter, setCall, hear, setEntry, update_of_ne hne]
  have hholders : ((manager.setCall id (.registered manager.nextEntry)).token index).holders =
      (manager.token index).holders :=
    congrArg Token.holders (token_setCall (by rw [hcompletes]; rfl) index)
  exact Token.mk.injEq .. |>.mpr ⟨hclaimed, hholders, rfl⟩

/-- Nobody holds an answer for an entry before it is registered. -/
theorem step_view_enter (hwell : manager.WellFormed) (entry : ManagedEntry) (index : ℕ) :
    View.Step (manager.view index) ((manager.enter id entry).view index) := by
  have hpending : ((manager.setCall id (.registered manager.nextEntry)).view index).pending ⊆
      (manager.view index).pending := pending_setCall rfl index
  by_cases hne : index = manager.nextEntry
  · subst hne
    have hsilent := hwell.silent manager.nextEntry le_rfl
    apply View.Step.observe entry.lastSnapshot.isExited
    · intro hanswered
      exact absurd (hsilent.symm.trans hanswered) (by decide)
    · simp [view, enter, setCall, hear, setEntry]
    · simp [view, enter, setCall, hear, setEntry]
    · apply Set.eq_empty_of_forall_notMem
      intro final hmem
      obtain ⟨other, hother⟩ := hpending hmem
      exact lt_irrefl _ (hwell.known other _ (Call.target_of_answer hother))
  · apply View.Step.idle
    · simp [view, enter, setCall, hear, setEntry, update_of_ne hne]
    · simp [view, enter, setCall, hear, setEntry, update_of_ne hne]
    · exact hpending

theorem effect_register (hwell : manager.WellFormed) (now : ℚ) :
    Effect config manager (.register id now) (manager.register id now) := by
  unfold register
  split
  · rename_i request sessionId mode initial hcall
    split
    · have hquiet : Quiet manager (manager.setCall id (.leaving false)) :=
        quiet_move hwell hcall nofun (.inl rfl) rfl rfl rfl
      exact hquiet.effect _
    · rename_i hfree
      simp only [Bool.or_eq_true, not_or, Bool.not_eq_true, Option.isSome_eq_false_iff,
        Option.isNone_iff_eq_none] at hfree
      have hreservation : (manager.call id).reservation = some false := by rw [hcall]; rfl
      generalize hentry : newEntry request sessionId mode initial now = entry
      have hkey : lookup entry.sessionId manager.entries = none := by
        rw [← hentry]
        exact hfree.2
      exact {
        wellFormed := enter_wellFormed hwell hkey hreservation
        places := by
          apply Places.Step.join
          · simp [places, enter, store_of_lookup_eq_none _ hkey]
          · exact countP_enter hwell hreservation false
          · exact countP_enter hwell hreservation true
        registers := fun _ => ⟨id, now, rfl⟩
        tokens := fun index =>
          .keep (token_enter hwell (by rw [← hentry]; rfl) (by rw [hcall]; rfl) index)
        views := fun _ index => step_view_enter hwell entry index }
  · exact (Quiet.refl hwell).effect _

variable {old : Call}

section

variable (hwell : manager.WellFormed)
include hwell

theorem effect_fetch (hcall : manager.call id = old)
    (hold : old ≠ .done) (hindex : old.target = some index) (htarget : call.target = old.target)
    (hreservation : call.reservation = old.reservation)
    (hcompletes : call.completes = old.completes)
    (hanswer : call.answer = some (index, snapshot.isExited))
    (haction : manager.answered action = some (index, snapshot)) :
    Effect config manager action ((manager.hear index snapshot).setCall id call) := by
  subst hcall
  have hknown := hwell.known id index hindex
  have hplaces : (manager.setCall id call).places = manager.places := places_setCall hreservation
  have htoken : ∀ other, (manager.setCall id call).token other = manager.token other :=
    token_setCall hcompletes
  exact {
    wellFormed := by
      apply (hwell.hear snapshot hknown).setCall hold _ hreservation
      intro other hother
      rw [htarget, hindex] at hother
      cases hother
      exact hknown
    places := .free le_rfl (congrArg Places.waiting hplaces) (congrArg Places.joined hplaces)
    registers := fun hlt => absurd hlt (lt_irrefl _)
    tokens := fun other => .keep (htoken other)
    views := fun hobserves other =>
      step_view_fetch hanswer (hobserves.source index snapshot haction) other }

/-- A worker of its own fetches an answer and waits to record it. -/
theorem effect_worker (hindex : index < manager.nextEntry)
    (htarget : call.target = some index) (hreservation : call.reservation = none)
    (hcompletes : call.completes = none) (hanswer : call.answer = some (index, snapshot.isExited))
    (haction : manager.answered action = some (index, snapshot)) :
    Effect config manager action ((manager.hear index snapshot).spawn call) := by
  have hfresh := hwell.fresh manager.nextCall le_rfl
  have hplaces : (manager.setCall manager.nextCall call).places = manager.places :=
    places_setCall (by rw [hreservation, hfresh]; rfl)
  have htoken : ∀ other, (manager.setCall manager.nextCall call).token other =
      manager.token other := token_setCall (by rw [hcompletes, hfresh]; rfl)
  exact {
    wellFormed := by
      apply (hwell.hear snapshot hindex).spawn _ hreservation
      intro other hother
      rw [htarget] at hother
      cases hother
      exact hindex
    places := .free le_rfl (congrArg Places.waiting hplaces) (congrArg Places.joined hplaces)
    registers := fun hlt => absurd hlt (lt_irrefl _)
    tokens := fun other => .keep (htoken other)
    views := fun hobserves => step_view_fetch hanswer (hobserves.source index snapshot haction) }

/-- A call that holds an answer records it and ends. -/
theorem effect_record {final : Bool} (hcall : manager.call id = old)
    (hold : old.answer = some (index, final)) (hreservation : old.reservation = none)
    (hcompletes : old.completes = none) (htarget : call.target = none)
    (hnone : call.reservation = none ∧ call.completes = none ∧ call.answer = none)
    (hemitted : entry.completionEmitted = (manager.entry index).completionEmitted)
    (hentry : entry.lastSnapshot.isExited = final) (haction : recorder action = some id) :
    Effect config manager action ((manager.setEntry index entry).setCall id call) := by
  subst hcall
  have hindex := hwell.known id index (Call.target_of_answer hold)
  have hplaces : (manager.setCall id call).places = manager.places :=
    places_setCall (hnone.1.trans hreservation.symm)
  have htoken : ∀ other, ((manager.setEntry index entry).setCall id call).token other =
      manager.token other := by
    intro other
    have hmoved : ((manager.setEntry index entry).setCall id call).token other =
        (manager.setEntry index entry).token other := by
      apply token_setCall
      exact hnone.2.1.trans hcompletes.symm
    rw [hmoved]
    by_cases hne : other = index
    · subst hne
      simp [token, setEntry, hemitted, completions]
    · exact token_setEntry_of_ne hne entry
  exact {
    wellFormed := by
      apply (hwell.setEntry entry hindex).setCall
      · intro hdone
        have hdone : manager.call id = .done := hdone
        rw [hdone] at hold
        cases hold
      · intro other hother
        rw [htarget] at hother
        cases hother
      · exact hnone.1.trans hreservation.symm
    places := .free le_rfl (congrArg Places.waiting hplaces) (congrArg Places.joined hplaces)
    registers := fun hlt => absurd hlt (lt_irrefl _)
    tokens := fun other => .keep (htoken other)
    views := fun hobserves => step_view_record hold hnone.2.2 hentry fun hfinal =>
      hobserves.answer_ne hwell haction (hfinal ▸ hold) }

theorem effect_readPoll (result : Option ProcessSnapshot) :
    Effect config manager (.readPoll id result) (manager.readPoll id result) := by
  unfold readPoll
  split
  · rename_i index request cursor hcall
    cases result with
    | none =>
        have hmove : Quiet manager (manager.setCall id .done) :=
          quiet_move hwell hcall nofun (.inl rfl) rfl rfl rfl
        have hquiet : Quiet manager
            ((manager.releaseConsumer index request.consumer).setCall id .done) :=
          { hmove with wellFormed := { hmove.wellFormed with } }
        exact hquiet.effect _
    | some snapshot =>
        exact effect_fetch hwell hcall nofun rfl rfl rfl rfl rfl (by simp [answered, hcall])
  · exact (Quiet.refl hwell).effect _

theorem effect_readWatch (result : Option ProcessSnapshot) :
    Effect config manager (.readWatch id result) (manager.readWatch id result) := by
  unfold readWatch
  split
  · rename_i index cursor hcall
    cases result with
    | none =>
        have hquiet : Quiet manager (manager.setCall id .done) :=
          quiet_move hwell hcall nofun (.inl rfl) rfl rfl rfl
        exact hquiet.effect _
    | some snapshot =>
        exact effect_fetch hwell hcall nofun rfl rfl rfl rfl rfl (by simp [answered, hcall])
  · exact (Quiet.refl hwell).effect _

end

/-- What an action does after a quiet step that the answers and entries do not show. -/
theorem Effect.of_quiet {before middle after : Manager} (hquiet : Quiet before middle)
    (heffect : Effect config middle action after) (hplaces : middle.places = before.places)
    (hviews : ∀ index, middle.view index = before.view index)
    (hobserves : Observes before action → Observes middle action) :
    Effect config before action after where
  wellFormed := heffect.wellFormed
  places := hplaces ▸ heffect.places
  registers := hplaces ▸ heffect.registers
  tokens index := hquiet.token index ▸ heffect.tokens index
  views hbefore index := hviews index ▸ heffect.views (hobserves hbefore) index

theorem effect_terminate (hwell : manager.WellFormed) (result : Option ProcessSnapshot) :
    Effect config manager (.terminate index result) (manager.terminate index result) := by
  unfold terminate
  split
  · rename_i hmem
    have hquiet : Quiet manager
        { manager with stopTargets := manager.stopTargets.erase index } :=
      { Quiet.refl hwell with
        wellFormed := { hwell with
          targets := fun other hother => hwell.targets other (mem_of_mem_erase hother) } }
    cases result with
    | none => exact hquiet.effect _
    | some snapshot =>
        have htarget : (Call.stopped index snapshot).target = some index := rfl
        exact .of_quiet hquiet (effect_worker hquiet.wellFormed (hwell.targets index hmem) htarget
          rfl rfl rfl rfl) rfl (fun _ => rfl) fun hobserves => ⟨hobserves.source, hobserves.alone⟩
  · exact (Quiet.refl hwell).effect _

theorem effect_forceTerminate (hwell : manager.WellFormed)
    (result : Option (ProcessSnapshot × Bool)) :
    Effect config manager (.forceTerminate index result)
      (manager.forceTerminate index result) := by
  unfold forceTerminate
  split
  · rename_i hmem
    have hquiet : Quiet manager
        { manager with shutdownEntries := manager.shutdownEntries.erase index } :=
      { Quiet.refl hwell with
        wellFormed := { hwell with
          captured := fun other hother => hwell.captured other (mem_of_mem_erase hother) } }
    cases result with
    | none => exact hquiet.effect _
    | some result =>
        have htarget : (Call.forced index result.1 result.2).target = some index := rfl
        exact .of_quiet hquiet (effect_worker hquiet.wellFormed (hwell.captured index hmem.1)
          htarget rfl rfl rfl rfl) rfl (fun _ => rfl)
          fun hobserves => ⟨hobserves.source, hobserves.alone⟩
  · exact (Quiet.refl hwell).effect _

/-! ## Recording -/

theorem redactSnapshot_state (entry : ManagedEntry) (consumer : Text)
    (snapshot : ProcessSnapshot) :
    (entry.redactSnapshot consumer snapshot).1.state = snapshot.state := by
  unfold ManagedEntry.redactSnapshot
  split <;> rfl

theorem redactSnapshot_isExited (entry : ManagedEntry) (consumer : Text)
    (snapshot : ProcessSnapshot) :
    (entry.redactSnapshot consumer snapshot).1.isExited = snapshot.isExited := by
  simp only [ProcessSnapshot.isExited, redactSnapshot_state]

theorem redactSnapshot_completionEmitted (entry : ManagedEntry) (consumer : Text)
    (snapshot : ProcessSnapshot) :
    (entry.redactSnapshot consumer snapshot).2.completionEmitted = entry.completionEmitted := by
  unfold ManagedEntry.redactSnapshot
  split <;> rfl

theorem pollEntry_fields (entry : ManagedEntry) (request : PollRequest)
    (snapshot : ProcessSnapshot) (now : ℚ) :
    (pollEntry entry request snapshot now).2.completionEmitted = entry.completionEmitted ∧
      (pollEntry entry request snapshot now).2.lastSnapshot.isExited = snapshot.isExited := by
  have hemitted := redactSnapshot_completionEmitted entry request.consumer snapshot
  have hexited := redactSnapshot_isExited entry request.consumer snapshot
  unfold pollEntry
  simp only
  split <;> split <;> exact ⟨hemitted, hexited⟩

theorem effect_writePoll (hwell : manager.WellFormed) (now : ℚ) :
    Effect config manager (.writePoll id now) (manager.writePoll id now) := by
  unfold writePoll
  split
  · rename_i index request snapshot hcall
    have hquiet : Quiet manager (manager.releaseConsumer index request.consumer) :=
      { Quiet.refl hwell with wellFormed := { hwell with } }
    simp only
    split
    · obtain ⟨hemitted, hexited⟩ :=
        pollEntry_fields (manager.entry index) request snapshot now
      exact .of_quiet hquiet (effect_record hquiet.wellFormed hcall rfl rfl rfl rfl ⟨rfl, rfl, rfl⟩
        hemitted hexited rfl) rfl (fun _ => rfl)
        fun hobserves => ⟨hobserves.source, hobserves.alone⟩
    · have hmove : Quiet (manager.releaseConsumer index request.consumer)
          ((manager.releaseConsumer index request.consumer).setCall id .done) :=
        quiet_move hquiet.wellFormed hcall nofun (.inl rfl) rfl rfl rfl
      exact (hquiet.trans hmove).effect _
  · exact (Quiet.refl hwell).effect _

theorem effect_writeStop (hwell : manager.WellFormed) (now : ℚ) :
    Effect config manager (.writeStop id now) (manager.writeStop id now) := by
  unfold writeStop
  split
  · rename_i index snapshot hcall
    split
    · exact effect_record hwell hcall rfl rfl rfl rfl ⟨rfl, rfl, rfl⟩
        (redactSnapshot_completionEmitted (manager.entry index) (lit "manager") snapshot)
        (redactSnapshot_isExited (manager.entry index) (lit "manager") snapshot) rfl
    · have hquiet : Quiet manager (manager.setCall id .done) :=
        quiet_move hwell hcall nofun (.inl rfl) rfl rfl rfl
      exact hquiet.effect _
  · exact (Quiet.refl hwell).effect _

theorem effect_writeForced (hwell : manager.WellFormed) (now : ℚ) :
    Effect config manager (.writeForced id now) (manager.writeForced id now) := by
  unfold writeForced
  split
  · rename_i index snapshot confirmed hcall
    split
    · cases confirmed with
      | true => exact effect_record hwell hcall rfl rfl rfl rfl ⟨rfl, rfl, rfl⟩ rfl rfl rfl
      | false => exact effect_record hwell hcall rfl rfl rfl rfl ⟨rfl, rfl, rfl⟩ rfl rfl rfl
    · have hquiet : Quiet manager (manager.setCall id .done) :=
        quiet_move hwell hcall nofun (.inl rfl) rfl rfl rfl
      exact hquiet.effect _
  · exact (Quiet.refl hwell).effect _

/-! ## Notifications -/

/-- Whoever sets `completion_emitted` announces the completion, or nobody does. -/
theorem step_token_claim {completion : Bool} (hunheld : (manager.call id).completes = none)
    (hfree : completion = true → (manager.entry index).completionEmitted = false)
    (hemitted : entry.completionEmitted =
      ((manager.entry index).completionEmitted || completion)) (hcompletes : call.completes = none ∨
      call.completes = if completion then some index else none) (other : ℕ) :
    Token.Step (manager.token other)
      (((manager.setEntry index entry).setCall id call).token other) := by
  have hself : id ∉ (manager.token other).holders := by
    simp [token, hunheld]
  by_cases hheld : call.completes = some other
  · have hclaim : completion = true ∧ index = other := by
      cases hcompletes with
      | inl hnone => rw [hnone] at hheld; cases hheld
      | inr hsome =>
          cases completion with
          | false => rw [hsome] at hheld; cases hheld
          | true =>
              rw [hsome] at hheld
              exact ⟨rfl, Option.some.inj hheld⟩
    obtain ⟨hcompletion, rfl⟩ := hclaim
    apply Token.Step.claim id (hfree hcompletion)
    · simp [token, setEntry, setCall, hemitted, hcompletion]
    · exact holders_setCall_of_eq hheld
    · rfl
  · have hholders : (((manager.setEntry index entry).setCall id call).token other).holders =
        (manager.token other).holders := by
      have hremoved : (((manager.setEntry index entry).setCall id call).token other).holders =
          (manager.token other).holders \ {id} := holders_setCall_of_ne hheld
      rw [hremoved, Set.sdiff_singleton_eq_self hself]
    by_cases hother : other = index
    · subst hother
      cases hcompletion : completion with
      | false =>
          apply Token.Step.keep
          have hclaimed : (((manager.setEntry other entry).setCall id call).token other).claimed =
              (manager.token other).claimed := by
            simp [token, setEntry, setCall, hemitted, hcompletion]
          exact Token.mk.injEq .. |>.mpr ⟨hclaimed, hholders, rfl⟩
      | true =>
          apply Token.Step.forfeit (hfree hcompletion)
          · simp [token, setEntry, setCall, hemitted, hcompletion]
          · exact hholders
          · rfl
    · apply Token.Step.keep
      have hclaimed : (((manager.setEntry index entry).setCall id call).token other).claimed =
          (manager.token other).claimed := by
        simp [token, setEntry, setCall, update_of_ne hother]
      exact Token.mk.injEq .. |>.mpr ⟨hclaimed, hholders, rfl⟩

theorem publishEntry_fields (entry : ManagedEntry) (observed : Bool) (now : ℚ) :
    (publishEntry entry observed now).2.lastSnapshot = entry.lastSnapshot ∧
      (publishEntry entry observed now).2.completionEmitted =
        (entry.completionEmitted || (publishEntry entry observed now).1) ∧
      ((publishEntry entry observed now).1 = true → entry.completionEmitted = false) := by
  unfold publishEntry
  simp only
  split <;> refine ⟨rfl, rfl, ?_⟩ <;> simp

section

variable (hwell : manager.WellFormed)
include hwell

theorem effect_publish (sessionId : Text) (observed : Bool)
    (now : ℚ) :
    Effect config manager (.publish sessionId observed now)
      (manager.publish sessionId observed now) := by
  unfold publish
  split
  · exact (Quiet.refl hwell).effect _
  · rename_i index hlookup
    have hindex := hwell.lt_of_lookup hlookup
    have hfresh := hwell.fresh manager.nextCall le_rfl
    obtain ⟨hsnapshot, hemitted, hfree⟩ :=
      publishEntry_fields (manager.entry index) observed now
    simp only
    generalize publishEntry (manager.entry index) observed now = result at *
    have hplaces : (manager.setCall manager.nextCall (.publishing index result.1)).places =
        manager.places := places_setCall (by rw [hfresh]; rfl)
    have hcompletes : (Call.publishing index result.1).completes =
        if result.1 then some index else none := by
      cases result.1 <;> rfl
    exact {
      wellFormed := by
        apply (hwell.setEntry result.2 hindex).spawn _ rfl
        intro other hother
        cases hother
        exact hindex
      places := .free le_rfl (congrArg Places.waiting hplaces) (congrArg Places.joined hplaces)
      registers := fun hlt => absurd hlt (lt_irrefl _)
      tokens := by
        have hunheld : (manager.call manager.nextCall).completes = none := by rw [hfresh]; rfl
        exact step_token_claim hunheld hfree hemitted (.inr hcompletes)
      views := fun _ other => by
        apply View.Step.idle
        · rfl
        · by_cases hne : other = index
          · subst hne
            simp [view, spawn, setCall, setEntry, hsnapshot]
          · simp [view, spawn, setCall, setEntry, update_of_ne hne]
        · exact pending_setCall rfl other }

/-- A call that holds the completion emits it and lets it go. -/
theorem effect_emit (hcall : manager.call id = old)
    (hold : old.completes = some index) (htarget : call.target = none ∨ call.target = old.target)
    (hreservation : call.reservation = old.reservation) (hcompletes : call.completes = none)
    (hanswer : call.answer = none) (snapshot : ProcessSnapshot) :
    Effect config manager action
      ((manager.emit .completed index snapshot).setCall id call) := by
  subst hcall
  have hlive : manager.call id ≠ .done := fun hdone => by
    rw [hdone] at hold
    cases hold
  have hplaces : (manager.setCall id call).places = manager.places := places_setCall hreservation
  exact {
    wellFormed := by
      have hmoved : (manager.setCall id call).WellFormed := by
        apply hwell.setCall hlive _ hreservation
        intro other hother
        cases htarget with
        | inl hnone => rw [hnone] at hother; cases hother
        | inr hsame => exact hwell.known id other (hsame ▸ hother)
      exact { hmoved with }
    places := .free le_rfl (congrArg Places.waiting hplaces) (congrArg Places.joined hplaces)
    registers := fun hlt => absurd hlt (lt_irrefl _)
    tokens := fun other => by
      have hremoved : ((manager.setCall id call).token other).holders =
          (manager.token other).holders \ {id} :=
        holders_setCall_of_ne (by rw [hcompletes]; nofun)
      by_cases hne : other = index
      · subst hne
        apply Token.Step.spend id
        · exact hold
        · rfl
        · exact hremoved
        · simp [token, completions, emit, setCall]
      · have hunheld : id ∉ (manager.token other).holders := fun hmem =>
          hne (Option.some.inj (hold.symm.trans hmem)).symm
        apply Token.Step.keep
        have hspent : ((manager.emit .completed index snapshot).setCall id call).completions
            other = manager.completions other := by
          simp [completions, emit, setCall, Ne.symm hne]
        exact Token.mk.injEq .. |>.mpr
          ⟨rfl, hremoved.trans (Set.sdiff_singleton_eq_self hunheld), hspent⟩
    views := fun _ other => .idle rfl rfl (pending_setCall hanswer other) }

theorem effect_emitCompleted :
    Effect config manager (.emitCompleted id) (manager.emitCompleted id) := by
  unfold emitCompleted
  split
  · rename_i index hcall
    apply effect_emit hwell hcall rfl
    · exact .inr rfl
    all_goals rfl
  · exact (Quiet.refl hwell).effect _

theorem effect_emitCompletion :
    Effect config manager (.emitCompletion id) (manager.emitCompletion id) := by
  unfold emitCompletion
  split
  · rename_i index snapshot hcall
    apply effect_emit hwell hcall rfl
    · exact .inl rfl
    all_goals rfl
  · exact (Quiet.refl hwell).effect _

theorem quiet_notify (kind : Option UpdateKind) (index : ℕ)
    (snapshot : ProcessSnapshot) : Quiet manager (manager.notify kind index snapshot) := by
  cases kind with
  | none => exact .refl hwell
  | some kind => cases kind <;> exact quiet_emit hwell (by decide) index snapshot

end

theorem call_notify (kind : Option UpdateKind) (index : ℕ) (snapshot : ProcessSnapshot) :
    (manager.notify kind index snapshot).call = manager.call := by
  cases kind <;> rfl

theorem watchOn_fields (index : ℕ) (snapshot : ProcessSnapshot) (completion : Bool) :
    ((watchOn index snapshot completion).target = none ∨
        (watchOn index snapshot completion).target = some index) ∧
      (watchOn index snapshot completion).reservation = none ∧
      (watchOn index snapshot completion).completes =
        (if completion then some index else none) ∧
      (watchOn index snapshot completion).answer = none := by
  unfold watchOn
  cases completion with
  | true => exact ⟨.inr rfl, rfl, rfl, rfl⟩
  | false =>
      cases snapshot.isExited with
      | true => exact ⟨.inl rfl, rfl, rfl, rfl⟩
      | false => exact ⟨.inr rfl, rfl, rfl, rfl⟩

theorem completes_updating (index : ℕ) (snapshot : ProcessSnapshot) (kind : Option UpdateKind)
    (completion : Bool) :
    (Call.updating index snapshot kind completion).completes =
      if completion then some index else none := by
  cases completion <;> rfl

/-- The watcher passes the completion on to its next notification. -/
theorem quiet_emitUpdate (hwell : manager.WellFormed) :
    Quiet manager (manager.emitUpdate id) := by
  unfold emitUpdate
  split
  · rename_i index snapshot kind completion hcall
    have hnotify := quiet_notify hwell kind index snapshot
    obtain ⟨htarget, hreservation, hcompletes, hanswer⟩ :=
      watchOn_fields index snapshot completion
    have hkept : (manager.notify kind index snapshot).call id =
        .updating index snapshot kind completion := by
      rw [call_notify, hcall]
    apply hnotify.trans
    apply quiet_move hnotify.wellFormed hkept nofun
    · exact htarget
    · exact hreservation
    · rw [hcompletes, completes_updating]
    · exact hanswer
  · exact .refl hwell

theorem watchEntry_fields (entry : ManagedEntry) (snapshot : ProcessSnapshot) (now : ℚ) :
    (watchEntry entry snapshot now).lastSnapshot.isExited = snapshot.isExited ∧
      (watchEntry entry snapshot now).completionEmitted =
        (entry.completionEmitted || completes entry snapshot) ∧
      (completes entry snapshot = true → entry.completionEmitted = false) := by
  refine ⟨redactSnapshot_isExited entry (lit "watcher") snapshot, rfl, ?_⟩
  simp [completes]

/-- The watcher records its answer and may claim the completion. -/
theorem effect_writeWatch (hwell : manager.WellFormed) (now : ℚ) :
    Effect config manager (.writeWatch id now) (manager.writeWatch id now) := by
  unfold writeWatch
  split
  · rename_i index snapshot hcall
    split
    · have hheld : (manager.call id).answer = some (index, snapshot.isExited) := by
        rw [hcall]
        rfl
      have hindex := hwell.known id index (Call.target_of_answer hheld)
      have hlive : manager.call id ≠ .done := by rw [hcall]; nofun
      have hunheld : (manager.call id).completes = none := by rw [hcall]; rfl
      have hunreserved : (manager.call id).reservation = none := by rw [hcall]; rfl
      obtain ⟨hexited, hemitted, hfree⟩ := watchEntry_fields (manager.entry index) snapshot now
      have hmoved : ∀ call : Call, call.reservation = none → call.answer = none →
          (call.target = none ∨ call.target = some index) →
          (call.completes = none ∨ call.completes =
            if completes (manager.entry index) snapshot then some index else none) →
          Effect config manager (.writeWatch id now)
            ((manager.setEntry index (watchEntry (manager.entry index) snapshot now)).setCall
              id call) := by
        intro call hreservation hanswer htarget hcompletes
        have hplaces : (manager.setCall id call).places = manager.places :=
          places_setCall (hreservation.trans hunreserved.symm)
        exact {
          wellFormed := by
            apply (hwell.setEntry _ hindex).setCall hlive _ (hreservation.trans hunreserved.symm)
            intro other hother
            cases htarget with
            | inl hnone => rw [hnone] at hother; cases hother
            | inr hsame =>
                rw [hsame] at hother
                cases hother
                exact hindex
          places := .free le_rfl (congrArg Places.waiting hplaces)
            (congrArg Places.joined hplaces)
          registers := fun hlt => absurd hlt (lt_irrefl _)
          tokens := step_token_claim hunheld hfree hemitted hcompletes
          views := fun hobserves => step_view_record hheld hanswer hexited fun hfinal =>
            hobserves.answer_ne hwell rfl (hfinal ▸ hheld) }
      simp only
      split
      · have heffect := hmoved .done rfl rfl (.inl rfl) (.inl rfl)
        have hplaces : (manager.setCall id .done).places = manager.places :=
          places_setCall hunreserved.symm
        have hwaiting : (manager.setCall id .done).places.waiting = manager.places.waiting :=
          congrArg Places.waiting hplaces
        have hjoined : (manager.setCall id .done).places.joined = manager.places.joined :=
          congrArg Places.joined hplaces
        exact {
          wellFormed := heffect.wellFormed.pop (manager.entry index).sessionId
          places := .free (PyJson.drop_sublist _ _).length_le hwaiting hjoined
          registers := fun hlt => absurd hlt (Nat.not_lt.mpr (PyJson.drop_sublist _ _).length_le)
          tokens := heffect.tokens
          views := heffect.views }
      · exact hmoved _ rfl rfl (.inr rfl) (.inr (completes_updating _ _ _ _))
    · have hquiet : Quiet manager (manager.setCall id .done) :=
        quiet_move hwell hcall nofun (.inl rfl) rfl rfl rfl
      exact hquiet.effect _
  · exact (Quiet.refl hwell).effect _

end Effects

end Manager

end ReuleauxCoder.Process
