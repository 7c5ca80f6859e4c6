import ReuleauxCoder.History.LoadedEvents

/-!
# The repair of reused sequence numbers

Old stores wrote the exit message of a session with the number of the diagnostic before
it, and the lifecycle event after it with the next one.  The repair moves both up by one,
into the gap before the event that follows.  A repaired window is recognised no more, and
neither of the two events it moves opens a window: one is no diagnostic, the other is no
message at all.  So what the repair has done never changes what it sees next.
-/

namespace ReuleauxCoder.History

open PyText PyJson

/-- A list begins with the four events of the old pattern. -/
def startsReuse : List HistoryEvent → Bool
  | diagnostic :: exitMessage :: exitLifecycle :: following :: _ =>
      matchesLegacyBug diagnostic exitMessage exitLifecycle following
  | _ => false

/-- Every event that does not have a larger number than the one before it is the exit
message of a window of the old pattern. -/
def OnlyReuse (events : List HistoryEvent) : Prop :=
  ∀ before first second after, events = before ++ first :: second :: after →
    second.seq ≤ first.seq → startsReuse (first :: second :: after) = true

def StrictlyOrdered (events : List HistoryEvent) : Prop :=
  events.Pairwise fun first second => first.seq < second.seq

/-- An event without its number. -/
def unnumbered (event : HistoryEvent) : HistoryEvent :=
  { event with seq := 0 }

@[simp]
theorem unnumbered_seq (event : HistoryEvent) (seq : ℤ) :
    unnumbered { event with seq := seq } = unnumbered event := rfl

/-! ## One window -/

/-- An event whose payload comes from a diagnostic. -/
def fromDiagnostic (event : HistoryEvent) : Prop :=
  event.kind = lit "message_committed" ∧
    field event.payload "source" = .str (lit "session_diagnostic")

structure ReuseWindow (diagnostic exitMessage exitLifecycle following : HistoryEvent) :
    Prop where
  repeated : exitMessage.seq = diagnostic.seq
  next : exitLifecycle.seq = diagnostic.seq + 1
  gap : following.seq = diagnostic.seq + 3
  message : ¬ fromDiagnostic exitMessage
  lifecycle : ¬ fromDiagnostic exitLifecycle

theorem ReuseWindow.of_matches {diagnostic exitMessage exitLifecycle following : HistoryEvent}
    (hmatches : matchesLegacyBug diagnostic exitMessage exitLifecycle following = true) :
    ReuseWindow diagnostic exitMessage exitLifecycle following := by
  simp only [matchesLegacyBug, Bool.and_eq_true, decide_eq_true_eq] at hmatches
  have hexit := hmatches.1.1.1.1.1.1.1.2
  have hkind := hmatches.1.1.1.1.2
  constructor
  · exact hmatches.1.1.1.1.1.2
  · exact hmatches.1.2
  · exact hmatches.2
  · intro hdiagnostic
    have hsource := hexit.symm.trans hdiagnostic.2
    simp at hsource
  · intro hdiagnostic
    have hkinds := hkind.symm.trans hdiagnostic.1
    simp at hkinds

variable {event : HistoryEvent} {rest : List HistoryEvent}

theorem startsReuse_diagnostic (hstarts : startsReuse (event :: rest) = true) :
    fromDiagnostic event := by
  match rest with
  | [] | [_] | [_, _] => simp [startsReuse] at hstarts
  | _ :: _ :: _ :: _ =>
      simp only [startsReuse, matchesLegacyBug, Bool.and_eq_true, decide_eq_true_eq] at hstarts
      exact hstarts.1.1.1.1.1.1.1.1.1.1

/-! ## One step -/

theorem repairSequenceReuse_of_matches
    {diagnostic exitMessage exitLifecycle following : HistoryEvent} (rest : List HistoryEvent)
    (hmatches : matchesLegacyBug diagnostic exitMessage exitLifecycle following = true) :
    repairSequenceReuse (diagnostic :: exitMessage :: exitLifecycle :: following :: rest) =
      (diagnostic :: { exitMessage with seq := diagnostic.seq + 1 } ::
        { exitLifecycle with seq := diagnostic.seq + 2 } ::
          (repairSequenceReuse (following :: rest)).1, true) := by
  rw [repairSequenceReuse, if_pos hmatches]

theorem repairSequenceReuse_of_not_starts (hstarts : startsReuse (event :: rest) = false) :
    repairSequenceReuse (event :: rest) =
      (event :: (repairSequenceReuse rest).1, (repairSequenceReuse rest).2) := by
  match rest with
  | [] | [_] | [_, _] => simp [repairSequenceReuse]
  | _ :: _ :: _ :: _ =>
      rw [repairSequenceReuse, if_neg (by simpa [startsReuse] using hstarts)]

theorem repairSequenceReuse_of_not_diagnostic (hevent : ¬ fromDiagnostic event)
    (rest : List HistoryEvent) :
    repairSequenceReuse (event :: rest) =
      (event :: (repairSequenceReuse rest).1, (repairSequenceReuse rest).2) := by
  apply repairSequenceReuse_of_not_starts
  rw [Bool.eq_false_iff]
  exact fun hstarts => hevent (startsReuse_diagnostic hstarts)

/-- The events before the first window keep their numbers, the diagnostic included. -/
theorem repairSequenceReuse_head (event : HistoryEvent) (rest : List HistoryEvent) :
    ∃ later, (repairSequenceReuse (event :: rest)).1 = event :: later := by
  cases hstarts : startsReuse (event :: rest) with
  | false => exact ⟨_, congrArg Prod.fst (repairSequenceReuse_of_not_starts hstarts)⟩
  | true =>
      match rest with
      | [] | [_] | [_, _] => simp [startsReuse] at hstarts
      | _ :: _ :: _ :: more =>
          exact ⟨_, congrArg Prod.fst (repairSequenceReuse_of_matches more hstarts)⟩

theorem startsReuse_second {first second : HistoryEvent} (hsecond : fromDiagnostic second) :
    startsReuse (first :: second :: rest) = false := by
  match rest with
  | [] | [_] => rfl
  | _ :: _ :: _ =>
      rw [Bool.eq_false_iff]
      exact fun hstarts => (ReuseWindow.of_matches hstarts).message hsecond

theorem startsReuse_third {first second third : HistoryEvent} (hthird : fromDiagnostic third) :
    startsReuse (first :: second :: third :: rest) = false := by
  match rest with
  | [] => rfl
  | _ :: _ =>
      rw [Bool.eq_false_iff]
      exact fun hstarts => (ReuseWindow.of_matches hstarts).lifecycle hthird

/-- What is repaired later does not make a window here. -/
theorem startsReuse_cons_repaired (hstarts : startsReuse (event :: rest) = false) :
    startsReuse (event :: (repairSequenceReuse rest).1) = false := by
  match rest with
  | [] | [_] | [_, _] => simp [repairSequenceReuse, startsReuse]
  | second :: third :: following :: more =>
      -- a later window begins at the second event, at the third or after both
      by_cases hsecond : fromDiagnostic second
      · obtain ⟨later, hlater⟩ := repairSequenceReuse_head second (third :: following :: more)
        rw [hlater]
        exact startsReuse_second hsecond
      rw [repairSequenceReuse_of_not_diagnostic hsecond]
      by_cases hthird : fromDiagnostic third
      · obtain ⟨later, hlater⟩ := repairSequenceReuse_head third (following :: more)
        rw [hlater]
        exact startsReuse_third hthird
      rw [repairSequenceReuse_of_not_diagnostic hthird]
      obtain ⟨later, hlater⟩ := repairSequenceReuse_head following more
      rw [hlater]
      exact hstarts

/-- A list is repaired from its first event on: the event opens a window, or it stays. -/
theorem repairSequenceReuse_induction {motive : List HistoryEvent → Prop} (nil : motive [])
    (window : ∀ diagnostic exitMessage exitLifecycle following rest,
      matchesLegacyBug diagnostic exitMessage exitLifecycle following = true →
      motive (following :: rest) →
      motive (diagnostic :: exitMessage :: exitLifecycle :: following :: rest))
    (stay : ∀ event rest, startsReuse (event :: rest) = false → motive rest →
      motive (event :: rest))
    (events : List HistoryEvent) : motive events := by
  fun_induction repairSequenceReuse events with
  | case1 diagnostic exitMessage exitLifecycle following rest hmatches ih =>
      exact window _ _ _ _ _ hmatches ih
  | case2 diagnostic exitMessage exitLifecycle following rest hmatches later changed hlater ih =>
      exact stay _ _ (by simpa [startsReuse] using hmatches) ih
  | case3 events hshort =>
      match events with
      | [] => exact nil
      | [_] => exact stay _ _ rfl nil
      | [_, _] => exact stay _ _ rfl (stay _ _ rfl nil)
      | [_, _, _] => exact stay _ _ rfl (stay _ _ rfl (stay _ _ rfl nil))
      | _ :: _ :: _ :: _ :: _ => exact absurd rfl (hshort _ _ _ _ _)

/-- Only numbers change. -/
theorem repairSequenceReuse_unnumbered (events : List HistoryEvent) :
    (repairSequenceReuse events).1.map unnumbered = events.map unnumbered := by
  induction events using repairSequenceReuse_induction with
  | nil => rfl
  | window diagnostic exitMessage exitLifecycle following rest hmatches ih =>
      rw [repairSequenceReuse_of_matches rest hmatches]
      simp only [List.map_cons, unnumbered_seq] at ih ⊢
      rw [ih]
  | stay event rest hstarts ih =>
      rw [repairSequenceReuse_of_not_starts hstarts]
      simp only [List.map_cons, ih]

theorem repairSequenceReuse_twice (events : List HistoryEvent) :
    repairSequenceReuse (repairSequenceReuse events).1 =
      ((repairSequenceReuse events).1, false) := by
  induction events using repairSequenceReuse_induction with
  | nil => rfl
  | window diagnostic exitMessage exitLifecycle following rest hmatches ih =>
      have hwindow := ReuseWindow.of_matches hmatches
      obtain ⟨later, hlater⟩ := repairSequenceReuse_head following rest
      rw [repairSequenceReuse_of_matches rest hmatches]
      have hlifecycle : ¬ fromDiagnostic { exitLifecycle with seq := diagnostic.seq + 2 } :=
        hwindow.lifecycle
      have hmessage : ¬ fromDiagnostic { exitMessage with seq := diagnostic.seq + 1 } :=
        hwindow.message
      have hlast := repairSequenceReuse_of_not_diagnostic hlifecycle
        (repairSequenceReuse (following :: rest)).1
      have hsecond := repairSequenceReuse_of_not_diagnostic hmessage
        ({ exitLifecycle with seq := diagnostic.seq + 2 } ::
          (repairSequenceReuse (following :: rest)).1)
      rw [hlast, ih] at hsecond
      rw [repairSequenceReuse_of_not_starts, hsecond]
      rw [hlater, Bool.eq_false_iff]
      intro hagain
      -- the moved exit message no longer has the number of the diagnostic
      have hrepeated := (ReuseWindow.of_matches hagain).repeated
      simp at hrepeated
  | stay event rest hstarts ih =>
      rw [repairSequenceReuse_of_not_starts hstarts]
      rw [repairSequenceReuse_of_not_starts (startsReuse_cons_repaired hstarts), ih]

/-! ## The order -/

theorem strictlyOrdered_cons_cons (first second : HistoryEvent) (rest : List HistoryEvent) :
    StrictlyOrdered (first :: second :: rest) ↔
      first.seq < second.seq ∧ StrictlyOrdered (second :: rest) := by
  constructor
  · intro hordered
    exact ⟨List.rel_of_pairwise_cons hordered (List.mem_cons_self ..),
      List.Pairwise.of_cons hordered⟩
  · rintro ⟨hless, hordered⟩
    refine List.Pairwise.cons (fun event hevent => ?_) hordered
    rcases List.mem_cons.mp hevent with rfl | hlater
    · exact hless
    · exact hless.trans (List.rel_of_pairwise_cons hordered hlater)

theorem onlyReuse_cons_cons (first second : HistoryEvent) (rest : List HistoryEvent) :
    OnlyReuse (first :: second :: rest) ↔
      (second.seq ≤ first.seq → startsReuse (first :: second :: rest) = true) ∧
        OnlyReuse (second :: rest) := by
  constructor
  · intro honly
    exact ⟨honly [] first second rest rfl, fun before one two after hevents =>
      honly (first :: before) one two after (congrArg (first :: ·) hevents)⟩
  · rintro ⟨hfirst, honly⟩ before one two after hevents hless
    cases before with
    | nil =>
        simp only [List.nil_append, List.cons.injEq] at hevents
        obtain ⟨rfl, rfl, rfl⟩ := hevents
        exact hfirst hless
    | cons head before =>
        simp only [List.cons_append, List.cons.injEq] at hevents
        exact honly before one two after hevents.2 hless

theorem onlyReuse_short {events : List HistoryEvent} (hshort : events.length ≤ 1) :
    OnlyReuse events := by
  intro before first second after hevents
  rw [hevents, List.length_append, List.length_cons, List.length_cons] at hshort
  omega

/-- The repair removes a window, and nothing else, from what disorders a list. -/
theorem repairSequenceReuse_ordered (events : List HistoryEvent) :
    StrictlyOrdered (repairSequenceReuse events).1 ↔ OnlyReuse events := by
  induction events using repairSequenceReuse_induction with
  | nil => exact iff_of_true List.Pairwise.nil (onlyReuse_short (Nat.zero_le 1))
  | window diagnostic exitMessage exitLifecycle following rest hmatches ih =>
      have hwindow := ReuseWindow.of_matches hmatches
      have hsecond : exitMessage.seq < exitLifecycle.seq := by
        rw [hwindow.repeated, hwindow.next]
        exact lt_add_one _
      have hthird : exitLifecycle.seq < following.seq := by
        rw [hwindow.next, hwindow.gap]
        omega
      have honly : OnlyReuse (diagnostic :: exitMessage :: exitLifecycle :: following :: rest) ↔
          OnlyReuse (following :: rest) := by
        rw [onlyReuse_cons_cons, onlyReuse_cons_cons, onlyReuse_cons_cons]
        have hstarts : startsReuse
            (diagnostic :: exitMessage :: exitLifecycle :: following :: rest) = true := hmatches
        simp [hstarts, hsecond.not_ge, hthird.not_ge]
      rw [honly, ← ih, repairSequenceReuse_of_matches rest hmatches]
      obtain ⟨later, hlater⟩ := repairSequenceReuse_head following rest
      rw [hlater, strictlyOrdered_cons_cons, strictlyOrdered_cons_cons,
        strictlyOrdered_cons_cons]
      have hgap := hwindow.gap
      constructor
      · exact fun hordered => hordered.2.2.2
      · exact fun hordered => ⟨lt_add_one _, by simp, by simp; omega, hordered⟩
  | stay event rest hstarts ih =>
      rw [repairSequenceReuse_of_not_starts hstarts]
      cases rest with
      | nil => exact iff_of_true (List.pairwise_singleton _ _) (onlyReuse_short le_rfl)
      | cons second rest =>
          obtain ⟨later, hlater⟩ := repairSequenceReuse_head second rest
          rw [hlater] at ih ⊢
          rw [strictlyOrdered_cons_cons, onlyReuse_cons_cons, ih, hstarts]
          simp

/-- The repair changes nothing but numbers, it does nothing to a list that it has
repaired, and its result is strictly ordered exactly when reused numbers are all that
disorders the list. -/
theorem repair_sequence_reuse (events : List HistoryEvent) :
    (repairSequenceReuse events).1.map unnumbered = events.map unnumbered ∧
      repairSequenceReuse (repairSequenceReuse events).1 =
        ((repairSequenceReuse events).1, false) ∧
      (StrictlyOrdered (repairSequenceReuse events).1 ↔ OnlyReuse events) :=
  ⟨repairSequenceReuse_unnumbered events, repairSequenceReuse_twice events,
    repairSequenceReuse_ordered events⟩

end ReuleauxCoder.History
