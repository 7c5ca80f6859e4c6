import ReuleauxCoder.Tools.RuntimeIssues

/-!
# Runtime failures are published once or kept

Between two drains the pending collector is the tally of the facts it was given, and the
facts on their way to the sink are neither published nor kept.  An iteration moves a fact
from one place to another and never copies it; a count is only lost by a counter that has
reached the cap, and its fact only by moving to the number of omitted ones.
-/

namespace ReuleauxCoder.Tools

open PyText SmallestKeys List

/-! ## Facts -/

def factKey (fact : RuntimeFact) : FailureKey :=
  toLex (fact.1, fact.2.1)

/-- The occurrences in facts. -/
def factTotal (facts : List RuntimeFact) : ℕ :=
  (facts.map fun fact => fact.2.2).sum

/-- The occurrences of a key in facts. -/
def factAmount (key : FailureKey) (facts : List RuntimeFact) : ℕ :=
  (facts.map fun fact => if factKey fact = key then fact.2.2 else 0).sum

@[simp]
theorem factTotal_append (front back : List RuntimeFact) :
    factTotal (front ++ back) = factTotal front + factTotal back := by
  simp [factTotal]

@[simp]
theorem factTotal_singleton (fact : RuntimeFact) : factTotal [fact] = fact.2.2 := by
  simp [factTotal]

@[simp]
theorem factTotal_nil : factTotal [] = 0 := rfl

@[simp]
theorem factAmount_append (key : FailureKey) (front back : List RuntimeFact) :
    factAmount key (front ++ back) = factAmount key front + factAmount key back := by
  simp [factAmount]

@[simp]
theorem factAmount_nil (key : FailureKey) : factAmount key [] = 0 := rfl

theorem factAmount_singleton (key : FailureKey) (fact : RuntimeFact) :
    factAmount key [fact] = if factKey fact = key then fact.2.2 else 0 := by
  simp [factAmount]

/-- A key whose parts are what the collector makes of them. -/
def SafeKey (key : FailureKey) : Prop :=
  safeFailurePhase (ofLex key).1 = (ofLex key).1 ∧
    safeFailureErrorType (ofLex key).2 = (ofLex key).2

theorem safeFailurePhase_safe (phase : Text) :
    safeFailurePhase (safeFailurePhase phase) = safeFailurePhase phase := by
  by_cases hsafe : 0 < phase.length ∧ phase.length ≤ 64 ∧ isAscii phase ∧
      phase.all fun c => isAsciiAlphanumeric c || c ∈ lit "._-:"
  · have hphase : safeFailurePhase phase = phase := if_pos hsafe
    rw [hphase, hphase]
  · have hphase : safeFailurePhase phase = lit "post_effect" := if_neg hsafe
    rw [hphase]
    decide

theorem safeFailureErrorType_safe (errorType : Text) :
    safeFailureErrorType (safeFailureErrorType errorType) = safeFailureErrorType errorType := by
  by_cases hsafe : 0 < errorType.length ∧ errorType.length ≤ 64 ∧ isAscii errorType ∧
      errorType.filter (· ≠ ofChar '_') ≠ [] ∧
      (errorType.filter (· ≠ ofChar '_')).all isAsciiAlphanumeric
  · have hphase : safeFailureErrorType errorType = errorType := if_pos hsafe
    rw [hphase, hphase]
  · have hphase : safeFailureErrorType errorType = lit "Exception" := if_neg hsafe
    rw [hphase]
    decide

theorem safeKey_reportKey (phase : Text) (error : PyError) : SafeKey (reportKey phase error) :=
  ⟨safeFailurePhase_safe phase, safeFailureErrorType_safe _⟩

theorem safeKey_omitted :
    SafeKey (toLex (lit "post_effect", lit "AdditionalFailuresOmitted")) := by
  constructor
  · decide
  · decide

/-- A fact as collectors show it. -/
structure GoodFact (fact : RuntimeFact) : Prop where
  positive : 1 ≤ fact.2.2
  safe : SafeKey (factKey fact)

structure GoodOperation (operation : Operation FailureKey) : Prop where
  positive : 1 ≤ operation.2
  safe : ∀ key, operation.1 = some key → SafeKey key

/-! ## What a collector shows -/

abbrev FailureTally (operations : Multiset (Operation FailureKey)) (failures : Failures) : Prop :=
  Tally.Holds (failureRoom pendingRuntimeFailureLimit) postEffectFailureCountLimit operations
    failures.tally

theorem factTotal_snapshot (failures : Failures) :
    factTotal failures.snapshot = failures.tally.total := by
  have hperm : failures.tally.sorted.Perm failures.tally.counts := perm_insertionSort _ _
  have hcounts : factTotal (failures.tally.sorted.map fun entry =>
      ((ofLex entry.1).1, (ofLex entry.1).2, entry.2)) =
        (failures.tally.counts.map Prod.snd).sum := by
    rw [factTotal, map_map]
    exact (hperm.map Prod.snd).sum_eq
  rw [Failures.snapshot_eq, factTotal_append, hcounts, Tally.total]
  split
  · rename_i hnone
    rw [hnone]
    rfl
  · rw [factTotal_singleton]

section Shown

variable {operations : Multiset (Operation FailureKey)} {failures : Failures}
  (hholds : FailureTally operations failures)
include hholds

theorem goodFact_snapshot (hgood : ∀ operation ∈ operations, GoodOperation operation) :
    ∀ fact ∈ failures.snapshot, GoodFact fact := by
  intro fact hfact
  rw [Failures.snapshot_eq] at hfact
  rcases mem_append.mp hfact with hfact | hfact
  · obtain ⟨entry, hentry, rfl⟩ := mem_map.mp hfact
    have hmem : entry ∈ failures.tally.counts :=
      (perm_insertionSort _ _).subset hentry
    have hrecorded := hholds.subset entry.1 (mem_map_of_mem hmem)
    obtain ⟨operation, hoperation, hkey⟩ := (mem_recorded operations).mp hrecorded
    constructor
    · have hpositive := (hgood operation hoperation).positive
      have hcounted := hholds.counted entry hmem
      have hamount := le_amount hoperation hkey
      have hcap : 1 ≤ postEffectFailureCountLimit := by decide
      change 1 ≤ entry.2
      omega
    · exact (hgood operation hoperation).safe entry.1 hkey
  · split at hfact
    · exact absurd hfact not_mem_nil
    · rename_i hsome
      rw [mem_singleton.mp hfact]
      exact ⟨Nat.pos_of_ne_zero hsome, safeKey_omitted⟩

theorem factAmount_snapshot {key : FailureKey}
    (hkey : (ofLex key).2 ≠ lit "AdditionalFailuresOmitted") :
    factAmount key failures.snapshot ≤ amount operations key := by
  rw [Failures.snapshot_eq, factAmount_append, hholds.sorted_eq]
  have hoverflow : factAmount key (if failures.tally.overflow = 0 then []
      else [(lit "post_effect", lit "AdditionalFailuresOmitted", failures.tally.overflow)]) =
        0 := by
    split
    · rfl
    · rw [factAmount_singleton, if_neg]
      exact fun hsame => hkey (congrArg (fun key => (ofLex key).2) hsame.symm)
  rw [hoverflow, Nat.add_zero, factAmount, map_map, map_map]
  have hsum : ((smallest (failureRoom pendingRuntimeFailureLimit) operations).map fun other =>
      if other = key then min (amount operations other) postEffectFailureCountLimit
      else 0).sum ≤ amount operations key := by
    rw [← sum_toFinset _ (Tally.smallest_nodup _ operations), Finset.sum_ite_eq']
    split
    · exact min_le_left _ _
    · exact Nat.zero_le _
  exact hsum

end Shown

/-! ## The failures of one step -/

/-- Occurrences of keys, in the order in which they are recorded. -/
def occurrencesOf (keys : List FailureKey) : List (Operation FailureKey) :=
  keys.map fun key => (some key, 1)

/-- A collector with the default limit that has recorded keys. -/
def Collected (keys : List FailureKey) (failures : Failures) : Prop :=
  failures.tally = Tally.run (failureRoom pendingRuntimeFailureLimit)
    postEffectFailureCountLimit (occurrencesOf keys)

theorem Collected.empty : Collected [] {} := rfl

theorem tally_record (failures : Failures) (phase : Text) (error : PyError) :
    (failures.record phase (safeExceptionType error)).tally =
      failures.tally.apply (failureRoom pendingRuntimeFailureLimit) postEffectFailureCountLimit
        (some (reportKey phase error), 1) := by
  rw [Failures.record, Failures.recordCount_eq failures phase _ Nat.one_pos,
    Failures.tally_recordWithin]
  rfl

variable {keys : List FailureKey}

theorem Collected.record {failures : Failures} (hcollected : Collected keys failures) (phase : Text)
    (error : PyError) :
    Collected (keys ++ [reportKey phase error])
      (failures.record phase (safeExceptionType error)) := by
  unfold Collected at hcollected ⊢
  rw [tally_record, hcollected, occurrencesOf, occurrencesOf, Tally.run, Tally.run,
    map_append, foldl_append]
  rfl

theorem Collected.requestStop {failures : Failures} (hcollected : Collected keys failures)
    (replies : StopReplies) :
    Collected (keys ++ replies.errors.map (reportKey (lit "post_effect")))
      (requestStopSafely replies failures) := by
  obtain ⟨stopRequested, requestStop⟩ := replies
  cases stopRequested with
  | error error =>
      have hfirst := hcollected.record (lit "post_effect") error
      cases requestStop with
      | error other =>
          have hboth := hfirst.record (lit "post_effect") other
          rw [append_assoc] at hboth
          exact hboth
      | ok _ => exact hfirst
  | ok requested =>
      cases requested with
      | true =>
          rw [StopReplies.errors, map_nil, append_nil]
          exact hcollected
      | false =>
          cases requestStop with
          | error other => exact hcollected.record (lit "post_effect") other
          | ok _ =>
              rw [StopReplies.errors, map_nil, append_nil]
              exact hcollected

theorem Collected.capture {failures : Failures} (hcollected : Collected keys failures)
    (replies : StopReplies) (phase : Text) (error : PyError) :
    Collected (keys ++ capturedKeys replies phase error)
      (capturePostEffectFailure replies failures phase error) := by
  have hfirst := hcollected.record phase error
  rw [capturedKeys, capturePostEffectFailure]
  split
  · exact hfirst
  · have hstopped := hfirst.requestStop replies
    rw [append_assoc] at hstopped
    exact hstopped

theorem Collected.holds {failures : Failures} (hcollected : Collected keys failures) :
    FailureTally (occurrencesOf keys : Multiset (Operation FailureKey)) failures := by
  have hrun := Tally.holds_run (failureRoom pendingRuntimeFailureLimit)
    postEffectFailureCountLimit (occurrencesOf keys)
  rw [FailureTally, hcollected]
  exact hrun

theorem occurrences_occurrencesOf (keys : List FailureKey) :
    Tally.occurrences (occurrencesOf keys : Multiset (Operation FailureKey)) = keys.length := by
  rw [Tally.occurrences, Multiset.map_coe, Multiset.sum_coe, occurrencesOf, map_map]
  induction keys with
  | nil => rfl
  | cons key rest ih =>
      rw [map_cons, sum_cons, ih, length_cons, Nat.add_comm]
      rfl

theorem amount_occurrencesOf (keys : List FailureKey) (key : FailureKey) :
    amount (occurrencesOf keys : Multiset (Operation FailureKey)) key = keys.count key := by
  induction keys with
  | nil => rfl
  | cons first rest ih =>
      rw [occurrencesOf, map_cons, ← Multiset.cons_coe, amount_cons, ← occurrencesOf, ih,
        count_cons]
      by_cases hkey : first = key
      · subst hkey
        simp [Nat.add_comm]
      · simp [hkey]

theorem Collected.factTotal_eq {failures : Failures} (hcollected : Collected keys failures)
    (hfew : keys.length < postEffectFailureCountLimit) :
    factTotal failures.snapshot = keys.length := by
  have hholds := hcollected.holds
  rw [← occurrences_occurrencesOf] at hfew ⊢
  rw [factTotal_snapshot]
  exact hholds.total_eq (hholds.below hfew)

theorem Collected.good {failures : Failures} (hcollected : Collected keys failures)
    (hsafe : ∀ key ∈ keys, SafeKey key) : ∀ fact ∈ failures.snapshot, GoodFact fact := by
  apply goodFact_snapshot hcollected.holds
  intro operation hoperation
  obtain ⟨key, hkey, rfl⟩ := mem_map.mp (Multiset.mem_coe.mp hoperation)
  exact ⟨le_rfl, fun other hother => Option.some.inj hother ▸ hsafe key hkey⟩

theorem recorded_occurrencesOf (keys : List FailureKey) :
    recorded (occurrencesOf keys : Multiset (Operation FailureKey)) = keys.toFinset := by
  ext key
  rw [mem_recorded, mem_toFinset]
  constructor
  · rintro ⟨operation, hmem, hkey⟩
    obtain ⟨other, hother, rfl⟩ := mem_map.mp (Multiset.mem_coe.mp hmem)
    exact Option.some.inj hkey ▸ hother
  · intro hkey
    exact ⟨(some key, 1), Multiset.mem_coe.mpr (mem_map_of_mem hkey), rfl⟩

/-- Few failures are shown as one fact for each key. -/
theorem Collected.length_snapshot {failures : Failures} (hcollected : Collected keys failures)
    (hfew : keys.length ≤ failureRoom pendingRuntimeFailureLimit) :
    failures.snapshot.length = keys.dedup.length := by
  have hholds := hcollected.holds
  have hroom : (recorded (occurrencesOf keys : Multiset (Operation FailureKey))).card ≤
      failureRoom pendingRuntimeFailureLimit := by
    rw [recorded_occurrencesOf]
    exact (toFinset_card_le keys).trans hfew
  have hnone : failures.tally.overflow = 0 := by
    rw [hholds.overflow_eq, Tally.besides_of_few hroom, Nat.zero_min]
    intro operation hmem
    obtain ⟨key, -, rfl⟩ := mem_map.mp (Multiset.mem_coe.mp hmem)
    exact ⟨key, rfl⟩
  rw [Failures.snapshot_eq, if_pos hnone, append_nil, length_map, hholds.sorted_eq,
    length_map, Tally.smallest_of_few hroom, Finset.length_sort, recorded_occurrencesOf,
    card_toFinset]

theorem length_errors (replies : StopReplies) : replies.errors.length ≤ 2 := by
  obtain ⟨stopRequested, requestStop⟩ := replies
  rcases stopRequested with _ | _ | _ <;> rcases requestStop with _ | _ <;>
    simp [StopReplies.errors]

theorem safeKey_errors (replies : StopReplies) :
    ∀ key ∈ replies.errors.map (reportKey (lit "post_effect")), SafeKey key := by
  intro key hkey
  obtain ⟨error, -, rfl⟩ := mem_map.mp hkey
  exact safeKey_reportKey _ error

theorem length_capturedKeys (replies : StopReplies) (phase : Text) (error : PyError) :
    (capturedKeys replies phase error).length ≤ 3 := by
  have hlength := length_errors replies
  rw [capturedKeys, length_cons]
  split
  · exact Nat.succ_le_succ (Nat.zero_le _)
  · rw [length_map]
    exact Nat.succ_le_succ hlength

theorem safeKey_capturedKeys (replies : StopReplies) (phase : Text) (error : PyError) :
    ∀ key ∈ capturedKeys replies phase error, SafeKey key := by
  intro key hkey
  rw [capturedKeys, mem_cons] at hkey
  rcases hkey with rfl | hkey
  · exact safeKey_reportKey phase error
  · split at hkey
    · exact absurd hkey not_mem_nil
    · exact safeKey_errors replies key hkey

/-! ## What is kept -/

/-- What is recorded when a fact is kept. -/
def retainOperation (fact : RuntimeFact) : Operation FailureKey :=
  if fact.2.1 = lit "AdditionalFailuresOmitted" then (none, fact.2.2)
  else (some (factKey fact), fact.2.2)

variable {fact : RuntimeFact}

theorem goodOperation_retain (hgood : GoodFact fact) : GoodOperation (retainOperation fact) := by
  rw [retainOperation]
  split
  · exact ⟨hgood.positive, fun key hkey => absurd hkey (by simp)⟩
  · exact ⟨hgood.positive, fun key hkey => Option.some.inj hkey ▸ hgood.safe⟩

theorem tally_retainFact (pending : Failures) (hgood : GoodFact fact) :
    (retainFact pending fact).tally =
      pending.tally.apply (failureRoom pendingRuntimeFailureLimit) postEffectFailureCountLimit
        (retainOperation fact) := by
  have hpositive := hgood.positive
  rw [retainFact, retainOperation]
  split
  · have hcount : fact.2.2 ≠ 0 := by omega
    rw [Failures.omitObject, Int.toNat_natCast, Failures.omitted, if_neg hcount]
    rfl
  · have hcount : failureCount (some (fact.2.2 : ℤ)) = fact.2.2 := by
      rw [failureCount, if_pos (by exact_mod_cast hpositive), Int.toNat_natCast]
    have hphase : failurePhase (some fact.1) = fact.1 := hgood.safe.1
    have htype : failureErrorType (some fact.2.1) = fact.2.1 := hgood.safe.2
    rw [Failures.tally_recordWithin, hcount, hphase, htype]
    rfl

theorem amount_retain {key : FailureKey}
    (hkey : (ofLex key).2 ≠ lit "AdditionalFailuresOmitted") (fact : RuntimeFact)
    (operations : Multiset (Operation FailureKey)) :
    amount (retainOperation fact ::ₘ operations) key =
      factAmount key [fact] + amount operations key := by
  rw [amount_cons, factAmount_singleton, retainOperation]
  congr 1
  by_cases homitted : fact.2.1 = lit "AdditionalFailuresOmitted"
  · have hother : factKey fact ≠ key := by
      intro hsame
      apply hkey
      rw [← hsame]
      exact homitted
    rw [if_pos homitted, if_neg hother, if_neg (by simp)]
  · rw [if_neg homitted]
    by_cases hsame : factKey fact = key
    · rw [if_pos hsame, if_pos (congrArg some hsame)]
    · rw [if_neg hsame, if_neg fun heq => hsame (Option.some.inj heq)]

theorem occurrences_retain (fact : RuntimeFact)
    (operations : Multiset (Operation FailureKey)) :
    Tally.occurrences (retainOperation fact ::ₘ operations) =
      fact.2.2 + Tally.occurrences operations := by
  rw [Tally.occurrences, Multiset.map_cons, Multiset.sum_cons, retainOperation]
  split <;> rfl

/-! ## The account -/

/-- Every failure that was recorded is published, pending or one of the facts in hand; it may
only be lost in a collector that was drained with a counter at the cap. -/
structure Accounted (reported : List FailureKey) (drained : List Failures)
    (operations : Multiset (Operation FailureKey)) (issues : RuntimeIssues)
    (facts : List RuntimeFact) : Prop where
  holds : FailureTally operations issues.pending
  goodOperations : ∀ operation ∈ operations, GoodOperation operation
  goodFacts : ∀ fact ∈ facts, GoodFact fact
  counted : ∀ key, (ofLex key).2 ≠ lit "AdditionalFailuresOmitted" →
    amount operations key + factAmount key issues.published + factAmount key facts ≤
      reported.count key
  total : (∀ failures ∈ drained, failures.tally.Below postEffectFailureCountLimit) →
    Tally.occurrences operations + factTotal issues.published + factTotal facts =
      reported.length

/-- The same for some operations on the pending collector. -/
def Conserved (reported : List FailureKey) (drained : List Failures) (issues : RuntimeIssues)
    (facts : List RuntimeFact) : Prop :=
  ∃ operations, Accounted reported drained operations issues facts

theorem Accounted.start : Accounted [] [] 0 {} [] where
  holds := .empty _ _
  goodOperations := fun _ hoperation => absurd hoperation (Multiset.notMem_zero _)
  goodFacts := fun _ hfact => absurd hfact not_mem_nil
  counted := fun _ _ => le_rfl
  total := fun _ => rfl

section Account

variable {reported : List FailureKey} {drained : List Failures}
  {operations : Multiset (Operation FailureKey)} {issues : RuntimeIssues}
  {facts : List RuntimeFact}

theorem Accounted.accept (haccount : Accounted reported drained operations issues (fact :: facts)) :
    Accounted reported drained operations (issues.accept fact) facts where
  holds := haccount.holds
  goodOperations := haccount.goodOperations
  goodFacts := fun other hother => haccount.goodFacts other (mem_cons_of_mem _ hother)
  counted := by
    intro key hkey
    have hcounted := haccount.counted key hkey
    rw [← singleton_append, factAmount_append] at hcounted
    calc amount operations key + factAmount key (issues.published ++ [fact]) +
          factAmount key facts
        = amount operations key + factAmount key issues.published +
            (factAmount key [fact] + factAmount key facts) := by
          rw [factAmount_append]
          omega
      _ ≤ reported.count key := hcounted
  total := by
    intro hbelow
    have htotal := haccount.total hbelow
    rw [← singleton_append, factTotal_append] at htotal
    calc Tally.occurrences operations + factTotal (issues.published ++ [fact]) + factTotal facts
        = Tally.occurrences operations + factTotal issues.published +
            (factTotal [fact] + factTotal facts) := by
          rw [factTotal_append]
          omega
      _ = reported.length := htotal

theorem Accounted.retainFact
    (haccount : Accounted reported drained operations issues (fact :: facts)) :
    Accounted reported drained (retainOperation fact ::ₘ operations) (issues.retain [fact])
      facts where
  holds := by
    have hgood := haccount.goodFacts fact (mem_cons_self ..)
    have happly := haccount.holds.apply (retainOperation fact)
    rw [← tally_retainFact issues.pending hgood] at happly
    exact happly
  goodOperations := by
    intro operation hoperation
    rcases Multiset.mem_cons.mp hoperation with rfl | hoperation
    · exact goodOperation_retain (haccount.goodFacts fact (mem_cons_self ..))
    · exact haccount.goodOperations operation hoperation
  goodFacts := fun other hother => haccount.goodFacts other (mem_cons_of_mem _ hother)
  counted := by
    intro key hkey
    have hcounted := haccount.counted key hkey
    rw [← singleton_append, factAmount_append] at hcounted
    rw [amount_retain hkey]
    change _ + factAmount key issues.published + _ ≤ _
    omega
  total := by
    intro hbelow
    have htotal := haccount.total hbelow
    rw [← singleton_append, factTotal_append, factTotal_singleton] at htotal
    rw [occurrences_retain]
    change _ + factTotal issues.published + _ = _
    omega

/-- Keeping facts leaves none in hand. -/
theorem Accounted.retain (haccount : Accounted reported drained operations issues facts) :
    Conserved reported drained (issues.retain facts) [] := by
  induction facts generalizing operations issues with
  | nil => exact ⟨operations, haccount⟩
  | cons fact rest ih => exact ih haccount.retainFact

/-- What a step has recorded comes in hand. -/
theorem Accounted.report (haccount : Accounted reported drained operations issues facts)
    {failures : Failures} (hcollected : Collected keys failures)
    (hfew : keys.length < postEffectFailureCountLimit) (hsafe : ∀ key ∈ keys, SafeKey key) :
    Accounted (reported ++ keys) drained operations issues (facts ++ failures.snapshot) where
  holds := haccount.holds
  goodOperations := haccount.goodOperations
  goodFacts := by
    intro fact hfact
    rcases mem_append.mp hfact with hfact | hfact
    · exact haccount.goodFacts fact hfact
    · exact hcollected.good hsafe fact hfact
  counted := by
    intro key hkey
    have hcounted := haccount.counted key hkey
    have hshown := factAmount_snapshot hcollected.holds hkey
    rw [amount_occurrencesOf] at hshown
    rw [factAmount_append, count_append]
    omega
  total := by
    intro hbelow
    have htotal := haccount.total hbelow
    rw [factTotal_append, hcollected.factTotal_eq hfew, length_append]
    omega

theorem Accounted.drain (haccount : Accounted reported drained operations issues []) :
    Accounted reported (drained ++ [issues.pending]) 0 issues.drain.2 issues.drain.1 where
  holds := .empty _ _
  goodOperations := fun _ hoperation => absurd hoperation (Multiset.notMem_zero _)
  goodFacts := goodFact_snapshot haccount.holds haccount.goodOperations
  counted := by
    intro key hkey
    have hcounted := haccount.counted key hkey
    have hshown := factAmount_snapshot haccount.holds hkey
    rw [factAmount_nil] at hcounted
    change 0 + factAmount key issues.published + factAmount key issues.pending.snapshot ≤ _
    omega
  total := by
    intro hbelow
    have htotal := haccount.total fun failures hfailures =>
      hbelow failures (mem_append_left _ hfailures)
    have hshown : factTotal issues.pending.snapshot = Tally.occurrences operations := by
      rw [factTotal_snapshot]
      exact haccount.holds.total_eq (hbelow issues.pending (by simp))
    rw [factTotal_nil] at htotal
    change 0 + factTotal issues.published + factTotal issues.pending.snapshot = _
    omega

/-! ## Every step -/

/-- Publishing takes the facts in hand to the sink or to the pending collector, and the failure
of the sink to the pending collector. -/
theorem Accounted.publish (haccount : Accounted reported drained operations issues facts)
    (replies : PublishReplies) (index : ℕ) :
    Conserved (reported ++ replies.reports index facts.length) drained
      (RuntimeIssues.publish replies index issues facts).1 [] := by
  induction facts generalizing index issues with
  | nil =>
      rw [length_nil, PublishReplies.reports, append_nil]
      exact ⟨operations, haccount⟩
  | cons fact rest ih =>
      rw [RuntimeIssues.publish, length_cons, PublishReplies.reports]
      cases (replies.sink index).error? with
      | none => exact ih haccount.accept (index + 1)
      | some error =>
          obtain ⟨kept, hkept⟩ := haccount.retain
          have hcollected := Collected.empty.capture replies.stop (lit "runtime_issue_publish")
            error
          have hfew := length_capturedKeys replies.stop (lit "runtime_issue_publish") error
          have hreported := hkept.report hcollected
            (hfew.trans_lt (by decide : 3 < postEffectFailureCountLimit))
            (safeKey_capturedKeys replies.stop _ error)
          exact hreported.retain

/-- A publication fails where the sink's replies record a failure. -/
theorem publish_failed (replies : PublishReplies) (index : ℕ) (issues : RuntimeIssues)
    (facts : List RuntimeFact) :
    (RuntimeIssues.publish replies index issues facts).2.2 =
      !(replies.reports index facts.length).isEmpty := by
  induction facts generalizing index issues with
  | nil => rfl
  | cons fact rest ih =>
      rw [RuntimeIssues.publish, length_cons, PublishReplies.reports]
      cases (replies.sink index).error? with
      | none => exact ih (index + 1) (issues.accept fact)
      | some error => rfl

/-- What a queued failure has collected when it is published. -/
theorem collected_captured (issues : RuntimeIssues) (replies : QueueReplies) (phase : Text)
    (error : PyError) :
    ∃ failures, Collected (replies.captured phase error) failures ∧
      issues.queueBatchRuntimeFailure phase error replies =
        (RuntimeIssues.publish replies.publish 0 issues failures.snapshot).1 := by
  have hfirst := Collected.empty.capture replies.captureStop phase error
  rw [RuntimeIssues.queueBatchRuntimeFailure, QueueReplies.captured]
  cases replies.emit with
  | none =>
      rw [append_nil]
      exact ⟨_, hfirst, rfl⟩
  | some emitError =>
      exact ⟨_, hfirst.capture replies.emitStop (lit "post_effect_diagnostic") emitError, rfl⟩

theorem length_captured (replies : QueueReplies) (phase : Text) (error : PyError) :
    (replies.captured phase error).length ≤ 6 := by
  have hfirst := length_capturedKeys replies.captureStop phase error
  rw [QueueReplies.captured, length_append]
  cases replies.emit with
  | none => exact (Nat.add_le_add hfirst (Nat.zero_le 3)).trans le_rfl
  | some emitError =>
      exact Nat.add_le_add hfirst
        (length_capturedKeys replies.emitStop (lit "post_effect_diagnostic") emitError)

theorem safeKey_captured (replies : QueueReplies) (phase : Text) (error : PyError) :
    ∀ key ∈ replies.captured phase error, SafeKey key := by
  intro key hkey
  rw [QueueReplies.captured] at hkey
  rcases mem_append.mp hkey with hkey | hkey
  · exact safeKey_capturedKeys replies.captureStop phase error key hkey
  · cases hemit : replies.emit with
    | none =>
        rw [hemit] at hkey
        cases hkey
    | some emitError =>
        rw [hemit] at hkey
        exact safeKey_capturedKeys replies.emitStop _ emitError key hkey

section

variable (haccount : Accounted reported drained operations issues [])
include haccount

theorem Accounted.queue
    (phase : Text) (error : PyError) (replies : QueueReplies) :
    Conserved (reported ++ replies.reports phase error) drained
      (issues.queueBatchRuntimeFailure phase error replies) [] := by
  obtain ⟨failures, hcollected, hqueue⟩ := collected_captured issues replies phase error
  have hlength := length_captured replies phase error
  have hreported := haccount.report hcollected
    (hlength.trans_lt (by decide : 6 < postEffectFailureCountLimit))
    (safeKey_captured replies phase error)
  have hpublished := hreported.publish replies.publish 0
  rw [nil_append, hcollected.length_snapshot (hlength.trans (by decide)),
    append_assoc] at hpublished
  rw [hqueue]
  exact hpublished

/-- The attempts of a flush; when all of them fail, the stop request is still to be made. -/
theorem Accounted.attempts
    (replies : FlushReplies) (attempts published : ℕ) :
    let result := RuntimeIssues.flushAttempts replies.publish attempts published issues
    let reports := RuntimeIssues.flushReports replies attempts issues
    let drains := RuntimeIssues.flushDrains replies attempts issues
    (∀ count, result.2 = some count →
      Conserved (reported ++ reports) (drained ++ drains) result.1 []) ∧
    (result.2 = none → ∃ keys,
      reports = keys ++ replies.stop.errors.map (reportKey (lit "post_effect")) ∧
        Conserved (reported ++ keys) (drained ++ drains) result.1 []) := by
  induction attempts generalizing reported drained operations issues published with
  | zero =>
      intro result reports drains
      refine ⟨fun _ hsome => (by cases hsome), fun _ => ⟨[], rfl, ?_⟩⟩
      rw [append_nil]
      have hdrains : drained ++ drains = drained := append_nil _
      rw [hdrains]
      exact ⟨operations, haccount⟩
  | succ attempts ih =>
      have hdrained := haccount.drain
      have hfacts : issues.drain.1 = issues.pending.snapshot := rfl
      rw [RuntimeIssues.flushAttempts, RuntimeIssues.flushReports, RuntimeIssues.flushDrains]
      dsimp only
      by_cases hempty : issues.drain.1 = []
      · have hnone : issues.pending.snapshot.length = 0 := by rw [← hfacts, hempty]; rfl
        rw [if_pos hempty, hnone, PublishReplies.reports]
        refine ⟨fun _ _ => ?_, fun hnone => by cases hnone⟩
        rw [append_nil]
        rw [hempty] at hdrained
        exact ⟨0, hdrained⟩
      · rw [if_neg hempty]
        have hpublished := hdrained.publish (replies.publish attempts) 0
        have hfailed := publish_failed (replies.publish attempts) 0 issues.drain.2 issues.drain.1
        rw [hfacts] at hpublished hfailed
        rw [hfacts]
        cases hkeys : (replies.publish attempts).reports 0 issues.pending.snapshot.length with
        | nil =>
            rw [hkeys] at hpublished hfailed
            rw [if_neg (by rw [hfailed]; exact Bool.false_ne_true)]
            exact ⟨fun _ _ => hpublished, fun hnone => by cases hnone⟩
        | cons key keys =>
            rw [hkeys] at hpublished hfailed
            rw [if_pos (by rw [hfailed]; rfl)]
            obtain ⟨kept, hkept⟩ := hpublished
            obtain ⟨hsome, hnone⟩ := ih hkept
              (published + (RuntimeIssues.publish (replies.publish attempts) 0 issues.drain.2
                issues.pending.snapshot).2.1)
            have hreports : ∀ others : List FailureKey,
                reported ++ (key :: keys ++ others) = reported ++ (key :: keys) ++ others :=
              fun others => (append_assoc ..).symm
            have hdrains : ∀ others : List Failures,
                drained ++ issues.pending :: others = drained ++ [issues.pending] ++ others :=
              fun others => by simp
            constructor
            · intro count hcount
              rw [hreports, hdrains]
              exact hsome count hcount
            · intro hall
              obtain ⟨others, hothers, hconserved⟩ := hnone hall
              refine ⟨key :: keys ++ others, ?_, ?_⟩
              · rw [append_assoc, ← hothers]
                rfl
              · rw [hreports, hdrains]
                exact hconserved

theorem Accounted.flush
    (replies : FlushReplies) :
    Conserved (reported ++ RuntimeIssues.flushReports replies runtimeFailurePublishAttempts issues)
      (drained ++ RuntimeIssues.flushDrains replies runtimeFailurePublishAttempts issues)
      (issues.flushPendingRuntimeIssues replies).1 [] := by
  obtain ⟨hsome, hnone⟩ := haccount.attempts replies runtimeFailurePublishAttempts 0
  rw [RuntimeIssues.flushPendingRuntimeIssues]
  generalize RuntimeIssues.flushAttempts replies.publish runtimeFailurePublishAttempts 0 issues =
    result at hsome hnone
  obtain ⟨flushed, outcome⟩ := result
  cases outcome with
  | some published => exact hsome published rfl
  | none =>
      obtain ⟨keys, hkeys, kept, hkept⟩ := hnone rfl
      have hcollected := Collected.empty.requestStop replies.stop
      have hfew : (replies.stop.errors.map (reportKey (lit "post_effect"))).length ≤ 2 := by
        rw [length_map]
        exact length_errors replies.stop
      have hreported := hkept.report hcollected
        (hfew.trans_lt (by decide : 2 < postEffectFailureCountLimit))
        (safeKey_errors replies.stop)
      rw [hkeys, ← append_assoc]
      exact hreported.retain

end

/-- Each call keeps the account, of the failures that it records by its replies. -/
theorem Conserved.call (hconserved : Conserved reported drained issues []) (call : RuntimeCall) :
    Conserved (reported ++ issues.reports call) (drained ++ issues.drains call)
      (issues.call call) [] := by
  obtain ⟨operations, haccount⟩ := hconserved
  cases call with
  | queue phase error replies =>
      rw [RuntimeIssues.drains, append_nil]
      exact haccount.queue phase error replies
  | flush replies => exact haccount.flush replies

end Account

/-- So does any sequence of calls. -/
theorem conserved_runRuntimeCalls (calls : List RuntimeCall) :
    Conserved (RuntimeIssues.reportedBy {} calls) (RuntimeIssues.drainedBy {} calls)
      (runRuntimeCalls calls) [] := by
  have hrun : ∀ reported drained issues, Conserved reported drained issues [] →
      Conserved (reported ++ RuntimeIssues.reportedBy issues calls)
        (drained ++ RuntimeIssues.drainedBy issues calls)
        (calls.foldl RuntimeIssues.call issues) [] := by
    induction calls with
    | nil =>
        intro reported drained issues hconserved
        rw [RuntimeIssues.reportedBy, RuntimeIssues.drainedBy, append_nil, append_nil]
        exact hconserved
    | cons call rest ih =>
        intro reported drained issues hconserved
        rw [RuntimeIssues.reportedBy, RuntimeIssues.drainedBy, ← append_assoc,
          ← append_assoc]
        exact ih _ _ _ (hconserved.call call)
  exact hrun [] [] {} ⟨0, .start⟩

/-- What a collector shows depends on its calls and not on their order.  Of the failures that
calls record, told from the calls and the replies to them, the sink has taken each once or it is
pending: no key appears more often than it was recorded, and unless a counter reached the cap,
nothing is lost. -/
theorem failures_conserved :
    (∀ (limit : ℤ) (calls : List FailureCall), (collectFailures limit calls).snapshot =
      failureSummary limit (calls : Multiset FailureCall)) ∧
    ∀ calls : List RuntimeCall,
      let issues := runRuntimeCalls calls
      let reported := RuntimeIssues.reportedBy {} calls
      let facts := issues.published ++ issues.pending.snapshot
      (∀ key, (ofLex key).2 ≠ lit "AdditionalFailuresOmitted" →
        factAmount key facts ≤ reported.count key) ∧
      ((∀ failures ∈ RuntimeIssues.drainedBy {} calls ++ [issues.pending],
          failures.tally.Below postEffectFailureCountLimit) →
        factTotal facts = reported.length) := by
  constructor
  · exact snapshot_collectFailures
  · intro calls issues reported facts
    obtain ⟨operations, haccount⟩ := conserved_runRuntimeCalls calls
    constructor
    · intro key hkey
      have hcounted := haccount.counted key hkey
      have hshown := factAmount_snapshot haccount.holds hkey
      rw [factAmount_nil, Nat.add_zero] at hcounted
      calc factAmount key facts
          = factAmount key issues.published + factAmount key issues.pending.snapshot :=
            factAmount_append key _ _
        _ ≤ factAmount key issues.published + amount operations key :=
            Nat.add_le_add_left hshown _
        _ = amount operations key + factAmount key issues.published := Nat.add_comm _ _
        _ ≤ reported.count key := hcounted
    · intro hbelow
      have htotal := haccount.total fun failures hfailures =>
        hbelow failures (mem_append_left _ hfailures)
      have hpending := haccount.holds.total_eq
        (hbelow issues.pending (mem_append_right _ (mem_singleton.mpr rfl)))
      rw [factTotal_nil, Nat.add_zero] at htotal
      calc factTotal facts
          = factTotal issues.published + factTotal issues.pending.snapshot :=
            factTotal_append _ _
        _ = factTotal issues.published + Tally.occurrences operations := by
            rw [factTotal_snapshot, hpending]
        _ = Tally.occurrences operations + factTotal issues.published := Nat.add_comm _ _
        _ = reported.length := htotal

/-- A failure that the sink refuses, published before the next request. -/
def refusedOnce : List RuntimeCall :=
  let stop : StopReplies := ⟨.ok false, .ok ()⟩
  let refusing : PublishReplies := ⟨fun _ => .refused, stop⟩
  let accepting : PublishReplies := ⟨fun _ => .accepted, stop⟩
  [.queue (lit "batch_join") (runtimeError "BatchFailed") ⟨stop, none, stop, refusing⟩,
    .flush ⟨fun _ => accepting, stop⟩]

/-- The failure and the refusal are both published, once. -/
theorem failures_conserved_refusedOnce :
    (runRuntimeCalls refusedOnce).published =
      [(lit "batch_join", lit "BatchFailed", 1),
        (lit "runtime_issue_publish", lit "MissingRuntimeIssueSink", 1)] ∧
    factTotal ((runRuntimeCalls refusedOnce).published ++
      (runRuntimeCalls refusedOnce).pending.snapshot) =
        (RuntimeIssues.reportedBy {} refusedOnce).length :=
  ⟨by decide, (failures_conserved.2 refusedOnce).2 (by
    unfold Tally.Below
    decide)⟩

end ReuleauxCoder.Tools
