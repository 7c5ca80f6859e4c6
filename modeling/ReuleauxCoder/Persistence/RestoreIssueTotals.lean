import ReuleauxCoder.Persistence.RestoreIssues

/-!
# Totals of restore issues

Every occurrence that is reported is in a stored issue or among the omitted ones.  The
facts show the first seven keys as they are stored, and everything else as one number: so
two collectors that omit something show the same facts when they agree on seven keys and
on the total, and persisting the facts loses nothing that a later report could bring back.
-/

namespace ReuleauxCoder.Persistence

open PyText PyJson Weighted
open List hiding lookup

namespace SessionRestoreIssue

theorem occurrences_pos (issue : SessionRestoreIssue) : 1 ≤ issue.occurrences :=
  le_max_left 1 issue.count

theorem occurrences_stored (issue : SessionRestoreIssue) :
    issue.stored.occurrences = issue.occurrences := by
  have hpos := issue.occurrences_pos
  by_cases hmany : 1 < issue.occurrences
  · rw [stored, if_pos hmany, occurrences, max_eq_right hpos]
  · rw [stored, if_neg hmany, occurrences, max_eq_left (Nat.zero_le 1)]
    omega

theorem stored_of_counted {issue : SessionRestoreIssue} (hcounted : issue.count ≠ 1) :
    issue.stored = issue := by
  have hcount : (if 1 < issue.occurrences then issue.occurrences else 0) = issue.count := by
    rcases Nat.lt_or_gt_of_ne hcounted with hnone | hmany
    · have hone : issue.occurrences = 1 := max_eq_left (Nat.le_of_lt hnone)
      rw [if_neg (by omega)]
      omega
    · have hall : issue.occurrences = issue.count := max_eq_right (Nat.le_of_lt hmany)
      rw [if_pos (by omega), hall]
  rw [stored, hcount]

theorem occurrences_omittedIssue {count : ℕ} (hcount : 0 < count) :
    (omittedIssue count).occurrences = count :=
  max_eq_right hcount

end SessionRestoreIssue

open SessionRestoreIssue

/-- The occurrences in a list of issues. -/
def occurrencesOf (issues : List SessionRestoreIssue) : ℕ :=
  total SessionRestoreIssue.occurrences issues

@[simp]
theorem occurrencesOf_cons (issue : SessionRestoreIssue) (rest : List SessionRestoreIssue) :
    occurrencesOf (issue :: rest) = issue.occurrences + occurrencesOf rest :=
  total_cons issue rest

@[simp]
theorem occurrencesOf_append (front back : List SessionRestoreIssue) :
    occurrencesOf (front ++ back) = occurrencesOf front + occurrencesOf back :=
  total_append front back

theorem occurrencesOf_singleton (issue : SessionRestoreIssue) :
    occurrencesOf [issue] = issue.occurrences :=
  occurrencesOf_cons issue []

theorem occurrencesOf_split (count : ℕ) (issues : List SessionRestoreIssue) :
    occurrencesOf issues =
      occurrencesOf (issues.take count) + occurrencesOf (issues.drop count) := by
  rw [← occurrencesOf_append, take_append_drop]

/-! ## Merging -/

theorem occurrencesOf_mergeIssue {issue : SessionRestoreIssue}
    {issues : List SessionRestoreIssue} (hknown : issue.key ∈ issues.map key) :
    occurrencesOf (mergeIssue issue issues) = occurrencesOf issues + issue.occurrences := by
  induction issues with
  | nil => simp at hknown
  | cons current rest ih =>
      rw [mergeIssue]
      split
      · have hcurrent := current.occurrences_pos
        have hmerged : occurrences { current with
            count := current.occurrences + issue.occurrences } =
              current.occurrences + issue.occurrences :=
          max_eq_right (hcurrent.trans (Nat.le_add_right _ _))
        rw [occurrencesOf_cons, hmerged, occurrencesOf_cons]
        omega
      · rename_i hother
        have hrest : issue.key ∈ rest.map key := by
          rcases mem_cons.mp hknown with hhead | hrest
          · exact absurd hhead.symm hother
          · exact hrest
        rw [occurrencesOf_cons, ih hrest, occurrencesOf_cons]
        omega

theorem mergeIssue_of_notMem {issue : SessionRestoreIssue} {issues : List SessionRestoreIssue}
    (hnew : issue.key ∉ issues.map key) : mergeIssue issue issues = issues := by
  induction issues with
  | nil => rfl
  | cons current rest ih =>
      rw [map_cons, mem_cons, not_or] at hnew
      rw [mergeIssue, if_neg (Ne.symm hnew.1), ih hnew.2]

/-- Merging looks at the keys in order, so it is the same in any first part. -/
theorem take_mergeIssue (issue : SessionRestoreIssue) (count : ℕ)
    (issues : List SessionRestoreIssue) :
    (mergeIssue issue issues).take count = mergeIssue issue (issues.take count) := by
  induction issues generalizing count with
  | nil => simp [mergeIssue]
  | cons current rest ih =>
      cases count with
      | zero => rfl
      | succ count =>
          rw [take_succ_cons, mergeIssue, mergeIssue]
          split
          · rw [take_succ_cons]
          · rw [take_succ_cons, ih]

namespace RestoreIssueCollector

/-- Everything that has been reported. -/
def reported (collector : RestoreIssueCollector) : ℕ :=
  occurrencesOf collector.issues + collector.omitted

/-- What `_add_valid` does: omit, merge or append. -/
theorem addValid_cases (collector : RestoreIssueCollector) (issue : SessionRestoreIssue) :
    ((collector.addValid issue).issues = collector.issues ∧
        (collector.addValid issue).omitted = collector.omitted + issue.occurrences ∧
        (issue.errorType = additionalIssuesOmitted ∨
          issue.key ∉ collector.issues.map key ∧
            maxRestoreIssues ≤ collector.issues.length)) ∨
      (issue.errorType ≠ additionalIssuesOmitted ∧ issue.key ∈ collector.issues.map key ∧
        (collector.addValid issue).issues = mergeIssue issue collector.issues ∧
        (collector.addValid issue).omitted = collector.omitted) ∨
      (issue.errorType ≠ additionalIssuesOmitted ∧ issue.key ∉ collector.issues.map key ∧
        collector.issues.length < maxRestoreIssues ∧
        (collector.addValid issue).issues = collector.issues ++ [issue.stored] ∧
        (collector.addValid issue).omitted = collector.omitted) := by
  unfold addValid
  split
  · rename_i hhidden
    exact .inl ⟨rfl, rfl, .inl hhidden⟩
  · rename_i hvisible
    split
    · rename_i hknown
      exact .inr (.inl ⟨hvisible, hknown, rfl, rfl⟩)
    · rename_i hnew
      split
      · rename_i hroom
        exact .inr (.inr ⟨hvisible, hnew, hroom, rfl, rfl⟩)
      · rename_i hfull
        exact .inl ⟨rfl, rfl, .inr ⟨hnew, not_lt.mp hfull⟩⟩

theorem reported_addValid (collector : RestoreIssueCollector) (issue : SessionRestoreIssue) :
    (collector.addValid issue).reported = collector.reported + issue.occurrences := by
  rw [reported, reported]
  rcases collector.addValid_cases issue with ⟨hissues, homitted, -⟩ |
    ⟨-, hknown, hissues, homitted⟩ | ⟨-, -, -, hissues, homitted⟩
  · rw [hissues, homitted]
    omega
  · rw [hissues, homitted, occurrencesOf_mergeIssue hknown]
    omega
  · rw [hissues, homitted, occurrencesOf_append, occurrencesOf_singleton, occurrences_stored]
    omega

theorem omitted_addValid (collector : RestoreIssueCollector) (issue : SessionRestoreIssue) :
    collector.omitted ≤ (collector.addValid issue).omitted := by
  rcases collector.addValid_cases issue with ⟨-, homitted, -⟩ | ⟨-, -, -, homitted⟩ |
    ⟨-, -, -, -, homitted⟩
  · rw [homitted]
    exact Nat.le_add_right _ _
  · exact homitted.ge
  · exact homitted.ge

theorem facts_of_omitted (collector : RestoreIssueCollector) (homitted : 0 < collector.omitted) :
    collector.facts = collector.issues.take (maxRestoreIssues - 1) ++
      [omittedIssue (collector.reported -
        occurrencesOf (collector.issues.take (maxRestoreIssues - 1)))] := by
  have hsplit := occurrencesOf_split (maxRestoreIssues - 1) collector.issues
  have hdrop : collector.issues.drop (collector.issues.take (maxRestoreIssues - 1)).length =
      collector.issues.drop (maxRestoreIssues - 1) := by
    rw [length_take]
    rcases le_total (maxRestoreIssues - 1) collector.issues.length with hle | hle
    · rw [min_eq_left hle]
    · rw [min_eq_right hle, drop_length, drop_of_length_le hle]
  have hcount : collector.omitted +
      occurrencesOf (collector.issues.drop (maxRestoreIssues - 1)) = collector.reported -
        occurrencesOf (collector.issues.take (maxRestoreIssues - 1)) := by
    rw [reported]
    omega
  rw [facts, if_neg homitted.ne', ← hcount, occurrencesOf]
  simp only [hdrop]

/-- At most eight facts. -/
theorem facts_length (collector : RestoreIssueCollector) :
    collector.facts.length ≤ maxRestoreIssues := by
  rcases Nat.eq_zero_or_pos collector.omitted with hnone | hsome
  · rw [facts, if_pos hnone]
    exact collector.kept.bounded
  · rw [collector.facts_of_omitted hsome, length_append, length_take,
      length_singleton]
    have hmin := min_le_left (maxRestoreIssues - 1) collector.issues.length
    rw [maxRestoreIssues] at hmin ⊢
    omega

/-- The facts lose no occurrence. -/
theorem occurrencesOf_facts (collector : RestoreIssueCollector) :
    occurrencesOf collector.facts = collector.reported := by
  rcases Nat.eq_zero_or_pos collector.omitted with hnone | hsome
  · rw [facts, if_pos hnone, reported, hnone, Nat.add_zero]
  · have hsplit := occurrencesOf_split (maxRestoreIssues - 1) collector.issues
    have hreported : collector.reported =
        occurrencesOf collector.issues + collector.omitted := rfl
    rw [collector.facts_of_omitted hsome, occurrencesOf_append, occurrencesOf_singleton,
      occurrences_omittedIssue (by omega)]
    omega

/-! ## Collectors that show the same facts -/

/-- Two collectors that omit something and agree on what the facts show. -/
structure SameFacts (left right : RestoreIssueCollector) : Prop where
  leftOmits : 0 < left.omitted
  rightOmits : 0 < right.omitted
  leftFull : maxRestoreIssues - 1 ≤ left.issues.length
  rightFull : maxRestoreIssues - 1 ≤ right.issues.length
  shown : left.issues.take (maxRestoreIssues - 1) = right.issues.take (maxRestoreIssues - 1)
  reported : left.reported = right.reported

theorem SameFacts.facts {left right : RestoreIssueCollector} (hsame : SameFacts left right) :
    left.facts = right.facts := by
  rw [left.facts_of_omitted hsame.leftOmits, right.facts_of_omitted hsame.rightOmits,
    hsame.shown, hsame.reported]

/-- Once seven issues are stored, a report changes them by merging only. -/
theorem take_addValid (collector : RestoreIssueCollector) (issue : SessionRestoreIssue)
    (hfull : maxRestoreIssues - 1 ≤ collector.issues.length) :
    (collector.addValid issue).issues.take (maxRestoreIssues - 1) =
      if issue.errorType = additionalIssuesOmitted then
        collector.issues.take (maxRestoreIssues - 1)
      else mergeIssue issue (collector.issues.take (maxRestoreIssues - 1)) := by
  have hnew : issue.key ∉ collector.issues.map key →
      mergeIssue issue (collector.issues.take (maxRestoreIssues - 1)) =
        collector.issues.take (maxRestoreIssues - 1) := by
    intro hnew
    rw [← take_mergeIssue, mergeIssue_of_notMem hnew]
  rcases collector.addValid_cases issue with ⟨hissues, -, hhidden | ⟨habsent, -⟩⟩ |
    ⟨hvisible, -, hissues, -⟩ | ⟨hvisible, habsent, -, hissues, -⟩
  · rw [hissues, if_pos hhidden]
  · rw [hissues, hnew habsent, ite_self]
  · rw [hissues, if_neg hvisible, take_mergeIssue]
  · rw [hissues, if_neg hvisible, hnew habsent, take_append_of_le_length hfull]

theorem length_addValid (collector : RestoreIssueCollector) (issue : SessionRestoreIssue) :
    collector.issues.length ≤ (collector.addValid issue).issues.length := by
  rcases collector.addValid_cases issue with ⟨hissues, -, -⟩ | ⟨-, -, hissues, -⟩ |
    ⟨-, -, -, hissues, -⟩
  · rw [hissues]
  · have hkeys := congrArg List.length (mergeIssue_keys issue collector.issues)
    rw [length_map, length_map] at hkeys
    rw [hissues, hkeys]
  · rw [hissues, length_append]
    exact Nat.le_add_right _ _

theorem SameFacts.addValid {left right : RestoreIssueCollector} (hsame : SameFacts left right)
    (issue : SessionRestoreIssue) : SameFacts (left.addValid issue) (right.addValid issue) where
  leftOmits := hsame.leftOmits.trans_le (left.omitted_addValid issue)
  rightOmits := hsame.rightOmits.trans_le (right.omitted_addValid issue)
  leftFull := hsame.leftFull.trans (left.length_addValid issue)
  rightFull := hsame.rightFull.trans (right.length_addValid issue)
  shown := by
    rw [left.take_addValid issue hsame.leftFull, right.take_addValid issue hsame.rightFull,
      hsame.shown]
  reported := by
    rw [left.reported_addValid, right.reported_addValid, hsame.reported]

end RestoreIssueCollector

/-! ## Reports -/

/-- The issue that a call adds. -/
def IssueReport.issue : IssueReport → SessionRestoreIssue
  | .add value => value.getD invalidCarrier
  | .record phase errorType ref => {
      phase := safeRestoreFact phase ⟨lit "restore", rfl⟩
      errorType := safeRestoreFact errorType ⟨lit "Exception", rfl⟩
      ref := safeRestoreFact ref ⟨lit "session_artifact", rfl⟩ }

/-- What a constructor's argument reports: its values, and what makes it unusable. -/
def IssueSource.reports : IssueSource → List IssueReport
  | .notIterable => [.add none]
  | .iterator values raises => values.map .add ++ if raises then [.add none] else []

namespace RestoreIssueCollector

theorem report_eq (collector : RestoreIssueCollector) (report : IssueReport) :
    collector.report report = collector.addValid report.issue := by
  cases report with
  | add value => cases value <;> rfl
  | record phase errorType ref => rfl

def reportAll (collector : RestoreIssueCollector) (reports : List IssueReport) :
    RestoreIssueCollector :=
  reports.foldl report collector

theorem reportAll_append (collector : RestoreIssueCollector) (front back : List IssueReport) :
    collector.reportAll (front ++ back) = (collector.reportAll front).reportAll back :=
  foldl_append

theorem collectIssues_eq (source : IssueSource) :
    collectIssues source = empty.reportAll source.reports := by
  have hvalues : ∀ (values : List (Option SessionRestoreIssue)) (collector),
      collector.reportAll (values.map .add) = values.foldl add collector :=
    fun values collector => foldl_map
  cases source with
  | notIterable => rfl
  | iterator values raises =>
      rw [IssueSource.reports, reportAll_append, hvalues]
      cases raises <;> rfl

theorem reported_reportAll (collector : RestoreIssueCollector) (reports : List IssueReport) :
    (collector.reportAll reports).reported =
      collector.reported + occurrencesOf (reports.map IssueReport.issue) := by
  induction reports generalizing collector with
  | nil => rfl
  | cons report rest ih =>
      have hrest := ih (collector.report report)
      rw [report_eq, reported_addValid] at hrest
      rw [map_cons, occurrencesOf_cons, ← Nat.add_assoc, ← hrest, ← report_eq]
      rfl

theorem SameFacts.reportAll {left right : RestoreIssueCollector} (hsame : SameFacts left right)
    (reports : List IssueReport) :
    SameFacts (left.reportAll reports) (right.reportAll reports) := by
  induction reports generalizing left right with
  | nil => exact hsame
  | cons report rest ih =>
      have hstep := hsame.addValid report.issue
      rw [← report_eq, ← report_eq] at hstep
      exact ih hstep

end RestoreIssueCollector

/-! ## Persisting and reloading -/

theorem restoreFact_val (fact : RestoreFact) (fieldName : String) :
    restoreFact (.str fact.val) fieldName = .ok fact := by
  rw [restoreFact, dif_pos fact.property]

theorem restoreCount_natCast (count : ℕ) : restoreCount (.int count) = .ok count := by
  rw [restoreCount, if_pos (Int.natCast_nonneg count), Int.toNat_natCast]

theorem fromDict_toDict (issue : SessionRestoreIssue) :
    fromDict (.obj issue.toDict) = .ok issue := by
  have hcount : restoreCount (fieldOr issue.toDict "count" (.int 0)) = .ok issue.count := by
    by_cases hnone : issue.count = 0
    · rw [toDict, if_pos hnone, hnone]
      exact restoreCount_natCast 0
    · rw [toDict, if_neg hnone]
      exact restoreCount_natCast issue.count
  have hphase : field issue.toDict "phase" = .str issue.phase := by
    rw [toDict]
    split <;> simp [field, lookup]
  have herror : field issue.toDict "error_type" = .str issue.errorType := by
    rw [toDict]
    split <;> simp [field, lookup]
  have href : field issue.toDict "ref" = .str issue.ref := by
    rw [toDict]
    split <;> simp [field, lookup]
  rw [fromDict, hphase, herror, href, hcount, restoreFact_val, restoreFact_val, restoreFact_val]
  rfl

theorem persistedIssues_wellKeyed (facts : List SessionRestoreIssue) :
    (persistedIssues facts).WellKeyed := by
  rw [persistedIssues, Json.WellKeyed, Json.wellKeyedItems_iff]
  intro item hitem
  obtain ⟨issue, -, rfl⟩ := mem_map.mp hitem
  rw [Json.WellKeyed, toDict]
  split <;> simp [Json.WellKeyedFields, Json.WellKeyed]

theorem Kept.take {issues : List SessionRestoreIssue} (hkept : Kept issues) (count : ℕ) :
    Kept (issues.take count) where
  bounded := (length_take_le' count issues).trans hkept.bounded
  distinct := hkept.distinct.sublist ((take_sublist count issues).map key)
  visible := fun name hname =>
    hkept.visible name (((take_sublist count issues).map key).subset hname)
  counted := fun issue hissue => hkept.counted issue (mem_of_mem_take hissue)

namespace RestoreIssueCollector

theorem collectPersisted_eq (facts : List SessionRestoreIssue) :
    collectPersistedRestoreIssues (persistedIssues facts) = facts.foldl addValid empty := by
  rw [persistedIssues, collectPersistedRestoreIssues, foldl_map]
  simp only [fromDict_toDict]
  rfl

/-- Issues that would be kept together are appended as they are. -/
theorem foldl_addValid_kept (collector : RestoreIssueCollector)
    (issues : List SessionRestoreIssue) (hkept : Kept (collector.issues ++ issues)) :
    (issues.foldl addValid collector).issues = collector.issues ++ issues ∧
      (issues.foldl addValid collector).omitted = collector.omitted := by
  induction issues generalizing collector with
  | nil => exact ⟨(append_nil _).symm, rfl⟩
  | cons issue rest ih =>
      have hmem : issue ∈ collector.issues ++ issue :: rest :=
        mem_append_right _ (mem_cons_self ..)
      have hvisible : issue.errorType ≠ additionalIssuesOmitted :=
        hkept.visible issue.key (mem_map_of_mem hmem)
      have hnew : issue.key ∉ collector.issues.map key := by
        have hdistinct := hkept.distinct
        rw [map_append] at hdistinct
        exact fun hknown => disjoint_of_nodup_append hdistinct hknown
          (mem_map_of_mem (mem_cons_self ..))
      have hroom : collector.issues.length < maxRestoreIssues := by
        have hbounded := hkept.bounded
        rw [length_append, length_cons] at hbounded
        omega
      have hadd : (collector.addValid issue).issues = collector.issues ++ [issue] ∧
          (collector.addValid issue).omitted = collector.omitted := by
        rw [addValid, dif_neg hvisible, dif_neg hnew, dif_pos hroom]
        exact ⟨congrArg (collector.issues ++ [·]) (stored_of_counted (hkept.counted issue hmem)),
          rfl⟩
      have hstep := ih (collector.addValid issue) (by
        rw [hadd.1, append_assoc]
        exact hkept)
      rw [hadd.1, hadd.2, append_assoc] at hstep
      exact hstep

theorem addValid_omittedIssue (collector : RestoreIssueCollector) {count : ℕ}
    (hcount : 0 < count) :
    (collector.addValid (omittedIssue count)).issues = collector.issues ∧
      (collector.addValid (omittedIssue count)).omitted = collector.omitted + count := by
  have homitted : (omittedIssue count).errorType = additionalIssuesOmitted := rfl
  rw [addValid, dif_pos homitted]
  exact ⟨rfl, congrArg (collector.omitted + ·) (occurrences_omittedIssue hcount)⟩

/-- Reloaded facts are the collector that showed them, or one that shows the same. -/
theorem reload_facts (collector : RestoreIssueCollector) :
    collectPersistedRestoreIssues (persistedIssues collector.facts) = collector ∨
      SameFacts (collectPersistedRestoreIssues (persistedIssues collector.facts)) collector := by
  rw [collectPersisted_eq]
  rcases Nat.eq_zero_or_pos collector.omitted with hnone | hsome
  · left
    have hload := foldl_addValid_kept empty collector.issues collector.kept
    rw [facts, if_pos hnone]
    apply RestoreIssueCollector.ext
    · exact hload.1
    · exact hload.2.trans hnone.symm
  · have hload := foldl_addValid_kept empty
      (collector.issues.take (maxRestoreIssues - 1)) (collector.kept.take _)
    have hsplit := occurrencesOf_split (maxRestoreIssues - 1) collector.issues
    have hreported : collector.reported =
        occurrencesOf collector.issues + collector.omitted := rfl
    have hshown := ((collector.issues.take (maxRestoreIssues - 1)).foldl addValid
      empty).addValid_omittedIssue (show 0 < collector.reported -
        occurrencesOf (collector.issues.take (maxRestoreIssues - 1)) by omega)
    rw [hload.1, hload.2] at hshown
    rw [collector.facts_of_omitted hsome, foldl_append, foldl_cons, foldl_nil]
    generalize ((collector.issues.take (maxRestoreIssues - 1)).foldl addValid empty).addValid
      (omittedIssue (collector.reported -
        occurrencesOf (collector.issues.take (maxRestoreIssues - 1)))) = loaded at hshown ⊢
    obtain ⟨hissues, homitted⟩ := hshown
    change loaded.issues = collector.issues.take (maxRestoreIssues - 1) at hissues
    rw [show empty.omitted = 0 from rfl, Nat.zero_add] at homitted
    by_cases hshort : collector.issues.length ≤ maxRestoreIssues - 1
    · left
      rw [take_of_length_le hshort] at hissues homitted
      apply RestoreIssueCollector.ext
      · exact hissues
      · rw [homitted, hreported, Nat.add_sub_cancel_left]
    · -- the eighth issue is now among the omitted ones
      right
      have hlength : loaded.issues.length = maxRestoreIssues - 1 := by
        rw [hissues, length_take, min_eq_left (not_le.mp hshort).le]
      constructor
      · omega
      · exact hsome
      · exact hlength.ge
      · exact (not_le.mp hshort).le
      · rw [hissues, take_take, min_self]
      · rw [RestoreIssueCollector.reported, hissues, homitted]
        omega

/-- The facts are at most eight and count every report once; a collector that begins with
the facts of another one, written and read back, ends with the facts of one collector that
is given all reports. -/
theorem restore_issues_conserved (source : IssueSource) (reports later : List IssueReport) :
    ((collectIssues source).reportAll reports).facts.length ≤ maxRestoreIssues ∧
      occurrencesOf ((collectIssues source).reportAll reports).facts =
        occurrencesOf ((source.reports ++ reports).map IssueReport.issue) ∧
      (loads (dumps spaced (persistedIssues
        ((collectIssues source).reportAll reports).facts))).map (fun rawIssues =>
          ((collectPersistedRestoreIssues rawIssues).reportAll later).facts) =
        some ((collectIssues source).reportAll (reports ++ later)).facts := by
  refine ⟨facts_length _, ?_, ?_⟩
  · rw [occurrencesOf_facts, collectIssues_eq, ← reportAll_append, reported_reportAll]
    exact Nat.zero_add _
  · rw [loads_dumps spaced_blank (persistedIssues_wellKeyed _), Option.map_some,
      reportAll_append]
    rcases reload_facts ((collectIssues source).reportAll reports) with hequal | hsame
    · rw [hequal]
    · rw [(hsame.reportAll later).facts]

end RestoreIssueCollector

end ReuleauxCoder.Persistence
