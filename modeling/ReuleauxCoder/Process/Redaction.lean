import ReuleauxCoder.Library.Replacing
import ReuleauxCoder.Process.Manager

/-!
# Redacting a stream in chunks

The filter holds back what may be the beginning of a hidden value, so a value that lies across
chunks is still found.  What the chunks add up to is a reading of the whole stream; it is the
one of a single call where no value begins another one.
-/

namespace ReuleauxCoder.Process

open PyText PyJson Replacing
open List hiding lookup

/-- The values that the filter looks for, the longest first. -/
def searched (values : List Text) : List Text :=
  (values.filter (· ≠ [])).insertionSort fun left right => right.length ≤ left.length

variable {value text : Text}

theorem mem_searched {values : List Text} :
    value ∈ searched values ↔ value ∈ values ∧ value ≠ [] := by
  simp [searched]

theorem searched_pairwise (values : List Text) :
    (searched values).Pairwise fun left right => right.length ≤ left.length :=
  pairwise_insertionSort _ _

theorem applyFilter_of_ne_nil {values : List Text} {pending chunk : Text} (final : Bool)
    (htext : pending ++ chunk ≠ []) (hvalues : values ≠ []) :
    applyFilter values pending chunk final =
      redactFrom (searched values) final (pending ++ chunk).length (pending ++ chunk) := by
  simp only [applyFilter, htext, hvalues, or_self, if_false]
  rfl

/-! ## One call -/

variable {values : List Text}

theorem find_prefix_none (hnone : (values.find? fun value => value.isPrefixOf text) = none) :
    ∀ value ∈ values, ¬value <+: text := by
  intro value hvalue hbegins
  rw [find?_eq_none] at hnone
  exact hnone value hvalue (List.isPrefixOf_iff_prefix.mpr hbegins)

theorem find_prefix_some (hsome : (values.find? fun value => value.isPrefixOf text) = some value) :
    value ∈ values ∧ value <+: text :=
  ⟨mem_of_find?_eq_some hsome,
    List.isPrefixOf_iff_prefix.mp (find?_some (p := fun value : Text => value.isPrefixOf text) hsome)⟩

/-- A call reads its text but for the suffix that it holds back, and the last call holds back
nothing. -/
theorem redactFrom_covers (hsome : ∀ value ∈ values, value ≠ []) (final : Bool) {fuel : ℕ}
    (hfuel : text.length ≤ fuel) :
    (final = true → (redactFrom values final fuel text).2 = []) ∧
      ∃ pieces, render hiddenInputMarker pieces = (redactFrom values final fuel text).1 ∧
        ∀ more others, (final = true → more = []) →
          Covers values ((redactFrom values final fuel text).2 ++ more) others →
            Covers values (text ++ more) (pieces ++ others) := by
  induction fuel generalizing text with
  | zero =>
      have hempty : text = [] := length_eq_zero_iff.mp (by omega)
      subst hempty
      exact ⟨fun _ => rfl, [], rfl, fun more others _ hcovers => hcovers⟩
  | succ fuel ih =>
      cases text with
      | nil => exact ⟨fun _ => rfl, [], rfl, fun more others _ hcovers => hcovers⟩
      | cons character rest =>
          rw [redactFrom]
          dsimp only
          split
          · rename_i value hfind
            obtain ⟨hvalue, behind, hbehind⟩ := find_prefix_some hfind
            have hne := hsome value hvalue
            rw [← hbehind, drop_left]
            have hlength := congrArg List.length hbehind
            have hpositive := length_pos_iff.mpr hne
            simp only [length_append, length_cons] at hlength hfuel
            have hshort : behind.length ≤ fuel := by omega
            obtain ⟨hpending, pieces, hrender, hcovers⟩ := ih hshort
            refine ⟨hpending, .replaced value :: pieces, ?_, fun more others hmore hothers => ?_⟩
            · rw [← hrender]
              rfl
            · rw [append_assoc, cons_append]
              exact .replaced hvalue hne (hcovers more others hmore hothers)
          · rename_i hfind
            split
            · rename_i hheld
              simp only [Bool.and_eq_true, Bool.not_eq_true'] at hheld
              exact ⟨fun hfinal => absurd (hheld.1.symm.trans hfinal) Bool.false_ne_true, [], rfl,
                fun more others _ hcovers => hcovers⟩
            · rename_i hheld
              simp only [length_cons] at hfuel
              have hshort : rest.length ≤ fuel := by omega
              obtain ⟨hpending, pieces, hrender, hcovers⟩ := ih hshort
              refine ⟨hpending, .kept character :: pieces, ?_, fun more others hmore hothers => ?_⟩
              · rw [← hrender]
                rfl
              · refine .kept (fun value hvalue _ hbegins => ?_) (hcovers more others hmore hothers)
                -- A value that goes beyond the text would have been held back.
                rcases List.prefix_or_prefix_of_prefix hbegins
                  (prefix_append (character :: rest) more) with hinside | hbeyond
                · exact find_prefix_none hfind value hvalue hinside
                · cases final with
                  | true =>
                      have hwhole : value <+: (character :: rest) ++ more := hbegins
                      rw [hmore rfl, append_nil] at hwhole
                      exact find_prefix_none hfind value hvalue hwhole
                  | false =>
                      refine hheld ?_
                      simp only [Bool.not_false, Bool.true_and, List.any_eq_true]
                      exact ⟨value, hvalue, List.isPrefixOf_iff_prefix.mpr hbeyond⟩

theorem applyFilter_covers (values : List Text) (pending chunk : Text) (final : Bool) :
    (final = true → (applyFilter values pending chunk final).2 = []) ∧
      ∃ pieces, render hiddenInputMarker pieces = (applyFilter values pending chunk final).1 ∧
        ∀ more others, (final = true → more = []) →
          Covers (searched values) ((applyFilter values pending chunk final).2 ++ more) others →
            Covers (searched values) (pending ++ chunk ++ more) (pieces ++ others) := by
  by_cases htrivial : pending ++ chunk = [] ∨ values = []
  · have hfilter : applyFilter values pending chunk final = (pending ++ chunk, []) := by
      simp only [applyFilter, htrivial, if_true]
    rw [hfilter]
    refine ⟨fun _ => rfl, (pending ++ chunk).map .kept, ?_, fun more others _ hcovers => ?_⟩
    · simp [render, Piece.render, flatMap_map]
    · rcases htrivial with hempty | hnone
      · rwa [hempty]
      · subst hnone
        generalize pending ++ chunk = text
        induction text with
        | nil => exact hcovers
        | cons character rest ih => exact .kept (by simp [searched]) ih
  · rw [not_or] at htrivial
    rw [applyFilter_of_ne_nil final htrivial.1 htrivial.2]
    exact redactFrom_covers (fun value hvalue => (mem_searched.mp hvalue).2) final le_rfl

/-! ## Chunks -/

/-- The chunks that one filter returns for a stream, put together.  The last is the flush. -/
def filterChunks (values : List Text) : Text → List Text → Text → Text
  | pending, [], last => (applyFilter values pending last true).1
  | pending, chunk :: rest, last =>
      let filtered := applyFilter values pending chunk false
      filtered.1 ++ filterChunks values filtered.2 rest last

/-- The redaction of a text in one call. -/
def redact (values : List Text) (text : Text) : Text :=
  (applyFilter values [] text true).1

theorem filterChunks_covers (values : List Text) (pending : Text) (chunks : List Text)
    (last : Text) :
    ∃ pieces, render hiddenInputMarker pieces = filterChunks values pending chunks last ∧
      Covers (searched values) (pending ++ chunks.flatten ++ last) pieces := by
  induction chunks generalizing pending with
  | nil =>
      obtain ⟨hpending, pieces, hrender, hcovers⟩ := applyFilter_covers values pending last true
      refine ⟨pieces, hrender, ?_⟩
      have hread := hcovers [] [] (fun _ => rfl)
      rw [hpending rfl] at hread
      simpa using hread .nil
  | cons chunk rest ih =>
      obtain ⟨-, pieces, hrender, hcovers⟩ := applyFilter_covers values pending chunk false
      obtain ⟨others, hothers, hrest⟩ := ih (applyFilter values pending chunk false).2
      refine ⟨pieces ++ others, ?_, ?_⟩
      · rw [render_append, hrender, hothers]
        rfl
      · rw [append_assoc] at hrest
        have hread := hcovers _ _ (by simp) hrest
        simpa using hread

/-- Nothing is left of the values in what was copied: the output is a reading of the text whose
copied runs contain none of them. -/
def Hidden (values : List Text) (text output : Text) : Prop :=
  ∃ pieces, source pieces = text ∧ render hiddenInputMarker pieces = output ∧
    (∀ value, .replaced value ∈ pieces → value ∈ values) ∧
      ∀ before run after, pieces = before ++ (run.map .kept ++ after) → ∀ value ∈ values,
        value ≠ [] → ¬value <:+: run

theorem filterChunks_hidden (values : List Text) (chunks : List Text) (last : Text) :
    Hidden values (chunks.flatten ++ last) (filterChunks values [] chunks last) := by
  obtain ⟨pieces, hrender, hcovers⟩ := filterChunks_covers values [] chunks last
  rw [nil_append] at hcovers
  refine ⟨pieces, hcovers.source_eq, hrender, fun value hvalue =>
    (mem_searched.mp (hcovers.mem_words hvalue)).1, ?_⟩
  rintro before run after rfl value hvalue hne
  exact hcovers.not_infix_kept (mem_searched.mpr ⟨hvalue, hne⟩) hne

/-! ## Values that begin other values -/

/-- Of the values that begin a hidden value the search finds that value. -/
theorem find_searched (hvalue : value ∈ values) (hne : value ≠ []) :
    ((searched values).find? fun other => other.isPrefixOf value) = some value := by
  have hmem := mem_searched.mpr ⟨hvalue, hne⟩
  have hself : value.isPrefixOf value = true := List.isPrefixOf_iff_prefix.mpr prefix_rfl
  cases hfind : (searched values).find? fun other => other.isPrefixOf value with
  | none => exact absurd prefix_rfl (find_prefix_none hfind value hmem)
  | some other =>
      have hbegins := (find_prefix_some hfind).2
      obtain ⟨-, front, back, hsplit, hfront⟩ := find?_eq_some_iff_append.mp hfind
      have hsorted := searched_pairwise values
      rw [hsplit] at hmem hsorted
      have hlonger : value.length ≤ other.length := by
        rcases mem_append.mp hmem with hbefore | hbehind
        · simpa [hself] using hfront value hbefore
        · rcases mem_cons.mp hbehind with rfl | hlater
          · exact le_rfl
          · have hothers := (pairwise_append.mp hsorted).2.1
            exact (pairwise_cons.mp hothers).1 value hlater
      rw [hbegins.eq_of_length_le hlonger]

/-- A hidden value alone is replaced at once, in a last chunk or not. -/
theorem applyFilter_value (hvalue : value ∈ values) (hne : value ≠ []) (final : Bool) :
    applyFilter values [] value final = (hiddenInputMarker, []) := by
  rw [applyFilter_of_ne_nil final (by simpa using hne) (ne_nil_of_mem hvalue),
    nil_append]
  have hfind := find_searched hvalue hne
  cases value with
  | nil => exact absurd rfl hne
  | cons character rest =>
      rw [length_cons, redactFrom]
      dsimp only
      rw [hfind]
      dsimp only
      rw [drop_length]
      cases rest <;> simp [redactFrom]

theorem render_ne_nil {pieces : List (Piece CodePoint)} (hne : source pieces ≠ []) :
    render hiddenInputMarker pieces ≠ [] := by
  cases pieces with
  | nil => exact absurd rfl hne
  | cons piece rest => cases piece <;> simp [render, Piece.render, hiddenInputMarker, lit]

/-- A stream in chunks is redacted as in one call, for every stream and every way of cutting
it, just when no hidden value begins another one. -/
theorem filterChunks_eq_redact_iff (values : List Text) :
    (∀ chunks last, filterChunks values [] chunks last = redact values (chunks.flatten ++ last)) ↔
      PrefixFree values := by
  constructor
  · intro hsame left hleft hne right hright hbegins
    obtain ⟨rest, rfl⟩ := hbegins
    by_contra hlonger
    have hrest : rest ≠ [] := by
      rintro rfl
      exact hlonger (append_nil left).symm
    have hwhole := hsame [left] rest
    have hcut : filterChunks values [] [left] rest =
        hiddenInputMarker ++ filterChunks values [] [] rest := by
      simp only [filterChunks, applyFilter_value hleft hne]
    rw [hcut, redact, flatten_singleton,
      applyFilter_value hright (by simp [hne])] at hwhole
    obtain ⟨pieces, hrender, hcovers⟩ := filterChunks_covers values [] [] rest
    have hsource : source pieces ≠ [] := by
      rw [hcovers.source_eq]
      simpa using hrest
    refine render_ne_nil hsource ?_
    rw [hrender]
    simpa using hwhole
  · intro hfree chunks last
    have hsearched : PrefixFree (searched values) := fun left hleft hne right hright =>
      hfree left (mem_searched.mp hleft).1 hne right (mem_searched.mp hright).1
    obtain ⟨pieces, hrender, hcovers⟩ := filterChunks_covers values [] chunks last
    obtain ⟨whole, hwhole, hother⟩ := filterChunks_covers values [] [] (chunks.flatten ++ last)
    have hother : Covers (searched values) (chunks.flatten ++ last) whole := by simpa using hother
    rw [nil_append] at hcovers
    rw [← hrender, hcovers.unique hsearched hother, hwhole]
    rfl

namespace ManagedEntry

/-- The redacted snapshots of one consumer, one after the other. -/
def redactAll (consumer : Text) : ManagedEntry → List ProcessSnapshot → List ProcessSnapshot
  | _, [] => []
  | entry, snapshot :: rest =>
      let redacted := entry.redactSnapshot consumer snapshot
      redacted.1 :: redactAll consumer redacted.2 rest

variable {entry : ManagedEntry} {consumer : Text} {running : List ProcessSnapshot}
  {exited : ProcessSnapshot}

theorem redactAll_of_values (hvalues : entry.sensitiveValues ≠ []) {pending : Text × Text}
    (hpending : (lookup consumer entry.outputFilters).getD ([], []) = pending)
    (hrunning : ∀ snapshot ∈ running, snapshot.isExited = false)
    (hexited : exited.isExited = true) :
    ((redactAll consumer entry (running ++ [exited])).map ProcessSnapshot.stdout).flatten =
        filterChunks entry.sensitiveValues pending.1 (running.map ProcessSnapshot.stdout)
          exited.stdout ∧
      ((redactAll consumer entry (running ++ [exited])).map ProcessSnapshot.stderr).flatten =
        filterChunks entry.sensitiveValues pending.2 (running.map ProcessSnapshot.stderr)
          exited.stderr := by
  induction running generalizing entry pending with
  | nil =>
      simp [redactAll, redactSnapshot, hvalues, hpending, hexited, filterChunks]
  | cons snapshot rest ih =>
      have hstays := hrunning snapshot mem_cons_self
      have hsame : (entry.redactSnapshot consumer snapshot).2.sensitiveValues =
          entry.sensitiveValues := by
        simp [redactSnapshot, hvalues]
      have hheld : (lookup consumer (entry.redactSnapshot consumer snapshot).2.outputFilters).getD
          ([], []) = ((applyFilter entry.sensitiveValues pending.1 snapshot.stdout false).2,
            (applyFilter entry.sensitiveValues pending.2 snapshot.stderr false).2) := by
        simp [redactSnapshot, hvalues, hpending, hstays]
      have hrest := ih (hsame ▸ hvalues) hheld
        (fun other hother => hrunning other (mem_cons_of_mem _ hother))
      rw [hsame] at hrest
      simp only [cons_append, redactAll, map_cons, flatten_cons, filterChunks]
      rw [hrest.1, hrest.2]
      simp [redactSnapshot, hvalues, hpending, hstays]

theorem filterChunks_nil (chunks : List Text) (last : Text) :
    filterChunks [] [] chunks last = chunks.flatten ++ last := by
  induction chunks with
  | nil => simp [filterChunks, applyFilter]
  | cons chunk rest ih => simp [filterChunks, applyFilter, ih]

theorem redactAll_of_nil (hvalues : entry.sensitiveValues = [])
    (snapshots : List ProcessSnapshot) : redactAll consumer entry snapshots = snapshots := by
  induction snapshots with
  | nil => rfl
  | cons snapshot rest ih => simp [redactAll, redactSnapshot, hvalues, ih]

/-- A consumer whose last snapshot is the first to report the exit gets both streams as filters
of their own return them. -/
theorem redactAll_filterChunks (hfresh : lookup consumer entry.outputFilters = none)
    (hrunning : ∀ snapshot ∈ running, snapshot.isExited = false)
    (hexited : exited.isExited = true) :
    ((redactAll consumer entry (running ++ [exited])).map ProcessSnapshot.stdout).flatten =
        filterChunks entry.sensitiveValues [] (running.map ProcessSnapshot.stdout)
          exited.stdout ∧
      ((redactAll consumer entry (running ++ [exited])).map ProcessSnapshot.stderr).flatten =
        filterChunks entry.sensitiveValues [] (running.map ProcessSnapshot.stderr)
          exited.stderr := by
  by_cases hvalues : entry.sensitiveValues = []
  · rw [redactAll_of_nil hvalues, hvalues, filterChunks_nil, filterChunks_nil]
    simp
  · have hnothing : (lookup consumer entry.outputFilters).getD ([], []) = ([], []) := by
      simp [hfresh]
    exact redactAll_of_values hvalues hnothing hrunning hexited

end ManagedEntry

/-- Redaction of a stream in chunks: it agrees with one call just when no hidden value begins
another one, no value is left in what is copied, and none occurs that does not overlap the
marker. -/
theorem filterChunks_redacts (values : List Text) :
    ((∀ chunks last, filterChunks values [] chunks last =
        redact values (chunks.flatten ++ last)) ↔ PrefixFree values) ∧
      ∀ chunks last, Hidden values (chunks.flatten ++ last) (filterChunks values [] chunks last) ∧
        ∀ value ∈ values, value ≠ [] → ¬Overlaps value hiddenInputMarker →
          ¬value <:+: filterChunks values [] chunks last := by
  refine ⟨filterChunks_eq_redact_iff values, fun chunks last =>
    ⟨filterChunks_hidden values chunks last, fun value hvalue hne happart => ?_⟩⟩
  obtain ⟨pieces, hrender, hcovers⟩ := filterChunks_covers values [] chunks last
  rw [← hrender]
  exact hcovers.not_infix_render (mem_searched.mpr ⟨hvalue, hne⟩) hne happart

/-- Of a value that another one begins the rest is shown when it comes in a later chunk. -/
theorem shownRest :
    ¬∀ values chunks last, filterChunks values [] chunks last =
      redact values (chunks.flatten ++ last) := by
  intro hsame
  refine absurd (hsame [lit "ab", lit "abc"] [lit "ab"] (lit "c")) ?_
  decide +kernel

/-- A value that lies across two snapshots of a process that has exited is shown. -/
example :
    (ManagedEntry.redactAll (lit "tool") { sensitiveValues := [lit "abc"] }
      [{ state := .exited, stdout := lit "ab" }, { state := .exited, stdout := lit "c" }]).map
        ProcessSnapshot.stdout = [lit "ab", lit "c"] := by
  decide +kernel

end ReuleauxCoder.Process
