import Mathlib

/-!
# Patterns with gaps

A pattern is a list of tests, each for one item of a list, with gaps between them that stand for
any number of items.  What a prefix of a pattern matches is known from the prefixes before it, so
that a list is matched item by item without search.
-/

namespace Gaps

open List

variable {α : Type*}

/-- A test for one item, or a gap. -/
abbrev Segment (α : Type*) := Option (α → Bool)

/-- The items that a segment may stand for. -/
inductive Fits : Segment α → List α → Prop
  | gap (items : List α) : Fits none items
  | item {test : α → Bool} {item : α} (htest : test item = true) : Fits (some test) [item]

/-- The items can be cut into blocks, one for each segment. -/
def Matches (segments : List (Segment α)) (items : List α) : Prop :=
  ∃ blocks : List (List α), blocks.flatten = items ∧ List.Forall₂ Fits segments blocks

theorem fits_some_iff {test : α → Bool} {items : List α} :
    Fits (some test) items ↔ ∃ item, items = [item] ∧ test item = true := by
  constructor
  · intro hfits
    cases hfits with
    | item htest => exact ⟨_, rfl, htest⟩
  · rintro ⟨item, rfl, htest⟩
    exact .item htest

theorem matches_nil_iff {items : List α} : Matches [] items ↔ items = [] := by
  constructor
  · rintro ⟨blocks, rfl, hblocks⟩
    rw [forall₂_nil_left_iff.mp hblocks, flatten_nil]
  · rintro rfl
    exact ⟨[], rfl, .nil⟩

theorem matches_cons_iff {segment : Segment α} {segments : List (Segment α)} {items : List α} :
    Matches (segment :: segments) items ↔
      ∃ front back, items = front ++ back ∧ Fits segment front ∧ Matches segments back := by
  constructor
  · rintro ⟨blocks, rfl, hblocks⟩
    obtain ⟨block, others, hblock, hothers, rfl⟩ := forall₂_cons_left_iff.mp hblocks
    exact ⟨block, others.flatten, flatten_cons, hblock, others, rfl, hothers⟩
  · rintro ⟨front, back, rfl, hfront, blocks, rfl, hblocks⟩
    exact ⟨front :: blocks, flatten_cons, .cons hfront hblocks⟩

theorem matches_append_iff {left right : List (Segment α)} {items : List α} :
    Matches (left ++ right) items ↔
      ∃ front back, items = front ++ back ∧ Matches left front ∧ Matches right back := by
  induction left generalizing items with
  | nil => simp [matches_nil_iff]
  | cons segment left ih =>
      rw [cons_append, matches_cons_iff]
      constructor
      · rintro ⟨front, rest, rfl, hfront, hrest⟩
        obtain ⟨middle, back, rfl, hmiddle, hback⟩ := ih.mp hrest
        exact ⟨front ++ middle, back, (append_assoc ..).symm,
          matches_cons_iff.mpr ⟨front, middle, rfl, hfront, hmiddle⟩, hback⟩
      · rintro ⟨whole, back, rfl, hwhole, hback⟩
        obtain ⟨front, middle, rfl, hfront, hmiddle⟩ := matches_cons_iff.mp hwhole
        exact ⟨front, middle ++ back, append_assoc .., hfront,
          ih.mpr ⟨middle, back, rfl, hmiddle, hback⟩⟩

theorem matches_concat_iff {segments : List (Segment α)} {segment : Segment α} {items : List α} :
    Matches (segments ++ [segment]) items ↔
      ∃ front back, items = front ++ back ∧ Matches segments front ∧ Fits segment back := by
  have hlast : ∀ back, Matches [segment] back ↔ Fits segment back := by
    intro back
    simp [matches_cons_iff, matches_nil_iff]
  rw [matches_append_iff]
  simp only [hlast]

section Concat

variable {segments : List (Segment α)} {items : List α} {item : α} {test : α → Bool}

theorem matches_gap_nil_iff : Matches (segments ++ [none]) [] ↔ Matches segments [] := by
  rw [matches_concat_iff]
  constructor
  · rintro ⟨front, back, hitems, hfront, -⟩
    rw [eq_comm, append_eq_nil_iff] at hitems
    exact hitems.1 ▸ hfront
  · intro hmatches
    exact ⟨[], [], rfl, hmatches, .gap []⟩

theorem matches_gap_concat_iff : Matches (segments ++ [none]) (items ++ [item]) ↔
    Matches segments (items ++ [item]) ∨ Matches (segments ++ [none]) items := by
  simp only [matches_concat_iff]
  constructor
  · rintro ⟨front, back, hitems, hfront, -⟩
    cases back using List.reverseRecOn with
    | nil =>
        rw [append_nil] at hitems
        exact .inl (hitems ▸ hfront)
    | append_singleton back last =>
        rw [← append_assoc] at hitems
        obtain ⟨hitems, -⟩ := append_inj' hitems rfl
        exact .inr ⟨front, back, hitems, hfront, .gap back⟩
  · intro hmatches
    cases hmatches with
    | inl hwhole => exact ⟨items ++ [item], [], (append_nil _).symm, hwhole, .gap []⟩
    | inr hshort =>
        obtain ⟨front, back, rfl, hfront, -⟩ := hshort
        exact ⟨front, back ++ [item], append_assoc .., hfront, .gap _⟩

theorem not_matches_test_nil : ¬ Matches (segments ++ [some test]) [] := by
  rw [matches_concat_iff]
  rintro ⟨front, back, hitems, -, hback⟩
  obtain ⟨item, rfl, -⟩ := fits_some_iff.mp hback
  rw [eq_comm, append_eq_nil_iff] at hitems
  cases hitems.2

theorem matches_test_concat_iff : Matches (segments ++ [some test]) (items ++ [item]) ↔
    Matches segments items ∧ test item = true := by
  rw [matches_concat_iff]
  constructor
  · rintro ⟨front, back, hitems, hfront, hback⟩
    obtain ⟨last, rfl, htest⟩ := fits_some_iff.mp hback
    obtain ⟨rfl, hlast⟩ := append_inj' hitems rfl
    cases hlast
    exact ⟨hfront, htest⟩
  · rintro ⟨hmatches, htest⟩
    exact ⟨items, [item], rfl, hmatches, .item htest⟩

end Concat

/-- Where a list is matched with more items behind it, the place between them is in front of a
segment, or inside a gap. -/
theorem Matches.cut {segments : List (Segment α)} {items more : List α} (hmore : more ≠ [])
    (hmatches : Matches segments (items ++ more)) :
    ∃ left segment right, segments = left ++ segment :: right ∧
      (Matches left items ∨ segment = none ∧ Matches (left ++ [none]) items) := by
  induction segments generalizing items with
  | nil =>
      rw [matches_nil_iff, append_eq_nil_iff] at hmatches
      exact absurd hmatches.2 hmore
  | cons segment rest ih =>
      obtain ⟨front, back, hitems, hfront, hback⟩ := matches_cons_iff.mp hmatches
      have hlater : ∀ middle, items = front ++ middle → back = middle ++ more →
          ∃ left inner right, segment :: rest = left ++ inner :: right ∧
            (Matches left items ∨ inner = none ∧ Matches (left ++ [none]) items) := by
        intro middle hfirst hsecond
        obtain ⟨left, inner, right, hrest, hplace⟩ := ih (hsecond ▸ hback)
        refine ⟨segment :: left, inner, right, by rw [hrest, cons_append], ?_⟩
        rw [cons_append, matches_cons_iff, matches_cons_iff]
        cases hplace with
        | inl hleft => exact .inl ⟨front, middle, hfirst, hfront, hleft⟩
        | inr hgap => exact .inr ⟨hgap.1, front, middle, hfirst, hfront, hgap.2⟩
      cases segment with
      | none =>
          rcases append_eq_append_iff.mp hitems with ⟨middle, -, -⟩ | ⟨middle, hfirst, hsecond⟩
          · refine ⟨[], none, rest, rfl, .inr ⟨rfl, ?_⟩⟩
            rw [nil_append, matches_cons_iff]
            exact ⟨items, [], (append_nil _).symm, .gap items, matches_nil_iff.mpr rfl⟩
          · exact hlater middle hfirst hsecond
      | some test =>
          obtain ⟨item, rfl, -⟩ := fits_some_iff.mp hfront
          cases items with
          | nil => exact ⟨[], some test, rest, rfl, .inl (matches_nil_iff.mpr rfl)⟩
          | cons first others =>
              rw [cons_append, singleton_append, List.cons.injEq] at hitems
              exact hlater others (by rw [hitems.1, singleton_append]) hitems.2.symm

end Gaps
