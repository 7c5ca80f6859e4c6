import Mathlib

/-!
# The best ranked match

A list is ranked by a stable sort on a score, highest first, and searched from
the front.  The search finds the first of the matches with the highest score, so
the winner of two lists put together is one of their two winners.
-/

namespace Ranking

open List

variable {α : Type*} (score : α → ℕ)

/-- `sorted(values, key=score, reverse=True)`. -/
def ranked (values : List α) : List α :=
  values.insertionSort fun left right => score right ≤ score left

/-- The better of two results; the first wins a tie. -/
def better : Option α → Option α → Option α
  | some left, some right => if score left < score right then some right else some left
  | some left, none => some left
  | none, right => right

/-- The first of the matches with the highest score. -/
def winner (test : α → Bool) : List α → Option α
  | [] => none
  | value :: rest =>
      if test value then better score (some value) (winner test rest) else winner test rest

theorem better_assoc (first second third : Option α) :
    better score (better score first second) third =
      better score first (better score second third) := by
  cases first with
  | none => cases second <;> cases third <;> rfl
  | some first =>
      cases second with
      | none => cases third <;> rfl
      | some second =>
          cases third with
          | none =>
              by_cases hleft : score first < score second
              · simp [better, hleft]
              · simp [better, hleft]
          | some third =>
              by_cases hleft : score first < score second
              · by_cases hright : score second < score third
                · simp [better, hleft, hright, hleft.trans hright]
                · simp [better, hleft, hright]
              · by_cases hright : score second < score third
                · simp [better, hleft, hright]
                · have hboth : ¬ score first < score third := by omega
                  simp [better, hleft, hright, hboth]

theorem winner_append (test : α → Bool) (front back : List α) :
    winner score test (front ++ back) =
      better score (winner score test front) (winner score test back) := by
  induction front with
  | nil => rfl
  | cons value rest ih =>
      rw [cons_append, winner, winner, ih]
      split
      · rw [better_assoc]
      · rfl

theorem winner_mem {test : α → Bool} {values : List α} {value : α}
    (hwinner : winner score test values = some value) : value ∈ values ∧ test value = true := by
  induction values with
  | nil => cases hwinner
  | cons first rest ih =>
      rw [winner] at hwinner
      split at hwinner
      · rename_i htest
        cases hrest : winner score test rest with
        | none =>
            rw [hrest] at hwinner
            cases hwinner
            exact ⟨mem_cons_self, htest⟩
        | some other =>
            rw [hrest] at hwinner ih
            simp only [better] at hwinner
            split at hwinner
            · exact ⟨mem_cons_of_mem _ (ih hwinner).1, (ih hwinner).2⟩
            · cases hwinner
              exact ⟨mem_cons_self, htest⟩
      · exact ⟨mem_cons_of_mem _ (ih hwinner).1, (ih hwinner).2⟩

theorem winner_isSome {test : α → Bool} {values : List α} {value : α} (hmem : value ∈ values)
    (htest : test value = true) : ∃ best, winner score test values = some best := by
  induction values with
  | nil => cases hmem
  | cons first rest ih =>
      rw [winner]
      rcases mem_cons.mp hmem with rfl | hrest
      · rw [if_pos htest]
        cases winner score test rest with
        | none => exact ⟨value, rfl⟩
        | some other =>
            simp only [better]
            split
            · exact ⟨other, rfl⟩
            · exact ⟨value, rfl⟩
      · obtain ⟨best, hbest⟩ := ih hrest
        rw [hbest]
        split
        · simp only [better]
          split
          · exact ⟨best, rfl⟩
          · exact ⟨first, rfl⟩
        · exact ⟨best, rfl⟩

theorem find?_orderedInsert (test : α → Bool) (value : α) {values : List α}
    (hsorted : values.Pairwise fun left right => score right ≤ score left) :
    (values.orderedInsert (fun left right => score right ≤ score left) value).find? test =
      if test value then better score (some value) (values.find? test)
      else values.find? test := by
  induction values with
  | nil =>
      rw [orderedInsert_nil, find?_singleton]
      rfl
  | cons first rest ih =>
      obtain ⟨hfirst, hrest⟩ := pairwise_cons.mp hsorted
      rw [orderedInsert_cons]
      split
      · rename_i hle
        rw [find?_cons]
        split
        · rename_i htest
          rw [if_pos htest]
          cases hfind : (first :: rest).find? test with
          | none => rfl
          | some found =>
              have hmem := mem_of_find?_eq_some hfind
              have hbound : ¬ score value < score found := by
                rcases mem_cons.mp hmem with rfl | hlater
                · omega
                · have := hfirst found hlater
                  omega
              simp [better, hbound]
        · rename_i htest
          rw [if_neg (by simp [htest])]
      · rename_i hle
        rw [find?_cons, find?_cons, ih hrest]
        split
        · rename_i htest
          split
          · simp [better, Nat.lt_of_not_le hle]
          · rfl
        · rfl

/-- Searching the ranked list finds the winner. -/
theorem find?_ranked (test : α → Bool) (values : List α) :
    (ranked score values).find? test = winner score test values := by
  induction values with
  | nil => rfl
  | cons value rest ih =>
      have htotal : Std.Total fun left right : α => score right ≤ score left :=
        ⟨fun left right => le_total _ _⟩
      have htrans : IsTrans α fun left right => score right ≤ score left :=
        ⟨fun _ _ _ hleft hright => hright.trans hleft⟩
      rw [ranked, insertionSort_cons, find?_orderedInsert score test value
        (pairwise_insertionSort _ rest), ← ranked, ih, winner]

end Ranking
