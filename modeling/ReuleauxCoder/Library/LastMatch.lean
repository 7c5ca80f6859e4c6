import Mathlib.Data.List.Basic

/-!
# Walking back to the last match

A list is walked from its end to the first item that is changed; everything in front of that
item and behind it stays.  An item may also refuse the walk.
-/

namespace LastMatch

open List

variable {α β ε : Type*}

/-- `for item in reversed(items)`: `none` walks on, `some` is the item changed and ends the
walk.  The result is `none` where nothing is changed. -/
def markLast (mark : α → Except ε (Option α)) : List α → Except ε (Option (List α))
  | [] => .ok none
  | item :: rest =>
      match markLast mark rest with
      | .error error => .error error
      | .ok (some marked) => .ok (some (item :: marked))
      | .ok none =>
          match mark item with
          | .error error => .error error
          | .ok (some changed) => .ok (some (changed :: rest))
          | .ok none => .ok none

/-- Walking back, everything passes up to an item that offers itself. -/
def Reaches (offers passes : α → Prop) (items : List α) : Prop :=
  ∃ front item back, items = front ++ item :: back ∧ offers item ∧ ∀ later ∈ back, passes later

section Reaches

variable {offers passes : α → Prop} {items : List α}

theorem not_reaches_nil : ¬ Reaches offers passes [] := by
  rintro ⟨front, item, back, hnil, -⟩
  cases front <;> cases hnil

theorem reaches_cons {item : α} :
    Reaches offers passes (item :: items) ↔
      Reaches offers passes items ∨ offers item ∧ ∀ later ∈ items, passes later := by
  constructor
  · rintro ⟨front, reached, back, hitems, hoffers, hback⟩
    cases front with
    | nil =>
        cases hitems
        exact .inr ⟨hoffers, hback⟩
    | cons first front =>
        cases hitems
        exact .inl ⟨front, reached, back, rfl, hoffers, hback⟩
  · rintro (⟨front, reached, back, rfl, hoffers, hback⟩ | ⟨hoffers, hback⟩)
    · exact ⟨item :: front, reached, back, rfl, hoffers, hback⟩
    · exact ⟨[], item, items, rfl, hoffers, hback⟩

theorem reaches_singleton {item : α} : Reaches offers passes [item] ↔ offers item := by
  rw [reaches_cons]
  constructor
  · rintro (hnil | ⟨hoffers, -⟩)
    · exact absurd hnil not_reaches_nil
    · exact hoffers
  · intro hoffers
    exact .inr ⟨hoffers, fun later hlater => absurd hlater not_mem_nil⟩

theorem reaches_append {front back : List α} :
    Reaches offers passes (front ++ back) ↔
      Reaches offers passes back ∨
        Reaches offers passes front ∧ ∀ later ∈ back, passes later := by
  induction front with
  | nil =>
      rw [nil_append]
      exact ⟨.inl, fun hreaches => hreaches.elim id fun hnil => absurd hnil.1 not_reaches_nil⟩
  | cons item front ih =>
      rw [cons_append, reaches_cons, reaches_cons, ih]
      constructor
      · rintro ((hback | ⟨hfront, hpasses⟩) | ⟨hoffers, hpasses⟩)
        · exact .inl hback
        · exact .inr ⟨.inl hfront, hpasses⟩
        · refine .inr ⟨.inr ⟨hoffers, fun later hlater => hpasses later ?_⟩, fun later hlater =>
            hpasses later ?_⟩
          · exact mem_append_left _ hlater
          · exact mem_append_right _ hlater
      · rintro (hback | ⟨hfront | ⟨hoffers, hfront⟩, hpasses⟩)
        · exact .inl (.inl hback)
        · exact .inl (.inr ⟨hfront, hpasses⟩)
        · refine .inr ⟨hoffers, fun later hlater => ?_⟩
          cases mem_append.mp hlater with
          | inl hmem => exact hfront later hmem
          | inr hmem => exact hpasses later hmem

/-- In a list of lists the walk passes whole lists, up to one that it does not leave. -/
theorem reaches_flatten {lists : List (List α)} :
    Reaches offers passes lists.flatten ↔
      Reaches (Reaches offers passes) (fun list => ∀ item ∈ list, passes item) lists := by
  induction lists with
  | nil => exact iff_of_false not_reaches_nil not_reaches_nil
  | cons list lists ih =>
      rw [flatten_cons, reaches_append, reaches_cons, ih]
      apply or_congr_right
      apply and_congr_right
      intro _
      constructor
      · intro hpasses other hother item hitem
        exact hpasses item (mem_flatten.mpr ⟨other, hother, hitem⟩)
      · intro hpasses item hitem
        obtain ⟨other, hother, hitem⟩ := mem_flatten.mp hitem
        exact hpasses other hother item hitem

theorem Reaches.exists_offers (hreaches : Reaches offers passes items) :
    ∃ item ∈ items, offers item := by
  obtain ⟨front, item, back, rfl, hoffers, -⟩ := hreaches
  exact ⟨item, by simp, hoffers⟩

/-- Where what does not offer itself passes, the walk reaches whatever offers itself. -/
theorem reaches_iff_exists (hpasses : ∀ item ∈ items, passes item ↔ ¬ offers item) :
    Reaches offers passes items ↔ ∃ item ∈ items, offers item := by
  induction items with
  | nil => exact iff_of_false not_reaches_nil (by simp)
  | cons item items ih =>
      rw [forall_mem_cons] at hpasses
      rw [reaches_cons, exists_mem_cons_iff, ih hpasses.2, or_comm (a := offers item)]
      apply or_congr_right'
      intro hnone
      apply and_iff_left_of_imp
      intro _ later hlater
      exact (hpasses.2 later hlater).mpr fun hoffers => hnone ⟨later, hlater, hoffers⟩

/-- What passes and offers nothing is walked past. -/
theorem reaches_append_left {front back : List α} (hpasses : ∀ later ∈ back, passes later)
    (hoffers : ∀ later ∈ back, ¬ offers later) :
    Reaches offers passes (front ++ back) ↔ Reaches offers passes front := by
  rw [reaches_append]
  constructor
  · rintro (⟨initial, item, rest, rfl, hitem, -⟩ | ⟨hfront, -⟩)
    · exact absurd hitem (hoffers item (mem_append_right _ mem_cons_self))
    · exact hfront
  · exact fun hfront => .inr ⟨hfront, hpasses⟩

theorem forall_iff_of_forall₂ {passes' : β → Prop} {others : List β}
    (hall : List.Forall₂ (fun item other => passes item ↔ passes' other) items others) :
    (∀ item ∈ items, passes item) ↔ ∀ other ∈ others, passes' other := by
  induction hall with
  | nil => exact iff_of_true (by simp) (by simp)
  | cons hsame _ ih => rw [forall_mem_cons, forall_mem_cons, hsame, ih]

/-- The same walk over other items that offer themselves and pass alike. -/
theorem reaches_iff_of_forall₂ {offers' passes' : β → Prop} {others : List β}
    (hoffers : List.Forall₂ (fun item other => offers item ↔ offers' other) items others)
    (hpasses : List.Forall₂ (fun item other => passes item ↔ passes' other) items others) :
    Reaches offers passes items ↔ Reaches offers' passes' others := by
  induction hoffers with
  | nil => exact iff_of_false not_reaches_nil not_reaches_nil
  | cons hsame _ ih =>
      cases hpasses with
      | cons _ hrest => rw [reaches_cons, reaches_cons, ih hrest, hsame, forall_iff_of_forall₂ hrest]

end Reaches

section MarkLast

variable {mark : α → Except ε (Option α)} {items marked : List α}

theorem markLast_eq_none_iff :
    markLast mark items = .ok none ↔ ∀ item ∈ items, mark item = .ok none := by
  induction items with
  | nil => exact iff_of_true rfl fun item hitem => absurd hitem not_mem_nil
  | cons item rest ih =>
      rw [forall_mem_cons, ← ih, markLast]
      cases markLast mark rest with
      | error error => simp
      | ok walked =>
          cases walked with
          | some others => simp
          | none =>
              cases mark item with
              | error error => simp
              | ok changed => cases changed <;> simp

/-- What the walk changes is one item, and everything behind it passes. -/
theorem markLast_eq_some_iff :
    markLast mark items = .ok (some marked) ↔
      ∃ front item changed back, items = front ++ item :: back ∧
        marked = front ++ changed :: back ∧ mark item = .ok (some changed) ∧
          ∀ later ∈ back, mark later = .ok none := by
  induction items generalizing marked with
  | nil =>
      refine iff_of_false (fun hok => nomatch hok) ?_
      rintro ⟨front, item, changed, back, hnil, -⟩
      cases front <;> cases hnil
  | cons item rest ih =>
      rw [markLast]
      constructor
      · intro hok
        cases hrest : markLast mark rest with
        | error error =>
            rw [hrest] at hok
            cases hok
        | ok walked =>
            rw [hrest] at hok
            cases walked with
            | some others =>
                cases hok
                obtain ⟨front, reached, changed, back, hitems, hothers, hmark, hback⟩ :=
                  ih.mp hrest
                exact ⟨item :: front, reached, changed, back, by rw [hitems, cons_append],
                  by rw [hothers, cons_append], hmark, hback⟩
            | none =>
                cases hmark : mark item with
                | error error =>
                    rw [hmark] at hok
                    cases hok
                | ok result =>
                    rw [hmark] at hok
                    cases result with
                    | none => cases hok
                    | some changed =>
                        cases hok
                        exact ⟨[], item, changed, rest, rfl, rfl, hmark,
                          markLast_eq_none_iff.mp hrest⟩
      · rintro ⟨front, reached, changed, back, hitems, hmarked, hmark, hback⟩
        cases front with
        | nil =>
            cases hitems
            rw [markLast_eq_none_iff.mpr hback, hmark, hmarked]
            rfl
        | cons first front =>
            cases hitems
            rw [ih.mpr ⟨front, reached, changed, back, rfl, rfl, hmark, hback⟩, hmarked]
            rfl

/-- The walk changes something exactly where it reaches an item that it changes. -/
theorem exists_markLast_iff :
    (∃ marked, markLast mark items = .ok (some marked)) ↔
      Reaches (fun item => ∃ changed, mark item = .ok (some changed))
        (fun item => mark item = .ok none) items := by
  constructor
  · rintro ⟨marked, hmarked⟩
    obtain ⟨front, item, changed, back, hitems, -, hmark, hback⟩ :=
      markLast_eq_some_iff.mp hmarked
    exact ⟨front, item, back, hitems, ⟨changed, hmark⟩, hback⟩
  · rintro ⟨front, item, back, hitems, ⟨changed, hmark⟩, hback⟩
    exact ⟨_, markLast_eq_some_iff.mpr ⟨front, item, changed, back, hitems, rfl, hmark, hback⟩⟩

end MarkLast

end LastMatch
