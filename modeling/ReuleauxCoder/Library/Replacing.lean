import Mathlib

/-!
# Replacing words in a list

A list is read from the left, and where one of some words stands it is replaced by a marker.
`Covers` says what a reading may do at each place; it leaves open which of several words is
taken.  Elements are kept only where no word starts, so no word survives among them.
-/

namespace Replacing

open List

variable {α : Type*}

inductive Piece (α : Type*) where
  | kept (item : α)
  | replaced (word : List α)

def Piece.source : Piece α → List α
  | .kept item => [item]
  | .replaced word => word

def Piece.render (marker : List α) : Piece α → List α
  | .kept item => [item]
  | .replaced _ => marker

def source (pieces : List (Piece α)) : List α :=
  pieces.flatMap Piece.source

def render (marker : List α) (pieces : List (Piece α)) : List α :=
  pieces.flatMap (Piece.render marker)

@[simp]
theorem render_append (marker : List α) (front back : List (Piece α)) :
    render marker (front ++ back) = render marker front ++ render marker back :=
  flatMap_append

/-- A reading of a list: a word is taken where one stands, and elements elsewhere. -/
inductive Covers (words : List (List α)) : List α → List (Piece α) → Prop where
  | nil : Covers words [] []
  | replaced {word rest : List α} {pieces : List (Piece α)} (hword : word ∈ words)
      (hne : word ≠ []) (hrest : Covers words rest pieces) :
      Covers words (word ++ rest) (.replaced word :: pieces)
  | kept {item : α} {rest : List α} {pieces : List (Piece α)}
      (hnone : ∀ word ∈ words, word ≠ [] → ¬word <+: item :: rest)
      (hrest : Covers words rest pieces) : Covers words (item :: rest) (.kept item :: pieces)

/-- No word is the beginning of another one. -/
def PrefixFree (words : List (List α)) : Prop :=
  ∀ left ∈ words, left ≠ [] → ∀ right ∈ words, left <+: right → left = right

namespace Covers

variable {words : List (List α)} {text : List α} {pieces : List (Piece α)}

theorem source_eq (hcovers : Covers words text pieces) : source pieces = text := by
  induction hcovers with
  | nil => rfl
  | replaced _ _ _ ih => exact congrArg (_ ++ ·) ih
  | kept _ _ ih => exact congrArg (_ :: ·) ih

theorem mem_words (hcovers : Covers words text pieces) {word : List α}
    (hword : .replaced word ∈ pieces) : word ∈ words := by
  induction hcovers with
  | nil => cases hword
  | replaced hmem _ _ ih =>
      rcases mem_cons.mp hword with hfirst | hlater
      · cases hfirst
        exact hmem
      · exact ih hlater
  | kept _ _ ih =>
      rcases mem_cons.mp hword with hfirst | hlater
      · cases hfirst
      · exact ih hlater

/-- Where no word begins another one there is one reading only. -/
theorem unique (hfree : PrefixFree words) (hcovers : Covers words text pieces)
    {others : List (Piece α)} (hothers : Covers words text others) : pieces = others := by
  induction hcovers generalizing others with
  | nil =>
      generalize hempty : ([] : List α) = empty at hothers
      cases hothers with
      | nil => rfl
      | replaced _ hne _ => exact absurd (append_eq_nil_iff.mp hempty.symm).1 hne
      | kept _ _ => cases hempty
  | @replaced word rest pieces hword hne hrest ih =>
      generalize hwhole : word ++ rest = whole at hothers
      cases hothers with
      | nil => exact absurd (append_eq_nil_iff.mp hwhole).1 hne
      | @replaced other rest' _ hother hne' hrest' =>
          have hsame : word = other := by
            have hleft : word <+: other ++ rest' := ⟨rest, hwhole⟩
            have hright : other <+: other ++ rest' := prefix_append _ _
            rcases List.prefix_or_prefix_of_prefix hleft hright with hle | hle
            · exact hfree word hword hne other hother hle
            · exact (hfree other hother hne' word hword hle).symm
          subst hsame
          rw [ih (append_cancel_left hwhole ▸ hrest')]
      | kept hnone _ => exact absurd ⟨rest, hwhole⟩ (hnone word hword hne)
  | @kept item rest pieces hnone hrest ih =>
      generalize hwhole : item :: rest = whole at hothers
      cases hothers with
      | nil => cases hwhole
      | @replaced other rest' _ hother hne' hrest' =>
          exact absurd (hwhole ▸ prefix_append other rest') (hnone other hother hne')
      | kept _ hrest' =>
          cases hwhole
          rw [ih hrest']

theorem drop_front {front back : List (Piece α)}
    (hcovers : Covers words text (front ++ back)) : Covers words (source back) back := by
  induction front generalizing text with
  | nil =>
      have hsource := hcovers.source_eq
      rw [nil_append] at hcovers hsource
      rwa [hsource]
  | cons piece front ih =>
      rw [cons_append] at hcovers
      cases hcovers with
      | replaced _ _ hrest => exact ih hrest
      | kept _ hrest => exact ih hrest

/-- No word stands among the elements that are kept side by side. -/
theorem not_infix_kept {before after : List (Piece α)} {run word : List α}
    (hcovers : Covers words text (before ++ (run.map .kept ++ after))) (hword : word ∈ words)
    (hne : word ≠ []) : ¬word <:+: run := by
  rintro ⟨front, back, rfl⟩
  cases word with
  | nil => exact hne rfl
  | cons item tail =>
      rw [map_append, map_append, append_assoc, append_assoc,
        ← append_assoc] at hcovers
      have hplace := hcovers.drop_front
      rw [map_cons, cons_append] at hplace
      have hsource : source ((.kept item :: (tail.map Piece.kept ++ (back.map .kept ++ after)) :
          List (Piece α))) = (item :: tail) ++ source (back.map .kept ++ after) := by
        simp [source, Piece.source, flatMap_map]
      rw [hsource] at hplace
      generalize hwhole : (item :: tail) ++ source (back.map .kept ++ after) = whole at hplace
      cases hplace with
      | kept hnone _ => exact hnone _ hword hne ⟨_, hwhole⟩

end Covers

/-! ## Words and the marker -/

/-- A word shares elements with an occurrence of the marker beside it or around it. -/
def Overlaps (word marker : List α) : Prop :=
  (∃ tail, tail <:+ word ∧ tail ≠ [] ∧ (tail <+: marker ∨ marker <+: tail)) ∨
    ∃ tail, tail <:+ marker ∧ tail ≠ [] ∧ (word <+: tail ∨ tail <+: word)

theorem prefix_kept {word marker : List α}
    (happart : ∀ tail, tail <:+ word → tail ≠ [] → ¬(tail <+: marker ∨ marker <+: tail))
    {pieces : List (Piece α)} (hbegins : word <+: render marker pieces) :
    ∃ run after, pieces = run.map .kept ++ after ∧ word <+: run := by
  induction pieces generalizing word with
  | nil =>
      rw [prefix_nil.mp hbegins]
      exact ⟨[], [], rfl, prefix_rfl⟩
  | cons piece pieces ih =>
      cases word with
      | nil => exact ⟨[], piece :: pieces, rfl, List.nil_prefix⟩
      | cons item tail =>
          cases piece with
          | kept other =>
              obtain ⟨rfl, hrest⟩ := cons_prefix_cons.mp hbegins
              obtain ⟨run, after, rfl, hrun⟩ := ih (fun part hpart =>
                happart part (hpart.trans (suffix_cons _ _))) hrest
              exact ⟨item :: run, after, rfl, cons_prefix_cons.mpr ⟨rfl, hrun⟩⟩
          | replaced other =>
              have hmarker : marker <+: render marker (.replaced other :: pieces) :=
                prefix_append marker _
              exact absurd (List.prefix_or_prefix_of_prefix hbegins hmarker)
                (happart _ suffix_rfl (cons_ne_nil _ _))

theorem infix_kept {word marker : List α} (happart : ¬Overlaps word marker)
    {pieces : List (Piece α)} (hne : word ≠ []) (hoccurs : word <:+: render marker pieces) :
    ∃ before run after, pieces = before ++ (run.map .kept ++ after) ∧ word <:+: run := by
  induction pieces with
  | nil =>
      obtain ⟨front, back, hempty⟩ := hoccurs
      simp only [render, flatMap_nil, append_eq_nil_iff] at hempty
      exact absurd hempty.1.2 hne
  | cons piece pieces ih =>
      have hlater : word <:+: render marker pieces → ∃ before run after,
          piece :: pieces = before ++ (run.map .kept ++ after) ∧ word <:+: run := by
        intro hword
        obtain ⟨before, run, after, rfl, hrun⟩ := ih hword
        exact ⟨piece :: before, run, after, rfl, hrun⟩
      obtain ⟨front, back, hwhole⟩ := hoccurs
      have hsplit : front ++ (word ++ back) = piece.render marker ++ render marker pieces := by
        rw [← append_assoc, hwhole]
        rfl
      rcases append_eq_append_iff.mp hsplit with ⟨part, hpiece, hrest⟩ | ⟨part, -, hrest⟩
      · have hword : word <+: part ++ render marker pieces := ⟨back, hrest⟩
        by_cases hempty : part = []
        · rw [hempty, nil_append] at hword
          exact hlater hword.isInfix
        cases piece with
        | kept item =>
            have hpart : part = [item] := by
              have hsuffix : part <:+ [item] := ⟨front, hpiece.symm⟩
              rcases suffix_cons_iff.mp hsuffix with hsame | hnil
              · exact hsame
              · exact absurd (suffix_nil.mp hnil) hempty
            subst hpart
            have hhere : word <+: render marker (.kept item :: pieces) := hword
            obtain ⟨run, after, hpieces, hrun⟩ := prefix_kept
              (fun tail htail hsome hmarker => happart (.inl ⟨tail, htail, hsome, hmarker⟩)) hhere
            exact ⟨[], run, after, hpieces, hrun.isInfix⟩
        | replaced other =>
            refine absurd (.inr ⟨part, ⟨front, hpiece.symm⟩, hempty, ?_⟩) happart
            exact List.prefix_or_prefix_of_prefix hword (prefix_append _ _)
      · exact hlater ⟨part, back, by rw [append_assoc, hrest]⟩

/-- A word that shares nothing with the marker is not in the rendering of a reading. -/
theorem Covers.not_infix_render {words : List (List α)} {text marker word : List α}
    {pieces : List (Piece α)} (hcovers : Covers words text pieces) (hword : word ∈ words)
    (hne : word ≠ []) (happart : ¬Overlaps word marker) : ¬word <:+: render marker pieces := by
  intro hoccurs
  obtain ⟨before, run, after, rfl, hrun⟩ := infix_kept happart hne hoccurs
  exact hcovers.not_infix_kept hword hne hrun

end Replacing
