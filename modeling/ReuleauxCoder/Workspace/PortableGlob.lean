import ReuleauxCoder.Library.Gaps
import ReuleauxCoder.Library.Text

/-!
# Glob patterns

`PortableGlobMatcher` reads a path segment by segment.  After each of them it knows for every
prefix of the pattern whether that prefix matches what it has read; the last of these answers is
the match, and the others tell whether a directory is worth entering.
-/

namespace ReuleauxCoder.Workspace

open PyText Gaps List

/-! ## Paths -/

def slash : CodePoint := ofChar '/'

/-- `path.replace("\\", "/")`. -/
def portable (path : Text) : Text :=
  path.map fun c => if c = ofChar '\\' then slash else c

/-- `tuple(part for part in path.replace("\\", "/").split("/") if part)`. -/
def pathParts (path : Text) : List Text :=
  ((portable path).splitOn slash).filter fun part => !part.isEmpty

/-- `path.strip("/")`. -/
def stripSlashes (path : Text) : Text :=
  (path.dropWhile fun c => c = slash).rdropWhile fun c => c = slash

/-! ## The matcher -/

/-- `PortableGlobMatcher` with the tests that `fnmatch` makes of its segments. -/
structure PortableGlobMatcher where
  segments : List (Segment Text)

/-- `PortableGlobMatcher(pattern)`, where `fnmatch part` is the test for one part. -/
def compilePortableGlob (fnmatch : Text → Text → Bool) (pattern : Text) : PortableGlobMatcher where
  segments := (pathParts pattern).map fun part =>
    if part = lit "**" then none else some (fnmatch part)

/-- The states before the first part; `reached` is the state of the segments before these. -/
def initialStates (reached : Bool) : List (Segment Text) → List Bool
  | [] => [reached]
  | segment :: rest => reached :: initialStates (segment.isNone && reached) rest

/-- The states behind one more part, from the states before it; `current` is the new state of the
segments before these. -/
def nextStates (part : Text) (current : Bool) :
    List Bool → List (Segment Text) → List Bool
  | before :: previous, segment :: rest =>
      let state := match segment with
        | none => current || previous.headD false
        | some test => before && test part
      current :: nextStates part state previous rest
  | _, _ => [current]

namespace PortableGlobMatcher

variable (matcher : PortableGlobMatcher)

/-- `_states`. -/
def states (relativePath : Text) : List Bool :=
  (pathParts relativePath).foldl (fun previous part => nextStates part false previous
    matcher.segments) (initialStates true matcher.segments)

/-- `matches`. -/
def matchesPath (relativePath : Text) : Bool :=
  !(stripSlashes (portable relativePath)).isEmpty && !matcher.segments.isEmpty &&
    (matcher.states relativePath).getLastD false

def canMatchDescendant (directory : Text) : Bool :=
  if matcher.segments.isEmpty then false
  else
    let states := matcher.states directory
    states.dropLast.any id || (matcher.segments.getLast?.any Option.isNone && states.getLastD false)

end PortableGlobMatcher

/-! ## What the states are -/

/-- The states of the segments `done` and of each of the others behind them, once these parts
have been read. -/
def IsRow (parts : List Text) : List (Segment Text) → List (Segment Text) → List Bool → Prop
  | done, [], states => ∃ state, states = [state] ∧ (state = true ↔ Matches done parts)
  | done, segment :: rest, states => ∃ state others, states = state :: others ∧
      (state = true ↔ Matches done parts) ∧ IsRow parts (done ++ [segment]) rest others

variable {done rest : List (Segment Text)} {parts : List Text}

theorem IsRow.head {states : List Bool} (hrow : IsRow parts done rest states) :
    ∃ state others, states = state :: others ∧ (state = true ↔ Matches done parts) := by
  cases rest with
  | nil =>
      obtain ⟨state, rfl, hstate⟩ := hrow
      exact ⟨state, [], rfl, hstate⟩
  | cons segment rest =>
      obtain ⟨state, others, rfl, hstate, -⟩ := hrow
      exact ⟨state, others, rfl, hstate⟩

theorem initialStates_isRow {reached : Bool} (hreached : reached = true ↔ Matches done []) :
    IsRow [] done rest (initialStates reached rest) := by
  induction rest generalizing done reached with
  | nil => exact ⟨reached, rfl, hreached⟩
  | cons segment rest ih =>
      refine ⟨reached, _, rfl, hreached, ih ?_⟩
      cases segment with
      | none => simpa [matches_gap_nil_iff] using hreached
      | some test => simp [not_matches_test_nil]

theorem nextStates_isRow {part : Text} {previous : List Bool} {current : Bool}
    (hprevious : IsRow parts done rest previous)
    (hcurrent : current = true ↔ Matches done (parts ++ [part])) :
    IsRow (parts ++ [part]) done rest (nextStates part current previous rest) := by
  induction rest generalizing done previous current with
  | nil =>
      obtain ⟨state, rfl, -⟩ := hprevious
      exact ⟨current, rfl, hcurrent⟩
  | cons segment rest ih =>
      obtain ⟨before, others, rfl, hbefore, hothers⟩ := hprevious
      refine ⟨current, _, rfl, hcurrent, ih hothers ?_⟩
      cases segment with
      | none =>
          obtain ⟨state, later, rfl, hstate⟩ := hothers.head
          rw [matches_gap_concat_iff, ← hcurrent, ← hstate]
          simp
      | some test =>
          rw [matches_test_concat_iff, ← hbefore]
          simp

theorem IsRow.getLastD {states : List Bool} (hrow : IsRow parts done rest states) :
    states.getLastD false = true ↔ Matches (done ++ rest) parts := by
  induction rest generalizing done states with
  | nil =>
      obtain ⟨state, rfl, hstate⟩ := hrow
      rw [append_nil]
      exact hstate
  | cons segment rest ih =>
      obtain ⟨state, others, rfl, -, hothers⟩ := hrow
      obtain ⟨next, later, rfl, -⟩ := hothers.head
      have hlast := ih hothers
      rw [append_assoc, singleton_append] at hlast
      exact hlast

theorem IsRow.dropLast {states : List Bool} (hrow : IsRow parts done rest states)
    {left right : List (Segment Text)} {segment : Segment Text}
    (hrest : rest = left ++ segment :: right) (hmatches : Matches (done ++ left) parts) :
    states.dropLast.any id = true := by
  induction rest generalizing done states left with
  | nil => simp at hrest
  | cons first rest ih =>
      obtain ⟨state, others, rfl, hstate, hothers⟩ := hrow
      obtain ⟨next, later, rfl, -⟩ := hothers.head
      rw [dropLast_cons_of_ne_nil (cons_ne_nil _ _), any_cons, Bool.or_eq_true]
      cases left with
      | nil =>
          rw [append_nil] at hmatches
          exact .inl (hstate.mpr hmatches)
      | cons other left =>
          rw [cons_append, List.cons.injEq] at hrest
          obtain ⟨rfl, hrest⟩ := hrest
          rw [append_cons] at hmatches
          exact .inr (ih hothers hrest hmatches)

namespace PortableGlobMatcher

variable {matcher : PortableGlobMatcher}

theorem states_isRow (matcher : PortableGlobMatcher) (relativePath : Text) :
    IsRow (pathParts relativePath) [] matcher.segments (matcher.states relativePath) := by
  have hread : ∀ (parts read : List Text) (states : List Bool),
      IsRow read [] matcher.segments states →
        IsRow (read ++ parts) [] matcher.segments (parts.foldl (fun previous part =>
          nextStates part false previous matcher.segments) states) := by
    intro parts
    induction parts with
    | nil =>
        intro read states hrow
        rwa [append_nil]
    | cons part parts ih =>
        intro read states hrow
        have hnone : false = true ↔ Matches ([] : List (Segment Text)) (read ++ [part]) := by
          simp [matches_nil_iff]
        have hnext := ih (read ++ [part]) _ (nextStates_isRow hrow hnone)
        rwa [append_assoc, singleton_append] at hnext
  have hstart : IsRow [] [] matcher.segments (initialStates true matcher.segments) :=
    initialStates_isRow (by simp [matches_nil_iff])
  exact hread (pathParts relativePath) [] _ hstart

end PortableGlobMatcher

/-! ## Parts of paths -/

theorem pathParts_append_slash (front back : Text) :
    pathParts (front ++ slash :: back) = pathParts front ++ pathParts back := by
  have hslash : portable (front ++ slash :: back) = portable front ++ slash :: portable back := by
    rw [portable, portable, portable, map_append, map_cons, if_neg (by decide)]
  rw [pathParts, pathParts, pathParts, hslash, List.splitOn, List.splitOn, List.splitOn,
    splitOnP_append_cons _ _ (by simp), filter_append]

theorem filter_splitOn_eq_nil_iff {text : Text} :
    ((text.splitOn slash).filter fun part => !part.isEmpty) = [] ↔ ∀ c ∈ text, c = slash := by
  induction text with
  | nil => simp
  | cons c rest ih =>
      rw [List.splitOn, splitOnP_cons_eq_if_modifyHead, ← List.splitOn]
      by_cases hc : c = slash
      · rw [if_pos (by simp [hc]), filter_cons, if_neg (by simp), ih]
        simp [hc]
      · rw [if_neg (by simp [hc])]
        cases hparts : rest.splitOn slash with
        | nil => exact absurd hparts (splitOnP_ne_nil _ _)
        | cons part parts => simp [hc]

/-- A path has no parts exactly when it consists of slashes. -/
theorem pathParts_eq_nil_iff {path : Text} :
    pathParts path = [] ↔ ∀ c ∈ portable path, c = slash :=
  filter_splitOn_eq_nil_iff

theorem stripSlashes_eq_nil_iff {path : Text} :
    stripSlashes path = [] ↔ ∀ c ∈ path, c = slash := by
  rw [stripSlashes, rdropWhile_eq_nil_iff]
  constructor
  · intro hkept c hc
    by_contra hother
    have hne : (path.dropWhile fun c => c = slash) ≠ [] := by
      rw [ne_eq, dropWhile_eq_nil_iff]
      intro hall
      exact hother (of_decide_eq_true (hall c hc))
    have hhead := head_dropWhile_not (fun c => decide (c = slash)) hne
    have hslash := hkept _ (head_mem hne)
    rw [hslash] at hhead
    cases hhead
  · intro hall c hc
    exact decide_eq_true (hall c ((dropWhile_sublist _).subset hc))

namespace PortableGlobMatcher

variable {matcher : PortableGlobMatcher}

/-- The matcher matches the paths with a part that the pattern matches. -/
theorem matchesPath_iff {relativePath : Text} :
    matcher.matchesPath relativePath = true ↔
      pathParts relativePath ≠ [] ∧ Matches matcher.segments (pathParts relativePath) := by
  have hparts : (stripSlashes (portable relativePath)).isEmpty = true ↔
      pathParts relativePath = [] := by
    rw [List.isEmpty_iff, stripSlashes_eq_nil_iff, pathParts_eq_nil_iff]
  have hlast : ((matcher.states relativePath).getLastD false = true) ↔
      Matches matcher.segments (pathParts relativePath) :=
    (states_isRow matcher relativePath).getLastD
  rw [matchesPath, Bool.and_eq_true, Bool.and_eq_true, Bool.not_eq_true', Bool.not_eq_true',
    ← Bool.not_eq_true, hparts, hlast, and_assoc, and_congr_right_iff]
  intro hne
  rw [and_iff_right_iff_imp]
  intro hmatches
  rw [← Bool.not_eq_true, List.isEmpty_iff]
  intro hnil
  rw [hnil, matches_nil_iff] at hmatches
  exact hne hmatches

/-- No directory with a match below it is pruned. -/
theorem canMatchDescendant_of_matches {directory : Text} {more : List Text} (hmore : more ≠ [])
    (hmatches : Matches matcher.segments (pathParts directory ++ more)) :
    matcher.canMatchDescendant directory = true := by
  have hrow := states_isRow matcher directory
  obtain ⟨left, segment, right, hsegments, hplace⟩ := hmatches.cut hmore
  have hne : matcher.segments.isEmpty = false := by
    rw [hsegments]
    cases left <;> rfl
  rw [canMatchDescendant, hne, if_neg Bool.false_ne_true]
  dsimp only
  rw [Bool.or_eq_true, Bool.and_eq_true]
  cases hplace with
  | inl hleft => exact .inl (hrow.dropLast hsegments hleft)
  | inr hgap =>
      obtain ⟨rfl, hleft⟩ := hgap
      cases right with
      | nil =>
          refine .inr ⟨by rw [hsegments, getLast?_concat]; rfl, ?_⟩
          rw [hrow.getLastD, nil_append, hsegments]
          exact hleft
      | cons next right =>
          rw [append_cons] at hsegments
          exact .inl (hrow.dropLast hsegments hleft)

end PortableGlobMatcher

end ReuleauxCoder.Workspace
