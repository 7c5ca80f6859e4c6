import ReuleauxCoder.Workspace.GlobScan

/-!
# Pruning loses no match

The two scans go through a tree side by side: where the pruned scan has a directory to come, the
whole list has the same one at the same place, and what only the list has cannot match.  So both
end with the same matches.
-/

namespace ReuleauxCoder.Workspace.Local

open PyText Gaps List

/-! ## Paths below the base -/

/-- A path that does not start or end with a slash. -/
structure Relative (path : Text) : Prop where
  ne : path ≠ []
  head : path.head? ≠ some slash
  last : path.getLast? ≠ some slash

theorem Name.relative (name : Name) : Relative name.text where
  ne := name.legal.1
  head hhead := name.legal.2 (mem_of_head? hhead)
  last hlast := name.legal.2 (mem_of_getLast? hlast)

theorem joinPath_relative {directory name : Text} (hdirectory : Relative directory)
    (hname : Relative name) : joinPath directory name = directory ++ slash :: name := by
  rw [joinPath, if_neg hname.head, if_neg]
  rintro (hnil | hlast)
  · exact hdirectory.ne hnil
  · exact hdirectory.last hlast

theorem Relative.join {directory name : Text} (hdirectory : Relative directory)
    (hname : Relative name) : Relative (joinPath directory name) := by
  rw [joinPath_relative hdirectory hname]
  refine ⟨by simp, ?_, ?_⟩
  · rw [head?_append_of_ne_nil _ hdirectory.ne]
    exact hdirectory.head
  · rw [getLast?_append_of_ne_nil _ (cons_ne_nil _ _),
      getLast?_cons_of_ne_nil hname.ne]
    exact hname.last

/-- The path of an entry of a directory, both below the base. -/
def childOf (below : Text) (name : Name) : Text :=
  if below = [] then name.text else joinPath below name.text

/-- A path below the base, and its path from there. -/
inductive IsBelow (base : Text) : Text → Text → Prop
  | base : IsBelow base base []
  | inside {below : Text} (hbelow : Relative below) : IsBelow base (joinPath base below) below

section Paths

variable {base path below : Text}

theorem IsBelow.relative (hbelow : IsBelow base path below) (name : Name) :
    Relative (childOf below name) := by
  cases hbelow with
  | base => exact name.relative
  | inside hbelow =>
      rw [childOf, if_neg hbelow.ne]
      exact hbelow.join name.relative

theorem IsBelow.join (hbelow : IsBelow base path below) (name : Name) :
    joinPath path name.text = joinPath base (childOf below name) := by
  cases hbelow with
  | base => rfl
  | inside hbelow =>
      have hname := name.relative
      have hinner := hbelow.join hname
      rw [childOf, if_neg hbelow.ne, joinPath_relative hbelow hname] at *
      have houter : joinPath base below ≠ [] := by
        rw [joinPath, if_neg hbelow.head]
        split <;> simp [hbelow.ne]
      have hlast : (joinPath base below).getLast? ≠ some slash := by
        rw [joinPath, if_neg hbelow.head]
        split
        · rw [getLast?_append_of_ne_nil _ hbelow.ne]
          exact hbelow.last
        · rw [getLast?_append_of_ne_nil _ (cons_ne_nil _ _),
            getLast?_cons_of_ne_nil hbelow.ne]
          exact hbelow.last
      have hjoined : joinPath (joinPath base below) name.text =
          joinPath base below ++ slash :: name.text := by
        rw [joinPath, if_neg hname.head, if_neg]
        rintro (hnil | hslash)
        · exact houter hnil
        · exact hlast hslash
      rw [hjoined, joinPath, joinPath, if_neg hbelow.head, if_neg hinner.head]
      split
      · rw [append_assoc]
      · rw [append_assoc, cons_append]

theorem relativeTo_joinPath (hbase : base ≠ []) (hbelow : Relative below) :
    relativeTo base (joinPath base below) = below := by
  rw [relativeTo, joinPath, if_neg hbelow.head]
  by_cases hlast : base.getLast? = some slash
  · rw [if_pos hlast, if_pos (.inr hlast), drop_left]
  · rw [if_neg hlast, if_neg (by rintro (hnil | hslash) <;> contradiction),
      append_cons, drop_left' (by simp)]

theorem IsBelow.parts (hbelow : IsBelow base path below) (name : Name) :
    pathParts (childOf below name) = pathParts below ++ pathParts name.text := by
  cases hbelow with
  | base =>
      have hempty : pathParts [] = [] := by decide
      rw [childOf, if_pos rfl, hempty, nil_append]
  | inside hbelow =>
      rw [childOf, if_neg hbelow.ne, joinPath_relative hbelow name.relative,
        pathParts_append_slash]

end Paths

/-! ## The entries of a tree -/

mutual
/-- The number of entries of a tree, itself included. -/
def Tree.weight : Tree → ℕ
  | .leaf _ => 1
  | .directory _ (.error _) => 1
  | .directory _ (.ok children) => weights children + 1

def weights : Children → ℕ
  | [] => 0
  | (_, tree) :: rest => tree.weight + weights rest
end

/-- An entry of a directory or of one below it. -/
inductive Occurs (entry : Name × Tree) : Children → Prop
  | here {children : Children} (hentry : entry ∈ children) : Occurs entry children
  | deeper {children inner : Children} {name : Name} {info : Info}
      (hdirectory : (name, .directory info (.ok inner)) ∈ children)
      (hinner : Occurs entry inner) : Occurs entry children

/-- Every directory can be scanned, and every name has a part of a path. -/
structure Scannable (children : Children) : Prop where
  readable : ∀ name info error, ¬ Occurs (name, .directory info (.error error)) children
  named : ∀ entry, Occurs entry children → pathParts entry.1.text ≠ []

theorem weights_eq_sum (children : Children) :
    weights children = (children.map fun entry => entry.2.weight).sum := by
  induction children with
  | nil => rfl
  | cons entry rest ih =>
      obtain ⟨name, tree⟩ := entry
      rw [weights, ih, map_cons, sum_cons]

theorem perm_sortedChildren (lower : Text → Text) (children : Children) :
    (sortedChildren lower children).Perm children :=
  perm_insertionSort _ children

variable {left right children : Children} {name : Name}

theorem weights_perm (hperm : left.Perm right) : weights left = weights right := by
  rw [weights_eq_sum, weights_eq_sum]
  exact (hperm.map _).sum_eq

theorem Occurs.mono {entry : Name × Tree} (hsub : left ⊆ right) (hoccurs : Occurs entry left) :
    Occurs entry right := by
  cases hoccurs with
  | here hentry => exact .here (hsub hentry)
  | deeper hdirectory hinner => exact .deeper (hsub hdirectory) hinner

theorem Scannable.mono (hsub : left ⊆ right) (hright : Scannable right) : Scannable left where
  readable name info error hoccurs := hright.readable name info error (hoccurs.mono hsub)
  named entry hoccurs := hright.named entry (hoccurs.mono hsub)

theorem Scannable.inner (hchildren : Scannable children) {info : Info}
    {inner : Except Text Children} (hmem : (name, .directory info inner) ∈ children) :
    ∃ entries, inner = .ok entries ∧ Scannable entries := by
  cases inner with
  | error error => exact absurd (.here hmem) (hchildren.readable name info error)
  | ok entries =>
      refine ⟨entries, rfl, ?_, ?_⟩
      · intro name info error hoccurs
        exact hchildren.readable name info error (.deeper hmem hoccurs)
      · intro entry hoccurs
        exact hchildren.named entry (.deeper hmem hoccurs)

/-! ## Side by side -/

/-- The entries below the directories to come. -/
def coming : List ListPending → ℕ
  | [] => 0
  | ⟨_, .error _⟩ :: rest => coming rest
  | ⟨_, .ok children⟩ :: rest => weights children + coming rest

section Tracking

variable (matcher : PortableGlobMatcher) (base : Text)

/-- Nothing below a directory matches. -/
def Dead (below : Text) : Prop :=
  ∀ more, more ≠ [] → ¬ Matches matcher.segments (pathParts below ++ more)

/-- The directories to come for the whole list and for the pruned scan. -/
inductive Tracks : List ListPending → List ScanPending → Prop
  | nil : Tracks [] []
  | both {path below : Text} {children : Children} {listed : List ListPending}
      {scanned : List ScanPending} (hbelow : IsBelow base path below)
      (hchildren : Scannable children) (htracks : Tracks listed scanned) :
      Tracks (⟨path, .ok children⟩ :: listed) (⟨path, below, .ok children⟩ :: scanned)
  | listed {path below : Text} {children : Children} {listed : List ListPending}
      {scanned : List ScanPending} (hbelow : IsBelow base path below)
      (hchildren : Scannable children) (hdead : Dead matcher below)
      (htracks : Tracks listed scanned) :
      Tracks (⟨path, .ok children⟩ :: listed) scanned

/-- The matches among the listed entries. -/
def hitsOf (entries : List WorkspaceEntry) : List WorkspaceEntry :=
  entries.filter fun entry => matcher.matchesPath entry.relativePath

variable {matcher base}

theorem hitsOf_concat (entries : List WorkspaceEntry) (entry : WorkspaceEntry) :
    hitsOf matcher (entries ++ [entry]) = if matcher.matchesPath entry.relativePath then
      hitsOf matcher entries ++ [entry] else hitsOf matcher entries := by
  rw [hitsOf, filter_append, filter_singleton, ← hitsOf]
  cases matcher.matchesPath entry.relativePath <;> simp

/-- What `list_entries` makes of a child is what the scan makes of it. -/
theorem entryOf_child {path below : Text} (hbase : base ≠ []) (hbelow : IsBelow base path below)
    (name : Name) (tree : Tree) :
    entryOf (joinPath path name.text) (relativeTo base (joinPath path name.text)) name tree =
      entryOf (joinPath path name.text) (childOf below name) name tree := by
  rw [hbelow.join, relativeTo_joinPath hbase (hbelow.relative name)]

theorem IsBelow.child {path below : Text} (hbelow : IsBelow base path below) (name : Name) :
    IsBelow base (joinPath path name.text) (childOf below name) := by
  rw [hbelow.join]
  exact .inside (hbelow.relative name)

theorem Dead.child {path below : Text} (hdead : Dead matcher below)
    (hbelow : IsBelow base path below) (name : Name) : Dead matcher (childOf below name) := by
  intro more hmore
  rw [hbelow.parts, append_assoc]
  exact hdead _ (by simp [hmore])

theorem Dead.not_matchesPath {path below : Text} (hdead : Dead matcher below)
    (hbelow : IsBelow base path below) (hname : pathParts name.text ≠ []) :
    matcher.matchesPath (childOf below name) = false := by
  rw [Bool.eq_false_iff, ne_eq, PortableGlobMatcher.matchesPath_iff, not_and, hbelow.parts]
  intro _
  exact hdead _ hname

theorem dead_of_pruned {directory : Text}
    (hpruned : matcher.canMatchDescendant directory = false) : Dead matcher directory := by
  intro more hmore hmatches
  rw [PortableGlobMatcher.canMatchDescendant_of_matches hmore hmatches] at hpruned
  cases hpruned

theorem Tree.weight_pos (tree : Tree) : 1 ≤ tree.weight := by
  cases tree with
  | leaf info => exact le_refl _
  | directory info children => cases children <;> simp [Tree.weight]

variable {maxEntries : ℤ} (hbase : base ≠ []) {directory below : Text}
  (hbelow : IsBelow base directory below)
include hbelow

/-- The directories to come behind a child. -/
def pushListed (directory : Text) (name : Name) (listed : List ListPending) :
    Tree → List ListPending
  | .leaf _ => listed
  | .directory _ children => ⟨joinPath directory name.text, children⟩ :: listed

def pushScanned (matcher : PortableGlobMatcher) (directory below : Text) (name : Name)
    (scanned : List ScanPending) : Tree → List ScanPending
  | .leaf _ => scanned
  | .directory _ children =>
      if matcher.canMatchDescendant (childOf below name) then
        ⟨joinPath directory name.text, childOf below name, children⟩ :: scanned
      else scanned

variable {entries : List WorkspaceEntry} {listed : List ListPending} {tree : Tree} {count : ℕ}
  {scanned : List ScanPending}

theorem listChildren_cons (hbase : base ≠ []) {rest : Children}
    (hroom : (entries.length + 1 : ℤ) < maxEntries) :
    listChildren base true true maxEntries directory ((name, tree) :: rest) listed entries =
      listChildren base true true maxEntries directory rest (pushListed directory name listed tree)
        (entries ++ [entryOf (joinPath directory name.text) (childOf below name) name tree]) := by
  rw [listChildren, if_neg (by simp)]
  dsimp only
  rw [entryOf_child hbase hbelow, if_neg (by simpa using hroom)]
  cases tree <;> rfl

omit hbelow in
theorem scanChildren_cons {rest : Children} (hroom : (count + 1 : ℤ) < maxEntries) :
    scanChildren true maxEntries (collect matcher) matcher.canMatchDescendant directory below
        ((name, tree) :: rest) scanned count (hitsOf matcher entries) =
      scanChildren true maxEntries (collect matcher) matcher.canMatchDescendant directory below rest
        (pushScanned matcher directory below name scanned tree) (count + 1)
        (hitsOf matcher (entries ++
          [entryOf (joinPath directory name.text) (childOf below name) name tree])) := by
  rw [scanChildren, if_neg (by simp), hitsOf_concat]
  dsimp only
  rw [if_neg (by omega)]
  cases tree <;> rfl

omit hbelow in
theorem coming_pushListed (directory : Text) (listed : List ListPending)
    (hchildren : Scannable children) (hmem : (name, tree) ∈ children) :
    coming (pushListed directory name listed tree) + 1 = tree.weight + coming listed ∧
      (pushListed directory name listed tree).length + coming (pushListed directory name listed tree)
        ≤ listed.length + tree.weight + coming listed := by
  cases tree with
  | leaf info =>
      rw [pushListed, Tree.weight]
      omega
  | directory info inner =>
      obtain ⟨entries, rfl, -⟩ := hchildren.inner hmem
      rw [pushListed, Tree.weight, coming, length_cons]
      omega

/-- Both scans go on behind a child. -/
theorem Tracks.push (htracks : Tracks matcher base listed scanned) (hchildren : Scannable children)
    (hmem : (name, tree) ∈ children) :
    Tracks matcher base (pushListed directory name listed tree)
      (pushScanned matcher directory below name scanned tree) := by
  cases tree with
  | leaf info => exact htracks
  | directory info inner =>
      obtain ⟨entries, rfl, hentries⟩ := hchildren.inner hmem
      rw [pushListed, pushScanned]
      split
      · exact .both (hbelow.child name) hentries htracks
      · rename_i hpruned
        exact .listed (hbelow.child name) hentries
          (dead_of_pruned (Bool.eq_false_of_not_eq_true hpruned)) htracks

theorem Tracks.pushDead (htracks : Tracks matcher base listed scanned) (hdead : Dead matcher below)
    (hchildren : Scannable children) (hmem : (name, tree) ∈ children) :
    Tracks matcher base (pushListed directory name listed tree) scanned := by
  cases tree with
  | leaf info => exact htracks
  | directory info inner =>
      obtain ⟨entries, rfl, hentries⟩ := hchildren.inner hmem
      exact .listed (hbelow.child name) hentries (hdead.child hbelow name) htracks

include hbase

/-- A directory that both scans enter. -/
theorem children_both (hchildren : Scannable children)
    (htracks : Tracks matcher base listed scanned)
    (hroom : (entries.length + weights children + coming listed : ℤ) < maxEntries)
    (hcount : count ≤ entries.length) :
    ∃ nextListed nextScanned nextEntries nextCount,
      listChildren base true true maxEntries directory children listed entries =
        (nextListed, nextEntries, false) ∧
      scanChildren true maxEntries (collect matcher) matcher.canMatchDescendant directory below
          children scanned count (hitsOf matcher entries) =
        (false, nextScanned, nextCount, hitsOf matcher nextEntries) ∧
      Tracks matcher base nextListed nextScanned ∧ nextCount ≤ nextEntries.length ∧
      nextEntries.length + coming nextListed = entries.length + weights children + coming listed ∧
      nextListed.length + coming nextListed ≤ listed.length + weights children + coming listed := by
  induction children generalizing listed scanned entries count with
  | nil => exact ⟨listed, scanned, entries, count, rfl, rfl, htracks, hcount, rfl, by
      rw [weights]
      omega⟩
  | cons entry rest ih =>
      obtain ⟨name, tree⟩ := entry
      have hmem : (name, tree) ∈ (name, tree) :: rest := mem_cons_self
      obtain ⟨hcoming, hlength⟩ := coming_pushListed directory listed hchildren hmem
      have hpositive := tree.weight_pos
      rw [weights] at hroom
      push_cast at hroom
      rw [listChildren_cons hbelow hbase (by omega), scanChildren_cons (by omega)]
      have hgrown : (entries ++ [entryOf (joinPath directory name.text) (childOf below name) name
          tree]).length = entries.length + 1 := by
        rw [length_append, length_singleton]
      have hcounted : count + 1 ≤ (entries ++ [entryOf (joinPath directory name.text)
          (childOf below name) name tree]).length := hgrown ▸ Nat.succ_le_succ hcount
      obtain ⟨nextListed, nextScanned, nextEntries, nextCount, hlist, hscan, hnext, hbound, htotal,
        hrounds⟩ := ih (hchildren.mono (subset_cons_self _ rest))
          (htracks.push hbelow hchildren hmem) (by rw [hgrown]; push_cast; omega) hcounted
      refine ⟨nextListed, nextScanned, nextEntries, nextCount, hlist, hscan, hnext, hbound, ?_, ?_⟩
      · rw [htotal, hgrown, weights]
        omega
      · rw [weights]
        omega

/-- A directory that only the whole list enters. -/
theorem children_dead (hchildren : Scannable children) (hdead : Dead matcher below)
    (htracks : Tracks matcher base listed scanned)
    (hroom : (entries.length + weights children + coming listed : ℤ) < maxEntries) :
    ∃ nextListed nextEntries,
      listChildren base true true maxEntries directory children listed entries =
        (nextListed, nextEntries, false) ∧
      hitsOf matcher nextEntries = hitsOf matcher entries ∧
      Tracks matcher base nextListed scanned ∧ entries.length ≤ nextEntries.length ∧
      nextEntries.length + coming nextListed = entries.length + weights children + coming listed ∧
      nextListed.length + coming nextListed ≤ listed.length + weights children + coming listed := by
  induction children generalizing listed entries with
  | nil => exact ⟨listed, entries, rfl, rfl, htracks, le_refl _, rfl, by
      rw [weights]
      omega⟩
  | cons entry rest ih =>
      obtain ⟨name, tree⟩ := entry
      have hmem : (name, tree) ∈ (name, tree) :: rest := mem_cons_self
      obtain ⟨hcoming, hlength⟩ := coming_pushListed directory listed hchildren hmem
      have hpositive := tree.weight_pos
      rw [weights] at hroom
      push_cast at hroom
      rw [listChildren_cons hbelow hbase (by omega)]
      have hgrown : (entries ++ [entryOf (joinPath directory name.text) (childOf below name) name
          tree]).length = entries.length + 1 := by
        rw [length_append, length_singleton]
      have hmissed : hitsOf matcher (entries ++ [entryOf (joinPath directory name.text)
          (childOf below name) name tree]) = hitsOf matcher entries := by
        have hnone := hdead.not_matchesPath hbelow (hchildren.named _ (.here hmem))
        rw [hitsOf_concat, if_neg (by rw [entryOf, hnone]; exact Bool.false_ne_true)]
      obtain ⟨nextListed, nextEntries, hlist, hhits, hnext, hbound, htotal, hrounds⟩ :=
        ih (hchildren.mono (subset_cons_self _ rest))
          (htracks.pushDead hbelow hdead hchildren hmem) (by rw [hgrown]; push_cast; omega)
      refine ⟨nextListed, nextEntries, hlist, hhits.trans hmissed, hnext, by omega, ?_, ?_⟩
      · rw [htotal, hgrown, weights]
        omega
      · rw [weights]
        omega

omit hbelow in
/-- The loops end together, with the same matches. -/
theorem loops_agree (lower : Text → Text) {rounds scans : ℕ}
    (htracks : Tracks matcher base listed scanned)
    (hroom : (entries.length + coming listed : ℤ) < maxEntries) (hcount : count ≤ entries.length)
    (hrounds : listed.length + coming listed ≤ rounds)
    (hscans : listed.length + coming listed ≤ scans) :
    ∃ final, listLoop lower base true true maxEntries rounds listed entries =
        some (.ok ⟨final, false⟩) ∧
      scanLoop true maxEntries (collect matcher) matcher.canMatchDescendant lower scans scanned
        count (hitsOf matcher entries) = some (.ok (false, hitsOf matcher final)) := by
  induction rounds generalizing listed scanned entries count scans with
  | zero =>
      cases htracks with
      | nil => exact ⟨entries, rfl, by rw [scanLoop]⟩
      | both hbelow hchildren htracks =>
          rw [length_cons] at hrounds
          omega
      | listed hbelow hchildren hdead htracks =>
          rw [length_cons] at hrounds
          omega
  | succ rounds ih =>
      cases htracks with
      | nil => exact ⟨entries, rfl, by rw [scanLoop]⟩
      | @both path below children listed scanned hbelow hchildren htracks =>
          rw [length_cons, coming] at hrounds hscans
          rw [coming] at hroom
          push_cast at hroom
          obtain ⟨scans, rfl⟩ : ∃ earlier, scans = earlier + 1 := ⟨scans - 1, by omega⟩
          have hperm := perm_sortedChildren lower children
          have hweights := weights_perm hperm
          have hinside : (entries.length + weights (sortedChildren lower children) +
              coming listed : ℤ) < maxEntries := by
            rw [hweights]
            omega
          obtain ⟨nextListed, nextScanned, nextEntries, nextCount, hlist, hscan, hnext, hbound,
            htotal, hless⟩ := children_both hbase hbelow (hchildren.mono hperm.subset) htracks
              hinside hcount
          obtain ⟨final, hfinal, hhits⟩ := @ih nextEntries nextListed nextCount nextScanned scans
            hnext (by omega) hbound (by omega) (by omega)
          refine ⟨final, ?_, ?_⟩
          · rw [listLoop]
            dsimp only
            rw [hlist]
            exact hfinal
          · rw [scanLoop]
            dsimp only
            rw [hscan]
            exact hhits
      | @listed path below children listed scanned hbelow hchildren hdead htracks =>
          rw [length_cons, coming] at hrounds hscans
          rw [coming] at hroom
          push_cast at hroom
          have hperm := perm_sortedChildren lower children
          have hweights := weights_perm hperm
          have hinside : (entries.length + weights (sortedChildren lower children) +
              coming listed : ℤ) < maxEntries := by
            rw [hweights]
            omega
          obtain ⟨nextListed, nextEntries, hlist, hsame, hnext, hbound, htotal, hless⟩ :=
            children_dead hbase hbelow (hchildren.mono hperm.subset) hdead htracks
              hinside
          obtain ⟨final, hfinal, hhits⟩ := @ih nextEntries nextListed count scanned scans
            hnext (by omega) (hcount.trans hbound) (by omega) (by omega)
          rw [hsame] at hhits
          refine ⟨final, ?_, hhits⟩
          rw [listLoop]
          dsimp only
          rw [hlist]
          exact hfinal

end Tracking

/-! ## The same result -/

/-- The matcher means its pattern, it prunes no match, and a pruned glob of a tree below the limit
is the unpruned one. -/
theorem glob_agrees (lower : Text → Text) (fnmatch : Text → Text → Bool) (pattern : Text) :
    (∀ relativePath, pathParts relativePath ≠ [] →
      ((compilePortableGlob fnmatch pattern).matchesPath relativePath = true ↔
        Matches (compilePortableGlob fnmatch pattern).segments (pathParts relativePath))) ∧
    (∀ directory more, pathParts more ≠ [] →
      (compilePortableGlob fnmatch pattern).matchesPath (directory ++ slash :: more) = true →
        (compilePortableGlob fnmatch pattern).canMatchDescendant directory = true) ∧
    ∀ (root : Root) (path : Text) (children : Children) (maxEntries maxMatches : ℤ),
      root.base = .directory (.ok children) → Scannable children →
        (weights children : ℤ) < maxEntries → 1 ≤ maxMatches →
          ∃ result, globPathsViaPrimitives lower fnmatch root pattern path maxEntries maxMatches =
              some (.ok result) ∧
            globPaths lower fnmatch root pattern path maxEntries maxMatches =
              some (.ok result) := by
  refine ⟨fun relativePath hparts => ?_, fun directory more hmore hmatches => ?_, ?_⟩
  · rw [PortableGlobMatcher.matchesPath_iff, and_iff_right hparts]
  · rw [PortableGlobMatcher.matchesPath_iff, pathParts_append_slash] at hmatches
    exact PortableGlobMatcher.canMatchDescendant_of_matches hmore hmatches.2
  · intro root path children maxEntries maxMatches hbase hchildren hsmall hmatches
    have hpositive : ¬ maxEntries < 1 := by omega
    have hrounds : 1 + weights children ≤ maxEntries.toNat + 1 := by omega
    have htracks : Tracks (compilePortableGlob fnmatch pattern) root.path
        [⟨root.path, .ok children⟩] [⟨root.path, [], .ok children⟩] :=
      .both .base hchildren .nil
    obtain ⟨final, hfinal, hhits⟩ := @loops_agree _ _ maxEntries root.absolute [] _ 0 _ lower
      (maxEntries.toNat + 1) (maxEntries.toNat + 1) htracks (by simpa [coming] using hsmall)
      (le_refl 0) (by simpa [coming] using hrounds) (by simpa [coming] using hrounds)
    refine ⟨globResult maxMatches false (hitsOf (compilePortableGlob fnmatch pattern) final),
      ?_, ?_⟩
    · rw [globPathsViaPrimitives, hbase]
      dsimp only
      rw [listEntries, if_neg hpositive, hbase]
      dsimp only
      rw [hfinal]
      rfl
    · rw [globPaths, if_neg (by omega), hbase]
      dsimp only
      rw [hitsOf, filter_nil] at hhits
      rw [hhits]
      rfl

/-! ## Small trees -/

def plain : Info :=
  ⟨true, 0, 0, 0⟩

def named (text : String) (legal : lit text ≠ [] ∧ slash ∉ lit text) : Name :=
  ⟨lit text, legal⟩

def sameText (pattern part : Text) : Bool :=
  pattern = part

/-- `src/a` and `b`. -/
def smallTree : Children :=
  [(named "src" (by decide), .directory plain (.ok [(named "a" (by decide), .leaf plain)])),
    (named "b" (by decide), .leaf plain)]

def rootOf (children : Children) : Root :=
  ⟨lit "/work", lit "work", by decide, .directory (.ok children)⟩

theorem scannable_smallTree : Scannable smallTree := by
  constructor
  · intro name info error hoccurs
    cases hoccurs with
    | here hentry => simp [smallTree] at hentry
    | deeper hdirectory hinner =>
        simp only [smallTree, mem_cons, Prod.mk.injEq, Tree.directory.injEq, reduceCtorEq,
          and_false, not_mem_nil, or_false] at hdirectory
        cases hdirectory.2.2
        cases hinner with
        | here hentry => simp at hentry
        | deeper hdirectory hinner => simp at hdirectory
  · intro entry hoccurs
    cases hoccurs with
    | here hentry =>
        simp only [smallTree, mem_cons, not_mem_nil, or_false] at hentry
        rcases hentry with rfl | rfl <;> decide
    | deeper hdirectory hinner =>
        simp only [smallTree, mem_cons, Prod.mk.injEq, Tree.directory.injEq, reduceCtorEq,
          and_false, not_mem_nil, or_false] at hdirectory
        cases hdirectory.2.2
        cases hinner with
        | here hentry =>
            rw [mem_singleton.mp hentry]
            decide
        | deeper hdirectory hinner => simp at hdirectory

theorem glob_agrees_smallTree :
    ∃ result, globPathsViaPrimitives id sameText (rootOf smallTree) (lit "**/a") (lit ".") 10 5 =
        some (.ok result) ∧
      globPaths id sameText (rootOf smallTree) (lit "**/a") (lit ".") 10 5 =
        some (.ok result) :=
  (glob_agrees id sameText (lit "**/a")).2.2 (rootOf smallTree) (lit ".") smallTree 10 5 rfl
    scannable_smallTree (by decide) (by decide)

/-- A directory `a` with a file whose name is one backslash. -/
def backslashTree : Children :=
  [(named "a" (by decide), .directory plain (.ok [(named "\\" (by decide), .leaf plain)]))]

/-- A directory `b` that cannot be scanned. -/
def lockedTree : Children :=
  [(named "b" (by decide), .directory plain (.error (lit "denied")))]

def matchCounts (result : Option (Except WorkspaceError WorkspaceGlobResult)) :
    Option (Option ℕ) :=
  result.map fun result => result.toOption.map WorkspaceGlobResult.matchCount

/-- The empty path matches no pattern; a name without a part is pruned although it matches; a
directory that nobody has to enter may be locked; and no limit of matches is below one. -/
theorem glob_disagrees :
    (compilePortableGlob sameText (lit "**")).matchesPath [] = false ∧
    Matches (compilePortableGlob sameText (lit "**")).segments (pathParts []) ∧
    matchCounts (globPaths id sameText (rootOf backslashTree) (lit "a") [] 10 5) =
      some (some 1) ∧
    matchCounts (globPathsViaPrimitives id sameText (rootOf backslashTree) (lit "a") [] 10 5) =
      some (some 2) ∧
    matchCounts (globPaths id sameText (rootOf lockedTree) (lit "a") [] 10 5) = some (some 0) ∧
    matchCounts (globPathsViaPrimitives id sameText (rootOf lockedTree) (lit "a") [] 10 5) =
      some none ∧
    matchCounts (globPaths id sameText (rootOf smallTree) (lit "b") [] 10 0) = some none ∧
    matchCounts (globPathsViaPrimitives id sameText (rootOf smallTree) (lit "b") [] 10 0) =
      some (some 1) := by
  refine ⟨by decide +kernel, ?_, by decide +kernel, by decide +kernel, by decide +kernel,
    by decide +kernel, by decide +kernel, by decide +kernel⟩
  exact ⟨[[]], rfl, .cons (.gap []) .nil⟩

end ReuleauxCoder.Workspace.Local
