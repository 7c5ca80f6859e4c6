import ReuleauxCoder.Library.Check
import ReuleauxCoder.Library.JsonText
import ReuleauxCoder.Library.LineBreaks

/-!
# Patches

`_parse_patch` reads a patch line by line, and `_apply_hunks` replaces the one place
where each hunk matches.  An accepted patch names every file once, and each of its
update hunks has lines to match and changes them.
-/

namespace ReuleauxCoder.Workspace

open PyText PyJson Check List

structure Hunk where
  old : List Text
  new : List Text
  deriving DecidableEq

structure PatchFile where
  path : Text
  add : Bool
  hunks : List Hunk
  deriving DecidableEq

/-- The reasons for which a patch is refused. -/
inductive PatchError where
  | tooLong
  | unframed
  | expectedFile (line : ℕ)
  | emptyPath
  | duplicateFile (path : Text)
  | addedLine (path : Text)
  | expectedHunk (path : Text) (line : ℕ)
  | hunkLine (path line : Text)
  | noContext (path : Text)
  | unchanged (path : Text)
  | noHunk (path : Text)
  | tooManyHunks
  | tooManyFiles
  | notFound (path : Text)
  | notUnique (path : Text)
  | unknownPaths (paths : List Text)
  | badRevision
  | targetExists (path : Text)
  | noTarget (path : Text)
  | revisionMismatch (path wanted found : Text)
  deriving DecidableEq

/-- The text of the `ValueError`; `repr` is Python's for strings. -/
def PatchError.message (repr : Text → Text) : PatchError → Text
  | .tooLong => lit "patch must be a string of at most 256000 characters"
  | .unframed => lit "patch must start with *** Begin Patch and end with *** End Patch"
  | .expectedFile line => lit "expected Update File or Add File at patch line " ++ decimal line
  | .emptyPath => lit "patch file path must not be empty"
  | .duplicateFile path => lit "duplicate patch file: " ++ path
  | .addedLine path => lit "Add File " ++ path ++ lit " accepts only + lines"
  | .expectedHunk path line =>
      lit "expected @@ hunk in " ++ path ++ lit " at patch line " ++ decimal line
  | .hunkLine path line => lit "invalid hunk line in " ++ path ++ lit ": " ++ repr line
  | .noContext path =>
      lit "each update hunk in " ++ path ++ lit " needs context or removed lines"
  | .unchanged path => lit "hunk in " ++ path ++ lit " does not change anything"
  | .noHunk path => lit "Update File " ++ path ++ lit " needs at least one @@ hunk"
  | .tooManyHunks => lit "a file may contain at most 200 hunks"
  | .tooManyFiles => lit "a patch may contain at most 20 files"
  | .notFound path => lit "hunk not found in " ++ path ++ lit "; include more exact context"
  | .notUnique path => lit "hunk not unique in " ++ path ++ lit "; include more exact context"
  | .unknownPaths paths =>
      lit "expected_revisions has unknown paths: [" ++
        List.intercalate (lit ", ") (paths.map repr) ++ lit "]"
  | .badRevision => lit "expected revision hashes must contain 64 hexadecimal characters"
  | .targetExists path => lit "Add File target already exists: " ++ path
  | .noTarget path => lit "Update File target does not exist: " ++ path
  | .revisionMismatch path wanted found =>
      lit "expected revision mismatch for " ++ path ++ lit ": wanted " ++ wanted.take 12 ++
        lit ", found " ++ found.take 12

/-! ## Reading a patch -/

/-- `text.startswith(literal)`. -/
def startsWith (literal : String) (text : Text) : Bool :=
  (lit literal).isPrefixOf text

def addPrefix : String := "*** Add File: "

def updatePrefix : String := "*** Update File: "

def isHeader (line : Text) : Bool :=
  startsWith updatePrefix line || startsWith addPrefix line

/-- The lines of an added file, and the rest of the patch. -/
def parseAdded (path : Text) : List Text → Except PatchError (List Text × List Text)
  | [] => .ok ([], [])
  | line :: rest =>
      if startsWith "*** " line then .ok ([], line :: rest)
      else if startsWith "+" line then do
        let (added, rest) ← parseAdded path rest
        return (line.drop 1 :: added, rest)
      else .error (.addedLine path)

/-- The lines of one hunk, and the rest of the patch. -/
def parseHunkLines (path : Text) : List Text → Except PatchError (Hunk × List Text)
  | [] => .ok (⟨[], []⟩, [])
  | line :: rest =>
      if startsWith "@@" line || startsWith "*** " line then .ok (⟨[], []⟩, line :: rest)
      else if startsWith " " line || startsWith "-" line || startsWith "+" line then do
        let (hunk, rest) ← parseHunkLines path rest
        let text := line.drop 1
        return (
          { old := if startsWith "+" line then hunk.old else text :: hunk.old
            new := if startsWith "-" line then hunk.new else text :: hunk.new }, rest)
      else .error (.hunkLine path line)

/-- The hunks of an updated file, and the rest of the patch.  `total` is the number
of lines of the whole patch, and `fuel` bounds the hunks that are left. -/
def parseHunks (path : Text) (total : ℕ) :
    ℕ → List Text → Except PatchError (List Hunk × List Text)
  | _, [] => .ok ([], [])
  | 0, lines => .ok ([], lines)
  | fuel + 1, line :: rest =>
      if isHeader line then .ok ([], line :: rest)
      else do
        require (startsWith "@@" line) (.expectedHunk path (total - (rest.length + 1)))
        let (hunk, rest) ← parseHunkLines path rest
        require (hunk.old ≠ []) (.noContext path)
        require (hunk.old ≠ hunk.new) (.unchanged path)
        let (hunks, rest) ← parseHunks path total fuel rest
        return (hunk :: hunks, rest)

/-- The hunks after a header, and the rest of the patch. -/
def parseBody (path : Text) (add : Bool) (total : ℕ) (lines : List Text) :
    Except PatchError (List Hunk × List Text) :=
  if add then do
    let (added, rest) ← parseAdded path lines
    return ([⟨[], added⟩], rest)
  else do
    let (hunks, rest) ← parseHunks path total lines.length lines
    require (hunks ≠ []) (.noHunk path)
    return (hunks, rest)

/-- The files of a patch after those already read; `fuel` bounds the files left. -/
def parseFiles (total : ℕ) :
    ℕ → List PatchFile → List Text → Except PatchError (List PatchFile)
  | _, files, [] => .ok files
  | 0, files, _ => .ok files
  | fuel + 1, files, header :: rest => do
      require (isHeader header) (.expectedFile (total - (rest.length + 1)))
      let add := startsWith addPrefix header
      let path := strip (header.drop (if add then addPrefix else updatePrefix).length)
      require (path ≠ []) .emptyPath
      require (path ∉ files.map PatchFile.path) (.duplicateFile path)
      let (hunks, rest) ← parseBody path add total rest
      require (hunks.length ≤ 200) .tooManyHunks
      require (files.length + 1 ≤ 20) .tooManyFiles
      parseFiles total fuel (files ++ [{ path, add, hunks }]) rest

/-- `_parse_patch`. -/
def parsePatch (patch : Text) : Except PatchError (List PatchFile) := do
  require (patch.length ≤ 256000) .tooLong
  let lines := splitLines patch
  require (3 ≤ lines.length ∧ lines.head? = some (lit "*** Begin Patch") ∧
    lines.getLast? = some (lit "*** End Patch")) .unframed
  parseFiles lines.length lines.length [] (lines.drop 1).dropLast

/-! ## Applying hunks -/

/-- Where the lines of a hunk occur from `cursor` on. -/
def occurrences (lines old : List Text) (cursor : ℕ) : List ℕ :=
  (List.range' cursor (lines.length + 1 - old.length - cursor)).filter fun index =>
    (lines.drop index).take old.length = old

/-- One hunk: the lines after it and the place where the search goes on. -/
def applyHunk (path : Text) (current : List Text × ℕ) (hunk : Hunk) :
    Except PatchError (List Text × ℕ) :=
  match occurrences current.1 hunk.old current.2 with
  | [start] =>
      .ok (current.1.take start ++ hunk.new ++ current.1.drop (start + hunk.old.length),
        start + hunk.new.length)
  | [] => .error (.notFound path)
  | _ => .error (.notUnique path)

/-- `_apply_hunks`. -/
def applyHunks (content : Text) (hunks : List Hunk) (path : Text) : Except PatchError Text := do
  let newline := if [carriageReturn, lineFeed] <:+: content then lit "\r\n" else lit "\n"
  let (lines, _) ← hunks.foldlM (applyHunk path) (splitLines content, 0)
  let ends := content.getLast?.any fun c => c = lineFeed || c = carriageReturn
  return List.intercalate newline lines ++ if ends then newline else []

/-! ## Accepted patches -/

/-- A file of a patch as `_parse_patch` accepts it. -/
structure PatchFile.WellFormed (file : PatchFile) : Prop where
  named : file.path ≠ []
  added : file.add = true → ∃ lines, file.hunks = [⟨[], lines⟩]
  updated : file.add = false →
    file.hunks ≠ [] ∧ ∀ hunk ∈ file.hunks, hunk.old ≠ [] ∧ hunk.old ≠ hunk.new
  bounded : file.hunks.length ≤ 200

variable {lines rest : List Text} {path : Text} {fuel total : ℕ} {files : List PatchFile}

theorem length_parseAdded {added : List Text} (hparse : parseAdded path lines = .ok (added, rest)) :
    rest.length ≤ lines.length := by
  induction lines generalizing added rest with
  | nil =>
      cases hparse
      exact le_rfl
  | cons line lines ih =>
      rw [parseAdded] at hparse
      split at hparse
      · cases hparse
        exact le_rfl
      · split at hparse
        · simp only [bind_eq_ok, pure_eq_ok] at hparse
          obtain ⟨⟨more, left⟩, hmore, heq⟩ := hparse
          cases heq
          exact Nat.le_succ_of_le (ih hmore)
        · cases hparse

theorem length_parseHunkLines {hunk : Hunk}
    (hparse : parseHunkLines path lines = .ok (hunk, rest)) : rest.length ≤ lines.length := by
  induction lines generalizing hunk rest with
  | nil =>
      cases hparse
      exact le_rfl
  | cons line lines ih =>
      rw [parseHunkLines] at hparse
      split at hparse
      · cases hparse
        exact le_rfl
      · split at hparse
        · simp only [bind_eq_ok, pure_eq_ok] at hparse
          obtain ⟨⟨more, left⟩, hmore, heq⟩ := hparse
          cases heq
          exact Nat.le_succ_of_le (ih hmore)
        · cases hparse

variable {hunks : List Hunk}

theorem parseHunks_eq_ok (hparse : parseHunks path total fuel lines = .ok (hunks, rest)) :
    (∀ hunk ∈ hunks, hunk.old ≠ [] ∧ hunk.old ≠ hunk.new) ∧ rest.length ≤ lines.length := by
  induction fuel generalizing lines hunks rest with
  | zero =>
      cases lines <;> cases hparse <;> simp
  | succ fuel ih =>
      cases lines with
      | nil =>
          cases hparse
          simp
      | cons line lines =>
          rw [parseHunks] at hparse
          split at hparse
          · cases hparse
            simp
          · simp only [bind_eq_ok, exists_unit, require_eq_ok, pure_eq_ok] at hparse
            obtain ⟨-, ⟨hunk, left⟩, hhunk, hcontext, hchanged, ⟨others, after⟩, hothers, heq⟩ :=
              hparse
            cases heq
            obtain ⟨hall, hlength⟩ := ih hothers
            refine ⟨fun other hother => ?_, ?_⟩
            · rcases mem_cons.mp hother with rfl | hother
              · exact ⟨hcontext, hchanged⟩
              · exact hall other hother
            · exact hlength.trans (Nat.le_succ_of_le (length_parseHunkLines hhunk))

/-- Fuel for every line is enough. -/
theorem parseHunks_fuel {more : ℕ} (hfuel : lines.length ≤ fuel) (hmore : lines.length ≤ more) :
    parseHunks path total fuel lines = parseHunks path total more lines := by
  induction fuel generalizing lines more with
  | zero =>
      rw [length_eq_zero_iff.mp (Nat.le_zero.mp hfuel), parseHunks, parseHunks]
  | succ fuel ih =>
      cases lines with
      | nil => rw [parseHunks, parseHunks]
      | cons line lines =>
          obtain ⟨more, rfl⟩ : ∃ less, more = less + 1 := ⟨more - 1, by simp at hmore; omega⟩
          rw [parseHunks, parseHunks]
          simp only [length_cons, Nat.add_le_add_iff_right] at hfuel hmore
          split
          · rfl
          · refine bind_congr fun _ _ => bind_congr fun value hhunk => ?_
            obtain ⟨hunk, rest⟩ := value
            have hlength := length_parseHunkLines hhunk
            show (do require _ _; require _ _; _) = (do require _ _; require _ _; _)
            rw [ih (hlength.trans hfuel) (hlength.trans hmore)]

theorem length_parseBody {add : Bool}
    (hparse : parseBody path add total lines = .ok (hunks, rest)) :
    rest.length ≤ lines.length := by
  rw [parseBody] at hparse
  split at hparse
  · simp only [bind_eq_ok, pure_eq_ok] at hparse
    obtain ⟨⟨added, left⟩, hadded, heq⟩ := hparse
    cases heq
    exact length_parseAdded hadded
  · simp only [bind_eq_ok, exists_unit, require_eq_ok, pure_eq_ok] at hparse
    obtain ⟨⟨read, left⟩, hread, -, heq⟩ := hparse
    cases heq
    exact (parseHunks_eq_ok hread).2

theorem parseFiles_fuel {more : ℕ} (hfuel : lines.length ≤ fuel) (hmore : lines.length ≤ more) :
    parseFiles total fuel files lines = parseFiles total more files lines := by
  induction fuel generalizing lines more files with
  | zero =>
      rw [length_eq_zero_iff.mp (Nat.le_zero.mp hfuel), parseFiles, parseFiles]
  | succ fuel ih =>
      cases lines with
      | nil => rw [parseFiles, parseFiles]
      | cons header lines =>
          obtain ⟨more, rfl⟩ : ∃ less, more = less + 1 := ⟨more - 1, by simp at hmore; omega⟩
          rw [parseFiles, parseFiles]
          simp only [length_cons, Nat.add_le_add_iff_right] at hfuel hmore
          refine bind_congr fun _ _ => bind_congr fun _ _ => bind_congr fun _ _ =>
            bind_congr fun value hbody => ?_
          obtain ⟨hunks, rest⟩ := value
          have hlength := length_parseBody hbody
          exact bind_congr fun _ _ => bind_congr fun _ _ =>
            ih (hlength.trans hfuel) (hlength.trans hmore)

theorem wellFormed_of_parseBody {add : Bool} (hnamed : path ≠ []) (hbounded : hunks.length ≤ 200)
    (hparse : parseBody path add total lines = .ok (hunks, rest)) :
    PatchFile.WellFormed { path, add, hunks } := by
  rw [parseBody] at hparse
  cases add with
  | true =>
      simp only [if_true, bind_eq_ok, pure_eq_ok] at hparse
      obtain ⟨⟨added, left⟩, -, heq⟩ := hparse
      cases heq
      exact {
        named := hnamed
        added := fun _ => ⟨added, rfl⟩
        updated := fun hupdate => by cases hupdate
        bounded := hbounded }
  | false =>
      simp only [Bool.false_eq_true, if_false, bind_eq_ok, exists_unit, require_eq_ok,
        pure_eq_ok] at hparse
      obtain ⟨⟨read, left⟩, hread, hne, heq⟩ := hparse
      cases heq
      exact {
        named := hnamed
        added := fun hadd => by cases hadd
        updated := fun _ => ⟨hne, (parseHunks_eq_ok hread).1⟩
        bounded := hbounded }

/-- What is known of the files read so far. -/
structure Accepted (files : List PatchFile) : Prop where
  distinct : (files.map PatchFile.path).Nodup
  wellFormed : ∀ file ∈ files, file.WellFormed
  bounded : files.length ≤ 20

variable {result : List PatchFile}

theorem prefix_parseFiles (hparse : parseFiles total fuel files lines = .ok result) :
    files <+: result := by
  induction fuel generalizing files lines with
  | zero => cases lines <;> cases hparse <;> exact prefix_rfl
  | succ fuel ih =>
      cases lines with
      | nil =>
          cases hparse
          exact prefix_rfl
      | cons header lines =>
          rw [parseFiles] at hparse
          simp only [bind_eq_ok, exists_unit, require_eq_ok] at hparse
          obtain ⟨-, -, -, ⟨hunks, rest⟩, -, -, -, hrest⟩ := hparse
          exact (prefix_append _ _).trans (ih hrest)

theorem accepted_parseFiles (haccepted : Accepted files)
    (hparse : parseFiles total fuel files lines = .ok result) : Accepted result := by
  induction fuel generalizing files lines with
  | zero => cases lines <;> cases hparse <;> exact haccepted
  | succ fuel ih =>
      cases lines with
      | nil =>
          cases hparse
          exact haccepted
      | cons header lines =>
          rw [parseFiles] at hparse
          simp only [bind_eq_ok, exists_unit, require_eq_ok] at hparse
          obtain ⟨-, hnamed, hnew, ⟨hunks, rest⟩, hbody, hhunks, hfiles, hrest⟩ := hparse
          have hfile := wellFormed_of_parseBody hnamed hhunks hbody
          refine ih ?_ hrest
          exact {
            distinct := by
              rw [map_append, map_singleton, nodup_append]
              refine ⟨haccepted.distinct, nodup_singleton _, ?_⟩
              intro other hother path hmem heq
              rw [mem_singleton] at hmem
              rw [heq, hmem] at hother
              exact hnew hother
            wellFormed := by
              intro file hmem
              rcases mem_append.mp hmem with hold | hadded
              · exact haccepted.wellFormed file hold
              · rw [mem_singleton.mp hadded]
                exact hfile
            bounded := by simpa using hfiles }

theorem ne_nil_parseFiles (hfuel : 0 < fuel) (hlines : lines ≠ [])
    (hparse : parseFiles total fuel [] lines = .ok result) : result ≠ [] := by
  obtain ⟨header, rest, rfl⟩ := exists_cons_of_ne_nil hlines
  obtain ⟨fuel, rfl⟩ := Nat.exists_eq_succ_of_ne_zero hfuel.ne'
  rw [parseFiles] at hparse
  simp only [bind_eq_ok, exists_unit, require_eq_ok] at hparse
  obtain ⟨-, -, -, ⟨hunks, rest⟩, -, -, -, hrest⟩ := hparse
  exact List.IsPrefix.ne_nil (prefix_parseFiles hrest) (by simp)

/-- A patch that is accepted names its files, of which there is one, only once each,
and every hunk of an update matches lines and changes them. -/
theorem parsePatch_accepted {patch : Text} (hparse : parsePatch patch = .ok files) :
    Accepted files ∧ files ≠ [] := by
  simp only [parsePatch, bind_eq_ok, exists_unit, require_eq_ok] at hparse
  obtain ⟨-, ⟨hlines, -, -⟩, hfiles⟩ := hparse
  have hempty : Accepted [] := {
    distinct := nodup_nil
    wellFormed := fun file hfile => by cases hfile
    bounded := Nat.zero_le _ }
  have hbody : ((splitLines patch).drop 1).dropLast ≠ [] := by
    rw [← length_pos_iff, length_dropLast, length_drop]
    omega
  exact ⟨accepted_parseFiles hempty hfiles, ne_nil_parseFiles (by omega) hbody hfiles⟩

end ReuleauxCoder.Workspace
