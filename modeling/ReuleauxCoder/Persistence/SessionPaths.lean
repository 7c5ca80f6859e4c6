import Mathlib
import ReuleauxCoder.Library.Base32
import ReuleauxCoder.Library.ByteLiterals
import ReuleauxCoder.Tools.Truncation

/-!
# Session paths

A session is stored under its identifier when that is lowercase and harmless, and else
under a tagged base32 name.  Entries from before the mapping have the plain identifier, so
it is tried when nothing has the tagged name.  Tagged names differ for different
identifiers whatever the file system makes of case; plain identifiers need not, and the
lookup asks the file system.
-/

namespace ReuleauxCoder.Persistence

open PyText Tools List
open scoped ByteLiterals

/-! ## Components -/

/-- An identifier that `is_safe_session_id` accepts. -/
abbrev SafeSessionId := { sessionId : Text // isSafeSessionId sessionId = true }

/-- `str.lower` on ASCII. -/
def lowerAscii (c : CodePoint) : CodePoint :=
  if 65 ≤ c.val ∧ c.val ≤ 90 then Fin.ofNat 0x110000 (c.val + 32) else c

def encodedPrefix : Text := lit "~rcsid-"

def isLowerAlphanumeric (c : CodePoint) : Bool :=
  (48 ≤ c.val && c.val ≤ 57) || (97 ≤ c.val && c.val ≤ 122)

/-- `_DIRECT_COMPONENT.fullmatch`. -/
def isDirectComponent : Text → Bool
  | [] => false
  | c :: rest =>
      isLowerAlphanumeric c && rest.all fun d => isLowerAlphanumeric d || d ∈ lit "_-"

def windowsReservedComponents : List Text :=
  [lit "con", lit "prn", lit "aux", lit "nul"] ++
    (List.range 9).map (fun index => lit "com" ++ PyJson.intText (index + 1)) ++
      (List.range 9).map fun index => lit "lpt" ++ PyJson.intText (index + 1)

def base32Alphabet (value : Fin 32) : CodePoint :=
  (lit "ABCDEFGHIJKLMNOPQRSTUVWXYZ234567").getD value (ofChar '=')

/-- `session_id.encode("ascii")`. -/
def asciiBytes (text : Text) : List Base32.Byte :=
  text.map fun c => Fin.ofNat 256 c.val

/-- `base64.b32encode`. -/
def b32encode (bytes : List Base32.Byte) : Text :=
  Base32.encode base32Alphabet (ofChar '=') bytes

/-- `session_path_component`. -/
def sessionPathComponent (sessionId : SafeSessionId) : Text :=
  if isDirectComponent sessionId.val && !encodedPrefix.isPrefixOf sessionId.val &&
      sessionId.val ∉ windowsReservedComponents then sessionId.val
  else
    let encoded := b32encode (asciiBytes sessionId.val)
    encodedPrefix ++ (encoded.rdropWhile (· = ofChar '=')).map lowerAscii

/-- `_is_windows_compatible_component`. -/
def isWindowsCompatibleComponent (value : Text) : Bool :=
  if value.any fun c => c ∈ lit "<>:\"/\\|?*" then false
  else if value.getLast?.any fun c => c ∈ lit " ." then false
  else (value.takeWhile (· ≠ ofChar '.')).map lowerAscii ∉ windowsReservedComponents

/-! ## The directory -/

inductive LstatResult where
  | present
  | missing
  /-- An `OSError` other than `FileNotFoundError`. -/
  | failing
  deriving DecidableEq

structure SessionsDirectory where
  onWindows : Bool
  caseSensitive : Bool
  entries : List Text
  /-- The names whose status cannot be read. -/
  failing : Text → Bool

namespace SessionsDirectory

/-- The name by which the file system knows an entry. -/
def fold (directory : SessionsDirectory) (name : Text) : Text :=
  if directory.caseSensitive then name else name.map lowerAscii

/-- Two names of one entry. -/
def SameEntry (directory : SessionsDirectory) (left right : Text) : Prop :=
  directory.fold left = directory.fold right

instance (directory : SessionsDirectory) (left right : Text) :
    Decidable (directory.SameEntry left right) :=
  inferInstanceAs (Decidable (directory.fold left = directory.fold right))

def lstat (directory : SessionsDirectory) (name : Text) : LstatResult :=
  if directory.failing (directory.fold name) then .failing
  else if directory.fold name ∈ directory.entries.map directory.fold then .present
  else .missing

/-- `session_path_candidates`. -/
def sessionPathCandidates (directory : SessionsDirectory) (sessionId : SafeSessionId) :
    List Text :=
  let canonical := sessionPathComponent sessionId
  if canonical = sessionId.val then [canonical]
  else if directory.onWindows && !isWindowsCompatibleComponent sessionId.val then [canonical]
  else [canonical, sessionId.val]

/-- The loop over the candidates. -/
def firstLocated (directory : SessionsDirectory) (suffix : Text) : List Text → Option Text
  | [] => none
  | component :: rest =>
      match directory.lstat (component ++ suffix) with
      | .missing => directory.firstLocated suffix rest
      | .failing => some (component ++ suffix)
      | .present => some (component ++ suffix)

/-- `session_storage_path`: the name in the root directory. -/
def sessionStoragePath (directory : SessionsDirectory) (sessionId : SafeSessionId)
    (suffix : Text) : Text :=
  (directory.firstLocated suffix (directory.sessionPathCandidates sessionId)).getD
    (sessionPathComponent sessionId ++ suffix)

/-- What the store and its predecessors leave in a directory: entries of accepted
identifiers where the store locates them, and entries with plain identifiers. -/
inductive Produced : SessionsDirectory → Prop
  | empty (onWindows caseSensitive : Bool) (failing : Text → Bool) :
      Produced ⟨onWindows, caseSensitive, [], failing⟩
  | located {directory : SessionsDirectory} (sessionId : SafeSessionId) (suffix : Text) :
      Produced directory → Produced { directory with
        entries := directory.sessionStoragePath sessionId suffix :: directory.entries }
  | legacy {directory : SessionsDirectory} (sessionId : SafeSessionId) (suffix : Text) :
      Produced directory → Produced { directory with
        entries := (sessionId.val ++ suffix) :: directory.entries }

end SessionsDirectory

/-! ## Names of different identifiers -/

/-- A letter of the alphabet, as the tagged name has it. -/
def taggedLetter (value : Fin 32) : CodePoint :=
  lowerAscii (base32Alphabet value)

theorem taggedLetter_injective : Function.Injective taggedLetter := by
  have hindex : ∀ value, (lit "abcdefghijklmnopqrstuvwxyz234567").idxOf (taggedLetter value) =
      value.val := by
    decide +kernel
  intro left right heq
  apply Fin.ext
  rw [← hindex left, heq, hindex]

theorem lowerAscii_taggedLetter :
    ∀ value, lowerAscii (taggedLetter value) = taggedLetter value := by
  decide +kernel

def taggedName (sessionId : SafeSessionId) : Text :=
  encodedPrefix ++ (Base32.digits (asciiBytes sessionId.val)).map taggedLetter

theorem sessionPathComponent_cases (sessionId : SafeSessionId) :
    isDirectComponent sessionId.val = true ∧ sessionPathComponent sessionId = sessionId.val ∨
      sessionPathComponent sessionId = taggedName sessionId := by
  rw [sessionPathComponent]
  split
  · rename_i hdirect
    simp only [Bool.and_eq_true] at hdirect
    exact .inl ⟨hdirect.1.1, rfl⟩
  · right
    have hpadding : ∀ value, base32Alphabet value ≠ ofChar '=' := by decide +kernel
    have hletters := Base32.rdropWhile_encode hpadding (asciiBytes sessionId.val)
    simp only [b32encode, hletters, map_map]
    rfl

/-! ### Characters -/

theorem safe_ascii (sessionId : SafeSessionId) : ∀ c ∈ sessionId.val, c.val < 128 := by
  have hsafe := sessionId.property
  have hpunctuation : ∀ d ∈ lit "_.:-", d.val < 128 := by
    have hall : ((lit "_.:-").all fun d => decide (d.val < 128)) = true := by decide
    simpa only [all_eq_true, decide_eq_true_eq] using hall
  have halphanumeric : ∀ d, isAsciiAlphanumeric d = true → d.val < 128 := by
    intro d hd
    simp only [isAsciiAlphanumeric, Bool.or_eq_true, Bool.and_eq_true, decide_eq_true_eq] at hd
    omega
  unfold isSafeSessionId at hsafe
  split at hsafe
  · exact absurd hsafe Bool.false_ne_true
  · rename_i first rest heq
    simp only [Bool.and_eq_true, all_eq_true] at hsafe
    rw [heq]
    intro c hc
    rcases mem_cons.mp hc with rfl | hc
    · exact halphanumeric _ hsafe.1.1.1
    · have hrest := hsafe.1.1.2 c hc
      rw [Bool.or_eq_true, decide_eq_true_eq] at hrest
      exact hrest.elim (halphanumeric c) (hpunctuation c)

theorem safe_head (sessionId : SafeSessionId) :
    ∃ first rest, sessionId.val = first :: rest ∧ isAsciiAlphanumeric first = true := by
  have hsafe := sessionId.property
  unfold isSafeSessionId at hsafe
  split at hsafe
  · exact absurd hsafe Bool.false_ne_true
  · rename_i first rest heq
    simp only [Bool.and_eq_true] at hsafe
    exact ⟨first, rest, heq, hsafe.1.1.1⟩

theorem asciiBytes_injective {left right : Text} (hleft : ∀ c ∈ left, c.val < 128)
    (hright : ∀ c ∈ right, c.val < 128) (heq : asciiBytes left = asciiBytes right) :
    left = right := by
  induction left generalizing right with
  | nil => exact (map_eq_nil_iff.mp heq.symm).symm
  | cons c rest ih =>
      cases right with
      | nil => simp [asciiBytes] at heq
      | cons d more =>
          simp only [asciiBytes, map_cons, List.cons.injEq] at heq
          have hc := hleft c (mem_cons_self ..)
          have hd := hright d (mem_cons_self ..)
          have hvalue := congrArg Fin.val heq.1
          rw [Fin.val_ofNat, Fin.val_ofNat, Nat.mod_eq_of_lt (by omega),
            Nat.mod_eq_of_lt (by omega)] at hvalue
          rw [Fin.ext hvalue, ih (fun e he => hleft e (mem_cons_of_mem _ he))
            (fun e he => hright e (mem_cons_of_mem _ he)) heq.2]

theorem taggedName_injective {first second : SafeSessionId}
    (heq : taggedName first = taggedName second) : first = second := by
  have hletters := append_cancel_left heq
  have hdigits := (map_injective_iff.mpr taggedLetter_injective) hletters
  exact Subtype.ext (asciiBytes_injective (safe_ascii first) (safe_ascii second)
    (Base32.digits_injective hdigits))

/-! ### Case -/

theorem lowerAscii_taggedName (sessionId : SafeSessionId) :
    (taggedName sessionId).map lowerAscii = taggedName sessionId := by
  have htag : encodedPrefix.map lowerAscii = encodedPrefix := by decide
  rw [taggedName, map_append, htag, map_map]
  congr 1
  apply map_congr_left
  intro value _
  exact lowerAscii_taggedLetter value

/-- A plain identifier is never a tagged name, in whatever case. -/
theorem taggedName_ne_plain (first second : SafeSessionId) :
    taggedName first ≠ second.val.map lowerAscii := by
  intro heq
  obtain ⟨c, rest, hsecond, halphanumeric⟩ := safe_head second
  have htilde : (taggedName first).head? = some (ofChar '~') := rfl
  have hhead : (second.val.map lowerAscii).head? = some (lowerAscii c) := by
    rw [hsecond]
    rfl
  rw [heq, hhead] at htilde
  have hvalue : (lowerAscii c).val = 126 := congrArg Fin.val (Option.some.inj htilde)
  simp only [isAsciiAlphanumeric, Bool.or_eq_true, Bool.and_eq_true, decide_eq_true_eq]
    at halphanumeric
  rw [lowerAscii] at hvalue
  split at hvalue
  · rw [Fin.val_ofNat, Nat.mod_eq_of_lt (by omega)] at hvalue
    omega
  · omega

/-! ## Entries of different identifiers -/

namespace SessionsDirectory

variable (directory : SessionsDirectory)

/-- An identifier is located under its plain name: it has no other, or nothing has the
tagged one and the plain one may be looked up and is there. -/
def KeepsPlainName (sessionId : SafeSessionId) (suffix : Text) : Prop :=
  sessionPathComponent sessionId = sessionId.val ∨
    directory.lstat (sessionPathComponent sessionId ++ suffix) = .missing ∧
      (directory.onWindows = true → isWindowsCompatibleComponent sessionId.val = true) ∧
      directory.lstat (sessionId.val ++ suffix) ≠ .missing

instance (sessionId : SafeSessionId) (suffix : Text) :
    Decidable (directory.KeepsPlainName sessionId suffix) :=
  inferInstanceAs (Decidable (_ ∨ _))

theorem firstLocated_cons_of_ne {suffix component : Text} {rest : List Text}
    (hfound : directory.lstat (component ++ suffix) ≠ .missing) :
    directory.firstLocated suffix (component :: rest) = some (component ++ suffix) := by
  rw [firstLocated]
  cases hlstat : directory.lstat (component ++ suffix) with
  | missing => exact absurd hlstat hfound
  | present => rfl
  | failing => rfl

theorem firstLocated_cons_of_missing {suffix component : Text} {rest : List Text}
    (hmissing : directory.lstat (component ++ suffix) = .missing) :
    directory.firstLocated suffix (component :: rest) = directory.firstLocated suffix rest := by
  rw [firstLocated, hmissing]

/-- The loop finds the tagged name, the plain one or nothing. -/
theorem sessionStoragePath_eq (sessionId : SafeSessionId) (suffix : Text) :
    directory.sessionStoragePath sessionId suffix =
      (if directory.KeepsPlainName sessionId suffix then sessionId.val
        else sessionPathComponent sessionId) ++ suffix := by
  rw [sessionStoragePath, sessionPathCandidates]
  by_cases hdirect : sessionPathComponent sessionId = sessionId.val
  · rw [if_pos hdirect, if_pos (.inl hdirect), hdirect, firstLocated]
    cases directory.lstat (sessionId.val ++ suffix) <;> rfl
  rw [if_neg hdirect]
  by_cases hfound : directory.lstat (sessionPathComponent sessionId ++ suffix) = .missing
  · split
    · rename_i hwindows
      rw [Bool.and_eq_true, Bool.not_eq_true'] at hwindows
      have hkeeps : ¬ directory.KeepsPlainName sessionId suffix := by
        rintro (hplain | ⟨-, hcompatible, -⟩)
        · exact hdirect hplain
        · exact absurd (hcompatible hwindows.1) (by simp [hwindows.2])
      rw [if_neg hkeeps, directory.firstLocated_cons_of_missing hfound]
      rfl
    · rename_i hwindows
      rw [Bool.and_eq_true, Bool.not_eq_true', not_and, Bool.not_eq_false] at hwindows
      rw [directory.firstLocated_cons_of_missing hfound]
      by_cases hplain : directory.lstat (sessionId.val ++ suffix) = .missing
      · have hkeeps : ¬ directory.KeepsPlainName sessionId suffix := by
          rintro (hsame | ⟨-, -, hpresent⟩)
          · exact hdirect hsame
          · exact hpresent hplain
        rw [if_neg hkeeps, directory.firstLocated_cons_of_missing hplain]
        rfl
      · rw [if_pos (.inr ⟨hfound, hwindows, hplain⟩), directory.firstLocated_cons_of_ne hplain]
        rfl
  · have hkeeps : ¬ directory.KeepsPlainName sessionId suffix := by
      rintro (hplain | ⟨hmissing, -⟩)
      · exact hdirect hplain
      · exact hfound hmissing
    have hlocated : ∀ rest, directory.firstLocated suffix
        (sessionPathComponent sessionId :: rest) =
          some (sessionPathComponent sessionId ++ suffix) :=
      fun rest => directory.firstLocated_cons_of_ne hfound
    rw [if_neg hkeeps]
    split
    · rw [hlocated]
      rfl
    · rw [hlocated]
      rfl

theorem sameEntry_append (left right suffix : Text) :
    directory.SameEntry (left ++ suffix) (right ++ suffix) ↔ directory.SameEntry left right := by
  rw [SameEntry, SameEntry, fold, fold, fold, fold]
  split
  · exact append_left_inj suffix
  · rw [map_append, map_append]
    exact append_left_inj _

/-- Entries of two identifiers, of which the first has a tagged name, differ. -/
theorem taggedName_apart (first second : SafeSessionId) :
    ¬ directory.SameEntry (taggedName first) second.val := by
  rw [SameEntry, fold, fold]
  intro heq
  apply taggedName_ne_plain first second
  split at heq
  · rw [← lowerAscii_taggedName, heq]
  · rw [← heq, lowerAscii_taggedName]

theorem sameEntry_taggedName {first second : SafeSessionId} :
    directory.SameEntry (taggedName first) (taggedName second) ↔ first = second := by
  constructor
  · intro heq
    rw [SameEntry, fold, fold, lowerAscii_taggedName, lowerAscii_taggedName, ite_self,
      ite_self] at heq
    exact taggedName_injective heq
  · exact fun heq => congrArg (fun sessionId => directory.fold (taggedName sessionId)) heq

theorem sameEntry_plain {first second : SafeSessionId} :
    directory.SameEntry first.val second.val ↔ first = second ∨
      directory.caseSensitive = false ∧
        first.val.map lowerAscii = second.val.map lowerAscii := by
  rw [SameEntry, fold, fold]
  cases directory.caseSensitive with
  | true => simp [Subtype.ext_iff]
  | false =>
      constructor
      · exact fun heq => .inr ⟨rfl, heq⟩
      · rintro (rfl | ⟨-, heq⟩)
        · rfl
        · exact heq

theorem sessionPathComponent_of_not_keeps {sessionId : SafeSessionId} {suffix : Text}
    (hkeeps : ¬ directory.KeepsPlainName sessionId suffix) :
    sessionPathComponent sessionId = taggedName sessionId := by
  rcases sessionPathComponent_cases sessionId with ⟨-, hplain⟩ | htagged
  · exact absurd (.inl hplain) hkeeps
  · exact htagged

/-- Two identifiers are located at one entry exactly when they are one identifier, or the
file system ignores case, they differ in case only, and both are located under their plain
names. -/
theorem sessionStoragePath_shared (first second : SafeSessionId) (suffix : Text) :
    directory.SameEntry (directory.sessionStoragePath first suffix)
        (directory.sessionStoragePath second suffix) ↔
      first = second ∨ directory.caseSensitive = false ∧
        first.val.map lowerAscii = second.val.map lowerAscii ∧
        directory.KeepsPlainName first suffix ∧ directory.KeepsPlainName second suffix := by
  rw [sessionStoragePath_eq, sessionStoragePath_eq, sameEntry_append]
  by_cases hfirst : directory.KeepsPlainName first suffix
  · by_cases hsecond : directory.KeepsPlainName second suffix
    · rw [if_pos hfirst, if_pos hsecond, sameEntry_plain]
      simp [hfirst, hsecond]
    · rw [if_pos hfirst, if_neg hsecond, directory.sessionPathComponent_of_not_keeps hsecond]
      apply iff_of_false
      · exact fun heq => directory.taggedName_apart second first heq.symm
      · rintro (rfl | ⟨-, -, -, hkeeps⟩)
        · exact hsecond hfirst
        · exact hsecond hkeeps
  · rw [if_neg hfirst, directory.sessionPathComponent_of_not_keeps hfirst]
    by_cases hsecond : directory.KeepsPlainName second suffix
    · rw [if_pos hsecond]
      apply iff_of_false
      · exact directory.taggedName_apart first second
      · rintro (rfl | ⟨-, -, hkeeps, -⟩)
        · exact hfirst hsecond
        · exact hfirst hkeeps
    · rw [if_neg hsecond, directory.sessionPathComponent_of_not_keeps hsecond,
        sameEntry_taggedName]
      simp [hfirst]

/-- A session "foo" is stored; where case is ignored, "Foo" is located at its entry. -/
theorem sessionStoragePath_not_injective :
    ¬ ∀ (directory : SessionsDirectory), Produced directory →
      ∀ (first second : SafeSessionId) (suffix : Text), first ≠ second →
        ¬ directory.SameEntry (directory.sessionStoragePath first suffix)
          (directory.sessionStoragePath second suffix) := by
  intro hinjective
  let lower : SafeSessionId := ⟨lit "foo", by decide +kernel⟩
  let upper : SafeSessionId := ⟨lit "Foo", by decide +kernel⟩
  have hproduced := Produced.located lower [] (.empty false false fun _ => false)
  apply hinjective _ hproduced lower upper []
  · decide +kernel
  · decide +kernel

end SessionsDirectory

end ReuleauxCoder.Persistence
