import ReuleauxCoder.Library.ByteLiterals
import ReuleauxCoder.Workspace.TextSearchLines

/-!
# What a search reports

A loop of the search either goes on with everything it had to find, or the search ends with a
beginning of it and a reason.  So the matches are those of the files one after the other, and
where some are left out, the reasons say so.
-/

namespace ReuleauxCoder.Workspace.Local

open PyText PyJson List
open scoped ByteLiterals

/-! ## What the loops keep -/

/-- The reasons that end a search. -/
def PartialReason.Ends (reason : PartialReason) : Prop :=
  reason ≠ .fileSize ∧ reason ≠ .lineChars

def Halted (reasons : List PartialReason) : Prop :=
  ∃ reason ∈ reasons, reason.Ends

/-- What holds wherever the search is left. -/
structure Tally.Within (request : SearchRequest) (tally : Tally) : Prop where
  matches_le : tally.found.length ≤ request.maxMatches
  outputChars_eq : (tally.found.map SearchMatch.cost).sum = tally.outputChars
  outputChars_le : tally.outputChars ≤ request.maxOutputChars
  files_le : tally.scannedFiles ≤ request.maxFiles
  bytes_le : tally.scannedBytes ≤ request.maxScanBytes + 1
  cut : ∀ found ∈ tally.found, found.truncated = true → .lineChars ∈ tally.reasons

/-- What holds while the search goes on. -/
structure Tally.Running (request : SearchRequest) (tally : Tally) : Prop extends
    Tally.Within request tally where
  matches_lt : tally.found.length < request.maxMatches
  bytes_within : tally.scannedBytes ≤ request.maxScanBytes

/-- A later state of the search, which has found these in between. -/
structure Tally.Extends (tally later : Tally) (found : List SearchMatch) : Prop where
  found : later.found = tally.found ++ found
  reasons : tally.reasons ⊆ later.reasons
  files : later.scannedFiles = tally.scannedFiles
  bytes : tally.scannedBytes ≤ later.scannedBytes

namespace Tally

/-- The search has gone through so many more files. -/
def passing (count : ℕ) (tally : Tally) : Tally :=
  { tally with scannedFiles := tally.scannedFiles + count }

variable {request : SearchRequest} {tally later last : Tally} {first second : List SearchMatch}

theorem Extends.trans (hfirst : Extends tally later first) (hsecond : Extends later last second) :
    Extends tally last (first ++ second) := by
  constructor
  · rw [hsecond.found, hfirst.found, append_assoc]
  · exact List.Subset.trans hfirst.reasons hsecond.reasons
  · rw [hsecond.files, hfirst.files]
  · exact hfirst.bytes.trans hsecond.bytes

theorem passing_passing (tally : Tally) (count more : ℕ) :
    (tally.passing count).passing more = tally.passing (count + more) := by
  simp only [passing, Nat.add_assoc]

theorem Extends.passing (hextends : Extends tally later first) (count : ℕ) :
    Extends (tally.passing count) (later.passing count) first :=
  ⟨hextends.found, hextends.reasons, congrArg (· + count) hextends.files, hextends.bytes⟩

/-- The two differ in what they count of questions and files, and in the reasons. -/
structure Alike (tally later : Tally) : Prop where
  found : later.found = tally.found
  outputChars : later.outputChars = tally.outputChars
  scannedFiles : later.scannedFiles = tally.scannedFiles
  scannedBytes : later.scannedBytes = tally.scannedBytes
  reasons : tally.reasons ⊆ later.reasons

theorem Alike.extends (halike : Alike tally later) : Extends tally later [] := by
  constructor
  · rw [halike.found, append_nil]
  · exact halike.reasons
  · exact halike.scannedFiles
  · exact halike.scannedBytes.ge

theorem alike_refl (tally : Tally) : Alike tally tally :=
  ⟨rfl, rfl, rfl, rfl, List.Subset.refl _⟩

theorem Alike.trans (hfirst : Alike tally later) (hsecond : Alike later last) :
    Alike tally last := by
  constructor
  · rw [hsecond.found, hfirst.found]
  · rw [hsecond.outputChars, hfirst.outputChars]
  · rw [hsecond.scannedFiles, hfirst.scannedFiles]
  · rw [hsecond.scannedBytes, hfirst.scannedBytes]
  · exact List.Subset.trans hfirst.reasons hsecond.reasons

theorem Within.alike (hwithin : Within request tally) (halike : Alike tally later) :
    Within request later := by
  constructor
  · rw [halike.found]
    exact hwithin.matches_le
  · rw [halike.found, halike.outputChars]
    exact hwithin.outputChars_eq
  · rw [halike.outputChars]
    exact hwithin.outputChars_le
  · rw [halike.scannedFiles]
    exact hwithin.files_le
  · rw [halike.scannedBytes]
    exact hwithin.bytes_le
  · intro found hfound hcut
    rw [halike.found] at hfound
    exact halike.reasons (hwithin.cut found hfound hcut)

theorem Running.alike (hrunning : Running request tally) (halike : Alike tally later) :
    Running request later := by
  constructor
  · exact hrunning.toWithin.alike halike
  · rw [halike.found]
    exact hrunning.matches_lt
  · rw [halike.scannedBytes]
    exact hrunning.bytes_within

theorem alike_add (tally : Tally) (reason : PartialReason) : Alike tally (tally.add reason) :=
  ⟨rfl, rfl, rfl, rfl, subset_append_left _ _⟩

theorem halted_add {reason : PartialReason} (hends : reason.Ends) (tally : Tally) :
    Halted (tally.add reason).reasons :=
  ⟨reason, mem_append_right _ (mem_singleton_self reason), hends⟩

end Tally

/-- A loop that has these to find goes on with all of them, or the search ends with some. -/
def Finds (request : SearchRequest) (tally : Tally) (all : List SearchMatch) :
    Except Exit Tally → Prop
  | .ok later => later.Running request ∧ tally.Extends later all
  | .error (.returned later) =>
      later.Within request ∧ Halted later.reasons ∧
        ∃ found, found <+: all ∧ tally.Extends later found
  | .error .raised => False

variable {next : Tally → Except Exit Tally} {step : Except Exit Tally}

section Loops

variable {request : SearchRequest} {outside : Outside} {tally : Tally}

theorem ends_reason (stop : Stop) : stop.reason.Ends := by
  cases stop <;> exact ⟨nofun, nofun⟩

/-- Where the search asks, it goes on as it was or ends as it was. -/
theorem goOn_finds (outside : Outside) (hrunning : tally.Running request) :
    Finds request tally [] (tally.goOn outside) ∧
      ∀ later, tally.goOn outside = .ok later → tally.Alike later := by
  have hasked : tally.Alike { tally with asked := tally.asked + 1 } :=
    ⟨rfl, rfl, rfl, rfl, List.Subset.refl _⟩
  rw [Tally.goOn]
  cases outside.stopped tally.asked with
  | none =>
      constructor
      · exact ⟨hrunning.alike hasked, hasked.extends⟩
      · intro later hlater
        cases hlater
        exact hasked
  | some stop =>
      have hadded := hasked.trans (Tally.alike_add _ stop.reason)
      constructor
      · exact ⟨hrunning.toWithin.alike hadded, Tally.halted_add (ends_reason stop) _, [],
          prefix_rfl, hadded.extends⟩
      · intro later hlater
        cases hlater

/-! ## Lines -/

theorem reasons_list (found : SearchMatch) (tally : Tally) :
    tally.reasons ⊆ (tally.list found).reasons := by
  rw [Tally.list]
  split
  · exact subset_append_left _ _
  · exact List.Subset.refl _

theorem extends_list (found : SearchMatch) (tally : Tally) :
    tally.Extends (tally.list found) [found] :=
  ⟨rfl, reasons_list found tally, rfl, le_rfl⟩

theorem Tally.Running.list (hrunning : tally.Running request) {found : SearchMatch}
    (hroom : tally.outputChars + found.cost ≤ request.maxOutputChars) :
    (tally.list found).Within request := by
  constructor
  · rw [Tally.list, length_append, length_singleton]
    exact hrunning.matches_lt
  · rw [Tally.list, map_append, sum_append, hrunning.outputChars_eq]
    simp
  · exact hroom
  · exact hrunning.files_le
  · exact hrunning.bytes_le
  · intro other hother hcut
    cases mem_append.mp hother with
    | inl hold => exact reasons_list found tally (hrunning.cut other hold hcut)
    | inr hnew =>
        rw [mem_singleton.mp hnew] at hcut
        rw [Tally.list, if_pos hcut]
        exact mem_append_right _ (mem_singleton_self _)

theorem searchLine_finds (hrunning : tally.Running request) (path : Text) (lineNumber : ℕ)
    (line : Text) :
    Finds request tally (matchesFrom request outside path lineNumber [line])
      (searchLine request outside path (lineNumber + 1) line tally) := by
  have hcompared : tally.Alike { tally with compared := tally.compared + 1 } :=
    ⟨rfl, rfl, rfl, rfl, List.Subset.refl _⟩
  have hended : ∀ reason : PartialReason, reason.Ends →
      Finds request tally (matchesFrom request outside path lineNumber [line])
        (.error (.returned (Tally.add reason { tally with compared := tally.compared + 1 }))) := by
    intro reason hends
    have hadded := hcompared.trans (Tally.alike_add _ reason)
    exact ⟨hrunning.toWithin.alike hadded, Tally.halted_add hends _, [], List.nil_prefix,
      hadded.extends⟩
  simp only [searchLine]
  generalize { tally with compared := tally.compared + 1 } = compared at hcompared hended ⊢
  have hgone := hrunning.alike hcompared
  have hsame := hcompared.extends
  by_cases hslow : outside.slow tally.compared = true
  · rw [if_pos hslow]
    exact hended .regexTimeout ⟨by decide, by decide⟩
  rw [if_neg hslow]
  by_cases hpattern : outside.pattern line = true
  · have hall : matchesFrom request outside path lineNumber [line] =
        [matchOf request path (lineNumber + 1) line] := by
      rw [matchesFrom, if_pos hpattern]
      rfl
    rw [hpattern, Bool.not_true, if_neg Bool.false_ne_true]
    rw [← hcompared.outputChars]
    by_cases hfull : request.maxOutputChars <
        compared.outputChars + (matchOf request path (lineNumber + 1) line).cost
    · rw [if_pos hfull]
      exact hended .outputChars ⟨by decide, by decide⟩
    rw [if_neg hfull, hall]
    have hlisted := hgone.list (Nat.le_of_not_lt hfull)
    have hextends := hsame.trans (extends_list (matchOf request path (lineNumber + 1) line) _)
    by_cases hlimit : request.maxMatches ≤
        (compared.list (matchOf request path (lineNumber + 1) line)).found.length
    · have hadded := Tally.alike_add (compared.list (matchOf request path (lineNumber + 1) line))
        .matchLimit
      have hends : PartialReason.matchLimit.Ends := ⟨by decide, by decide⟩
      rw [if_pos hlimit]
      exact ⟨hlisted.alike hadded, Tally.halted_add hends _, _, prefix_rfl,
        hextends.trans hadded.extends⟩
    · rw [if_neg hlimit]
      exact ⟨⟨hlisted, Nat.lt_of_not_le hlimit, hgone.bytes_within⟩, hextends⟩
  · have hall : matchesFrom request outside path lineNumber [line] = [] := by
      rw [matchesFrom, if_neg hpattern]
      rfl
    rw [Bool.eq_false_iff.mpr hpattern, Bool.not_false, if_pos rfl, hall]
    exact ⟨hgone, hsame⟩

/-- What a loop finds and then another, which begins where the first has gone on. -/
theorem Finds.bind {first second : List SearchMatch} (hstep : Finds request tally first step)
    (hnext : ∀ later, step = .ok later → later.Running request →
      Finds request later second (next later)) :
    Finds request tally (first ++ second) (step >>= next) := by
  match step with
  | .ok later =>
      obtain ⟨hrunning, hfirst⟩ := hstep
      have hsecond := hnext later rfl hrunning
      change Finds request tally (first ++ second) (next later)
      generalize next later = last at hsecond ⊢
      match last with
      | .ok last => exact ⟨hsecond.1, hfirst.trans hsecond.2⟩
      | .error (.returned last) =>
          obtain ⟨hwithin, hhalted, found, hfound, hlast⟩ := hsecond
          exact ⟨hwithin, hhalted, first ++ found, (prefix_append_right_inj first).mpr hfound,
            hfirst.trans hlast⟩
      | .error .raised => exact hsecond
  | .error (.returned later) =>
      obtain ⟨hwithin, hhalted, found, hfound, hlater⟩ := hstep
      exact ⟨hwithin, hhalted, found, hfound.trans (prefix_append first second), hlater⟩
  | .error .raised => exact hstep

theorem searchLines_finds (path : Text) (lineNumber : ℕ) (lines : List Text)
    (hrunning : tally.Running request) :
    Finds request tally (matchesFrom request outside path lineNumber lines)
      (searchLines request outside path lineNumber lines tally) := by
  induction lines generalizing lineNumber tally with
  | nil => exact ⟨hrunning, (Tally.alike_refl tally).extends⟩
  | cons line rest ih =>
      have hall : matchesFrom request outside path lineNumber (line :: rest) =
          matchesFrom request outside path lineNumber [line] ++
            matchesFrom request outside path (lineNumber + 1) rest :=
        matchesFrom_append lineNumber [line] rest
      rw [hall, searchLines]
      exact (searchLine_finds hrunning path lineNumber line).bind
        fun later _ hlater => ih (lineNumber + 1) hlater

/-! ## Reads -/

/-- The reads before one that shows the file to be binary. -/
def textReads (reads : List (List Byte)) : List (List Byte) :=
  reads.takeWhile fun raw => decide (0 ∉ raw)

theorem textReads_of_mem {line : List Byte} (hbinary : 0 ∈ line) (rest : List (List Byte)) :
    textReads (line :: rest) = [] := by
  rw [textReads, takeWhile_cons_of_neg]
  simpa using hbinary

theorem textReads_of_notMem {line : List Byte} (htext : 0 ∉ line) (rest : List (List Byte)) :
    textReads (line :: rest) = line :: textReads rest := by
  rw [textReads, takeWhile_cons_of_pos]
  · rfl
  · simpa using htext

/-- A search has gone through these reads of a file, behind so many lines and bytes, and has
found so much in them. -/
structure Taken (request : SearchRequest) (outside : Outside) (path : Text)
    (lineNumber fileBytes : ℕ) (reads : List (List Byte)) (tally later : Tally)
    (taken : List (List Byte)) (found : List SearchMatch) : Prop where
  reads_begins : taken <+: textReads reads
  found_begins : found <+: matchesFrom request outside path lineNumber (taken.flatMap linesOf)
  fileBytes_le : fileBytes + taken.flatten.length ≤ request.maxFileBytes
  scanBytes_le : tally.scannedBytes + taken.flatten.length ≤ request.maxScanBytes
  counted : tally.scannedBytes + taken.flatten.length ≤ later.scannedBytes
  later : tally.Extends later found

variable {path : Text} {lineNumber fileBytes : ℕ} {line : List Byte}
  {reads rest taken : List (List Byte)} {found : List SearchMatch} {counted later last : Tally}

theorem taken_nil (hrunning : tally.Running request) (hfile : fileBytes ≤ request.maxFileBytes)
    (hlater : tally.Extends later []) :
    Taken request outside path lineNumber fileBytes reads tally later [] [] :=
  ⟨List.nil_prefix, List.nil_prefix, hfile, hrunning.bytes_within, hlater.bytes, hlater⟩

/-- The state before a read is that before the question whether to go on. -/
theorem Taken.of_alike (halike : tally.Alike counted)
    (htaken : Taken request outside path lineNumber fileBytes reads counted later taken found) :
    Taken request outside path lineNumber fileBytes reads tally later taken found := by
  have hbytes := halike.scannedBytes
  constructor
  · exact htaken.reads_begins
  · exact htaken.found_begins
  · exact htaken.fileBytes_le
  · rw [← hbytes]
    exact htaken.scanBytes_le
  · rw [← hbytes]
    exact htaken.counted
  · exact halike.extends.trans htaken.later

/-- A line of text was read and all its matches are listed, before the other reads. -/
theorem Taken.cons (hcounted : tally.Extends counted [])
    (hbytes : counted.scannedBytes = tally.scannedBytes + line.length) (htext : 0 ∉ line)
    (hlines : counted.Extends later (matchesFrom request outside path lineNumber (linesOf line)))
    (htaken : Taken request outside path (lineNumber + (linesOf line).length)
      (fileBytes + line.length) rest later last taken found) :
    Taken request outside path lineNumber fileBytes (line :: rest) tally last (line :: taken)
      (matchesFrom request outside path lineNumber (linesOf line) ++ found) := by
  have hlater := hlines.bytes
  have hlength : (line :: taken).flatten.length = line.length + taken.flatten.length := by
    rw [flatten_cons, length_append]
  constructor
  · rw [textReads_of_notMem htext]
    exact cons_prefix_cons.mpr ⟨rfl, htaken.reads_begins⟩
  · rw [flatMap_cons, matchesFrom_append]
    exact (prefix_append_right_inj _).mpr htaken.found_begins
  · rw [hlength, ← Nat.add_assoc]
    exact htaken.fileBytes_le
  · calc
      tally.scannedBytes + (line :: taken).flatten.length
          = counted.scannedBytes + taken.flatten.length := by
        rw [hlength, hbytes, Nat.add_assoc]
      _ ≤ later.scannedBytes + taken.flatten.length := Nat.add_le_add_right hlater _
      _ ≤ request.maxScanBytes := htaken.scanBytes_le
  · calc
      tally.scannedBytes + (line :: taken).flatten.length
          = counted.scannedBytes + taken.flatten.length := by
        rw [hlength, hbytes, Nat.add_assoc]
      _ ≤ later.scannedBytes + taken.flatten.length := Nat.add_le_add_right hlater _
      _ ≤ last.scannedBytes := htaken.counted
  · exact hcounted.trans (hlines.trans htaken.later)

/-- What the reads of a file may leave. -/
def Goes (request : SearchRequest) (outside : Outside) (path : Text)
    (lineNumber fileBytes : ℕ) (reads : List (List Byte)) (tally : Tally) :
    Except Exit Tally → Prop
  | .ok later =>
      later.Running request ∧ ∃ taken found,
        Taken request outside path lineNumber fileBytes reads tally later taken found ∧
          (found = matchesFrom request outside path lineNumber
              ((textReads reads).flatMap linesOf) ∨
            .fileSize ∈ later.reasons ∧
              request.maxFileBytes < fileBytes + reads.flatten.length)
  | .error (.returned later) =>
      later.Within request ∧ Halted later.reasons ∧ ∃ taken found,
        Taken request outside path lineNumber fileBytes reads tally later taken found
  | .error .raised => False

theorem Goes.of_alike {result : Except Exit Tally} (halike : tally.Alike counted)
    (hgoes : Goes request outside path lineNumber fileBytes reads counted result) :
    Goes request outside path lineNumber fileBytes reads tally result := by
  match result with
  | .ok later =>
      obtain ⟨hrunning, taken, found, htaken, hall⟩ := hgoes
      exact ⟨hrunning, taken, found, htaken.of_alike halike, hall⟩
  | .error (.returned later) =>
      obtain ⟨hwithin, hhalted, taken, found, htaken⟩ := hgoes
      exact ⟨hwithin, hhalted, taken, found, htaken.of_alike halike⟩
  | .error .raised => exact hgoes

/-- A whole line of text was read; what is left of it are its lines and the other reads. -/
theorem Goes.cons (hcounted : tally.Extends counted [])
    (hbytes : counted.scannedBytes = tally.scannedBytes + line.length) (htext : 0 ∉ line)
    (hscan : counted.scannedBytes ≤ request.maxScanBytes)
    (hfile : fileBytes + line.length ≤ request.maxFileBytes)
    (hstep : Finds request counted (matchesFrom request outside path lineNumber (linesOf line))
      step) (hnext : ∀ later, step = .ok later → later.Running request →
      Goes request outside path (lineNumber + (linesOf line).length) (fileBytes + line.length)
        rest later (next later)) :
    Goes request outside path lineNumber fileBytes (line :: rest) tally (step >>= next) := by
  match step with
  | .ok later =>
      obtain ⟨hrunning, hlines⟩ := hstep
      have hgoes := hnext later rfl hrunning
      change Goes request outside path lineNumber fileBytes (line :: rest) tally (next later)
      generalize next later = result at hgoes ⊢
      match result with
      | .ok last =>
          obtain ⟨hlast, taken, found, htaken, hall⟩ := hgoes
          have hcons := Taken.cons hcounted hbytes htext hlines htaken
          refine ⟨hlast, line :: taken, _, hcons, ?_⟩
          cases hall with
          | inl hwhole =>
              left
              rw [textReads_of_notMem htext, flatMap_cons, matchesFrom_append, hwhole]
          | inr hsize =>
              right
              rw [flatten_cons, length_append, ← Nat.add_assoc]
              exact hsize
      | .error (.returned last) =>
          obtain ⟨hwithin, hhalted, taken, found, htaken⟩ := hgoes
          exact ⟨hwithin, hhalted, line :: taken, _,
            Taken.cons hcounted hbytes htext hlines htaken⟩
      | .error .raised => exact hgoes
  | .error (.returned later) =>
      obtain ⟨hwithin, hhalted, found, hfound, hlater⟩ := hstep
      have hlength : [line].flatten.length = line.length := by simp
      refine ⟨hwithin, hhalted, [line], found, ?_⟩
      constructor
      · rw [textReads_of_notMem htext]
        exact cons_prefix_cons.mpr ⟨rfl, List.nil_prefix⟩
      · simpa using hfound
      · rw [hlength]
        exact hfile
      · rw [hlength, ← hbytes]
        exact hscan
      · rw [hlength, ← hbytes]
        exact hlater.bytes
      · exact hcounted.trans hlater
  | .error .raised => exact hstep

theorem extends_count (raw : List Byte) (tally : Tally) :
    tally.Extends (tally.count raw) [] :=
  ⟨(append_nil _).symm, List.Subset.refl _, rfl, Nat.le_add_right _ _⟩

theorem Tally.Running.count (hrunning : tally.Running request) {raw : List Byte}
    (hraw : tally.scannedBytes + raw.length ≤ request.maxScanBytes + 1) :
    (tally.count raw).Within request :=
  ⟨hrunning.matches_le, hrunning.outputChars_eq, hrunning.outputChars_le, hrunning.files_le, hraw,
    hrunning.cut⟩

/-- A read takes one byte more than there may be, so that it shows where a limit is reached. -/
theorem length_readLine_le (request : SearchRequest) (fileBytes scannedBytes : ℕ)
    (line : List Byte) :
    (readLine request fileBytes scannedBytes line).length ≤
      request.maxScanBytes - scannedBytes + 1 :=
  (length_take_le _ _).trans (Nat.succ_le_succ (Nat.min_le_right _ _))

theorem readLine_eq_self (request : SearchRequest) (fileBytes scannedBytes : ℕ)
    (line : List Byte)
    (hfile : fileBytes + (readLine request fileBytes scannedBytes line).length ≤
      request.maxFileBytes)
    (hscan : scannedBytes + (readLine request fileBytes scannedBytes line).length ≤
      request.maxScanBytes) :
    readLine request fileBytes scannedBytes line = line := by
  rw [readLine, length_take] at hfile hscan
  rw [readLine]
  apply take_of_length_le
  omega

/-- Nothing more is read of the file. -/
theorem goes_of_ok (hrunning : tally.Running request) (hfile : fileBytes ≤ request.maxFileBytes)
    (hlater : later.Running request) (hextends : tally.Extends later [])
    (hall : matchesFrom request outside path lineNumber ((textReads reads).flatMap linesOf) = [] ∨
      .fileSize ∈ later.reasons ∧ request.maxFileBytes < fileBytes + reads.flatten.length) :
    Goes request outside path lineNumber fileBytes reads tally (.ok later) :=
  ⟨hlater, [], [], taken_nil hrunning hfile hextends, hall.imp_left Eq.symm⟩

theorem goes_of_returned (hrunning : tally.Running request)
    (hfile : fileBytes ≤ request.maxFileBytes) (hlater : later.Within request)
    (hhalted : Halted later.reasons) (hextends : tally.Extends later []) :
    Goes request outside path lineNumber fileBytes reads tally (.error (.returned later)) :=
  ⟨hlater, hhalted, [], [], taken_nil hrunning hfile hextends⟩

theorem goes_of_stopped (hrunning : tally.Running request)
    (hfile : fileBytes ≤ request.maxFileBytes) {ended : Exit}
    (hfinds : Finds request tally [] (.error ended)) :
    Goes request outside path lineNumber fileBytes reads tally (.error ended) := by
  match ended with
  | .returned later =>
      obtain ⟨hwithin, hhalted, found, hfound, hlater⟩ := hfinds
      rw [prefix_nil.mp hfound] at hlater
      exact goes_of_returned hrunning hfile hwithin hhalted hlater
  | .raised => exact hfinds

theorem searchReads_goes (outside : Outside) (path : Text) (lineNumber fileBytes : ℕ)
    (reads : List (List Byte)) (hrunning : tally.Running request)
    (hfile : fileBytes ≤ request.maxFileBytes) :
    Goes request outside path lineNumber fileBytes reads tally
      (searchReads request outside path reads lineNumber fileBytes tally) := by
  induction reads generalizing lineNumber fileBytes tally with
  | nil =>
      obtain ⟨hfinds, halike⟩ := goOn_finds outside hrunning
      rw [searchReads]
      cases hask : tally.goOn outside with
      | ok asked =>
          have hsame := halike asked hask
          exact goes_of_ok hrunning hfile (hrunning.alike hsame) hsame.extends (.inl rfl)
      | error ended =>
          rw [hask] at hfinds
          exact goes_of_stopped hrunning hfile hfinds
  | cons line rest ih =>
      obtain ⟨hfinds, halike⟩ := goOn_finds outside hrunning
      rw [searchReads]
      cases hask : tally.goOn outside with
      | error ended =>
          rw [hask] at hfinds
          exact goes_of_stopped hrunning hfile hfinds
      | ok asked =>
          have hsame := halike asked hask
          have hgone := hrunning.alike hsame
          apply Goes.of_alike hsame
          change Goes request outside path lineNumber fileBytes (line :: rest) asked
            (if _ then _ else _)
          have hlength := length_readLine_le request fileBytes asked.scannedBytes line
          have hwhole := readLine_eq_self request fileBytes asked.scannedBytes line
          have hsub : readLine request fileBytes asked.scannedBytes line <+: line :=
            List.take_prefix _ _
          generalize readLine request fileBytes asked.scannedBytes line = raw at *
          have hbytes : asked.scannedBytes + raw.length ≤ request.maxScanBytes + 1 := by
            have hbelow := hgone.bytes_within
            omega
          have hcounted := hgone.count hbytes
          have hextends := extends_count raw asked
          by_cases hscan : request.maxScanBytes < (asked.count raw).scannedBytes
          · have hadded := Tally.alike_add (asked.count raw) .scanBytes
            have hends : PartialReason.scanBytes.Ends := ⟨nofun, nofun⟩
            rw [if_pos hscan]
            exact goes_of_returned hgone hfile (hcounted.alike hadded) (Tally.halted_add hends _)
              (hextends.trans hadded.extends)
          rw [if_neg hscan]
          have hgoing : (asked.count raw).Running request :=
            ⟨hcounted, hgone.matches_lt, Nat.le_of_not_lt hscan⟩
          by_cases hover : request.maxFileBytes < fileBytes + raw.length
          · have hadded := Tally.alike_add (asked.count raw) .fileSize
            have hlong : raw.length ≤ (line :: rest).flatten.length := by
              rw [flatten_cons, length_append]
              exact hsub.length_le.trans (Nat.le_add_right _ _)
            rw [if_pos hover]
            exact goes_of_ok hgone hfile (hgoing.alike hadded) (hextends.trans hadded.extends)
              (.inr ⟨mem_append_right _ (mem_singleton_self _),
                hover.trans_le (Nat.add_le_add_left hlong fileBytes)⟩)
          rw [if_neg hover]
          by_cases hbinary : 0 ∈ raw
          · rw [if_pos hbinary]
            apply goes_of_ok hgone hfile hgoing hextends
            left
            rw [textReads_of_mem (hsub.subset hbinary)]
            rfl
          · have hfits := Nat.le_of_not_lt hover
            have hraw : raw = line := hwhole hfits (Nat.le_of_not_lt hscan)
            subst hraw
            rw [if_neg hbinary]
            exact Goes.cons hextends rfl hbinary (Nat.le_of_not_lt hscan) hfits
              (searchLines_finds path lineNumber _ hgoing)
              fun later _ hlater => ih _ _ hlater hfits

end Loops

/-! ## Files -/

/-- What a search went through of a file, and what it found in there. -/
structure Part where
  text : List Byte
  found : List SearchMatch

/-- A beginning of a file and the matches in there, or the first of them. -/
structure Part.Of (request : SearchRequest) (outside : Outside) (candidate : Candidate)
    (part : Part) : Prop where
  text_begins : part.text <+: textOf request candidate
  found_begins : part.found <+: matchesIn request outside candidate part.text
  listed : part.found <+: listing request outside candidate
  length_le : part.text.length ≤ request.maxFileBytes

/-- The file is over the limit for one file. -/
def Oversized (request : SearchRequest) (candidate : Candidate) : Prop :=
  ∃ size content, candidate.node = .file size content ∧
    (request.maxFileBytes < size ∨
      ∃ data, content = some data ∧ request.maxFileBytes < data.length)

/-- The candidates in turn, each with what was found in it.  Whatever is left out has a reason
among these: a file is over its limit, or the search has ended there. -/
inductive Accounts (request : SearchRequest) (outside : Outside) (reasons : List PartialReason) :
    List Candidate → List Part → Prop
  | done : Accounts request outside reasons [] []
  | ended {candidates : List Candidate} (hended : Halted reasons) :
      Accounts request outside reasons candidates []
  | broken {candidate : Candidate} {rest : List Candidate} {part : Part}
      (hpart : part.Of request outside candidate) (hended : Halted reasons) :
      Accounts request outside reasons (candidate :: rest) [part]
  | oversized {candidate : Candidate} {rest : List Candidate} {part : Part} {parts : List Part}
      (hpart : part.Of request outside candidate) (hsize : Oversized request candidate)
      (hreason : .fileSize ∈ reasons) (hrest : Accounts request outside reasons rest parts) :
      Accounts request outside reasons (candidate :: rest) (part :: parts)
  | whole {candidate : Candidate} {rest : List Candidate} {part : Part} {parts : List Part}
      (hpart : part.Of request outside candidate)
      (hwhole : part.found = listing request outside candidate)
      (hrest : Accounts request outside reasons rest parts) :
      Accounts request outside reasons (candidate :: rest) (part :: parts)

variable {candidates : List Candidate} {parts : List Part}

section Files

variable {request : SearchRequest} {outside : Outside} {candidate : Candidate}
  {tally later : Tally}

/-- A file in which nothing is read. -/
theorem part_nil (request : SearchRequest) (outside : Outside) (candidate : Candidate) :
    Part.Of request outside candidate ⟨[], []⟩ :=
  ⟨List.nil_prefix, List.nil_prefix, List.nil_prefix, Nat.zero_le _⟩

/-- The regular files among these that the search looks at. -/
def SearchRequest.files (request : SearchRequest) (candidates : List Candidate) :
    List Candidate :=
  candidates.filter fun candidate => request.admits candidate && candidate.node.isFile

theorem files_cons (request : SearchRequest) (candidate : Candidate) (rest : List Candidate) :
    (request.files (candidate :: rest)).length =
      (request.files [candidate]).length + (request.files rest).length := by
  rw [← length_append, SearchRequest.files, SearchRequest.files, SearchRequest.files,
    ← filter_append, singleton_append]

/-- What one candidate leaves.  A search that has gone through all the files it may go through
ends before the next one. -/
def FileGoes (request : SearchRequest) (outside : Outside) (candidate : Candidate)
    (tally : Tally) : Except Exit Tally → Prop
  | .ok later =>
      later.Running request ∧ ∃ part : Part, part.Of request outside candidate ∧
        (tally.passing (request.files [candidate]).length).Extends later part.found ∧
        tally.scannedBytes + part.text.length ≤ later.scannedBytes ∧
          (part.found = listing request outside candidate ∨
            Oversized request candidate ∧ .fileSize ∈ later.reasons)
  | .error (.returned later) =>
      later.Within request ∧ Halted later.reasons ∧ (tally.Extends later [] ∨ ∃ part : Part,
        part.Of request outside candidate ∧
        (tally.passing (request.files [candidate]).length).Extends later part.found ∧
        tally.scannedBytes + part.text.length ≤ request.maxScanBytes)
  | .error .raised => True

theorem textReads_begins (reads : List (List Byte)) : textReads reads <+: reads :=
  List.takeWhile_prefix _

theorem listing_eq {size : ℕ} {content : List Byte} (hadmits : request.admits candidate = true)
    (hnode : candidate.node = .file size (some content)) :
    listing request outside candidate =
      matchesFrom request outside candidate.path 0
        ((textReads (rawLines content)).flatMap linesOf) := by
  have hfed : Fed (textReads (rawLines content)) :=
    (fed_rawLinesFrom [] content).initial (textReads_begins _)
  rw [listing, matchesIn, textOf, if_pos hadmits, hnode, ← hfed.splitLines_flatten]
  rfl

/-- The reads that were gone through are a part of the file. -/
theorem Taken.part {size : ℕ} {content : List Byte} {taken : List (List Byte)}
    {found : List SearchMatch} (hadmits : request.admits candidate = true)
    (hnode : candidate.node = .file size (some content))
    (htaken : Taken request outside candidate.path 0 0 (rawLines content) tally later taken found) :
    Part.Of request outside candidate ⟨taken.flatten, found⟩ := by
  have htext : textOf request candidate = (textReads (rawLines content)).flatten := by
    rw [textOf, if_pos hadmits, hnode]
    rfl
  have hfed : Fed taken :=
    (fed_rawLinesFrom [] content).initial (htaken.reads_begins.trans (textReads_begins _))
  constructor
  · obtain ⟨more, hmore⟩ := htaken.reads_begins
    rw [htext, ← hmore, flatten_append]
    exact prefix_append _ _
  · rw [matchesIn, hfed.splitLines_flatten]
    exact htaken.found_begins
  · obtain ⟨more, hmore⟩ := htaken.reads_begins
    rw [listing_eq hadmits hnode, ← hmore, flatMap_append, matchesFrom_append]
    exact htaken.found_begins.trans (prefix_append _ _)
  · have hbytes := htaken.fileBytes_le
    rwa [Nat.zero_add] at hbytes

/-- A candidate with nothing to go through. -/
theorem fileGoes_of_empty (hlater : later.Running request)
    (hextends : (tally.passing (request.files [candidate]).length).Extends later [])
    (hall : textOf request candidate = [] ∨
      Oversized request candidate ∧ .fileSize ∈ later.reasons) :
    FileGoes request outside candidate tally (.ok later) := by
  refine ⟨hlater, ⟨[], []⟩, part_nil request outside candidate, hextends, hextends.bytes, ?_⟩
  apply hall.imp_left
  intro hempty
  rw [listing, hempty]
  rfl

theorem Tally.Running.opened (hrunning : tally.Running request)
    (hroom : tally.scannedFiles < request.maxFiles) :
    (tally.passing 1).Running request :=
  ⟨⟨hrunning.matches_le, hrunning.outputChars_eq, hrunning.outputChars_le, hroom,
    hrunning.bytes_le, hrunning.cut⟩, hrunning.matches_lt, hrunning.bytes_within⟩

theorem searchFile_goes (hrunning : tally.Running request)
    (hadmits : request.admits candidate = true) :
    FileGoes request outside candidate tally (searchFile request outside candidate tally) := by
  have hempty : (∀ size content, candidate.node ≠ .file size (some content)) →
      textOf request candidate = [] := by
    intro hnone
    rw [textOf, if_pos hadmits]
    split
    · rename_i size content hnode
      exact absurd hnode (hnone size content)
    · rfl
  have hsame := (Tally.alike_refl tally).extends
  have hnone : candidate.node.isFile = false →
      (tally.passing (request.files [candidate]).length).Extends tally [] := by
    intro hother
    have hfiles : (request.files [candidate]).length = 0 := by simp [SearchRequest.files, hother]
    rw [hfiles]
    exact hsame
  rw [searchFile]
  cases hnode : candidate.node with
  | missing =>
      exact fileGoes_of_empty hrunning (hnone (by rw [hnode]; rfl))
        (.inl (hempty (by simp [hnode])))
  | irregular =>
      exact fileGoes_of_empty hrunning (hnone (by rw [hnode]; rfl))
        (.inl (hempty (by simp [hnode])))
  | failing => exact trivial
  | file size content =>
      change FileGoes request outside candidate tally (if _ then _ else _)
      by_cases hlimit : request.maxFiles ≤ tally.scannedFiles
      · have hadded := Tally.alike_add tally .fileLimit
        have hends : PartialReason.fileLimit.Ends := ⟨nofun, nofun⟩
        rw [if_pos hlimit]
        exact ⟨hrunning.toWithin.alike hadded, Tally.halted_add hends tally, .inl hadded.extends⟩
      rw [if_neg hlimit]
      have hopened := hrunning.opened (Nat.lt_of_not_le hlimit)
      have hfiles : (request.files [candidate]).length = 1 := by
        simp [SearchRequest.files, hadmits, hnode, SearchNode.isFile]
      have hextends : (tally.passing (request.files [candidate]).length).Extends
          (tally.passing 1) [] := by
        rw [hfiles]
        exact (Tally.alike_refl (tally.passing 1)).extends
      change FileGoes request outside candidate tally (if _ then _ else _)
      by_cases hsize : request.maxFileBytes < size
      · have hadded := Tally.alike_add (tally.passing 1) .fileSize
        rw [if_pos hsize]
        exact fileGoes_of_empty (hopened.alike hadded) (hextends.trans hadded.extends)
          (.inr ⟨⟨size, content, hnode, .inl hsize⟩,
            mem_append_right _ (mem_singleton_self _)⟩)
      rw [if_neg hsize]
      cases content with
      | none => exact fileGoes_of_empty hopened hextends (.inl (hempty (by simp [hnode])))
      | some data =>
          have hgoes := searchReads_goes outside candidate.path 0 0 (rawLines data)
            hopened (Nat.zero_le _)
          change FileGoes request outside candidate tally
            (searchReads request outside candidate.path (rawLines data) 0 0 (tally.passing 1))
          generalize searchReads request outside candidate.path (rawLines data) 0 0
            (tally.passing 1) = result at hgoes ⊢
          match result with
          | .ok later =>
              obtain ⟨hlater, taken, found, htaken, hall⟩ := hgoes
              refine ⟨hlater, ⟨taken.flatten, found⟩, htaken.part hadmits hnode,
                hextends.trans htaken.later, htaken.counted, ?_⟩
              cases hall with
              | inl hwhole => exact .inl (hwhole.trans (listing_eq hadmits hnode).symm)
              | inr hover =>
                  rw [flatten_rawLines, Nat.zero_add] at hover
                  exact .inr ⟨⟨size, some data, hnode, .inr ⟨data, rfl, hover.2⟩⟩, hover.1⟩
          | .error (.returned later) =>
              obtain ⟨hlater, hhalted, taken, found, htaken⟩ := hgoes
              exact ⟨hlater, hhalted, .inr ⟨⟨taken.flatten, found⟩, htaken.part hadmits hnode,
                hextends.trans htaken.later, htaken.scanBytes_le⟩⟩
          | .error .raised => exact trivial

/-- What the candidates leave where the search goes on or ends. -/
structure Leaves (request : SearchRequest) (outside : Outside) (candidates : List Candidate)
    (tally later : Tally) (parts : List Part) : Prop where
  accounts : Accounts request outside later.reasons candidates parts
  later : (tally.passing (request.files (candidates.take parts.length)).length).Extends later
    (parts.flatMap Part.found)
  bytes_le : tally.scannedBytes + (parts.map fun part => part.text.length).sum ≤
    request.maxScanBytes

theorem leaves_ended (hrunning : tally.Running request) (hhalted : Halted later.reasons)
    (hextends : tally.Extends later []) : Leaves request outside candidates tally later [] :=
  ⟨.ended hhalted, hextends, hrunning.bytes_within⟩

/-- One candidate is behind, the others are ahead. -/
theorem Leaves.cons {rest : List Candidate} {last : Tally} {part : Part}
    (hpart : part.Of request outside candidate)
    (hextends : (tally.passing (request.files [candidate]).length).Extends later part.found)
    (hbytes : tally.scannedBytes + part.text.length ≤ later.scannedBytes)
    (hall : part.found = listing request outside candidate ∨
      Oversized request candidate ∧ .fileSize ∈ later.reasons)
    (hrest : Leaves request outside rest later last parts) :
    Leaves request outside (candidate :: rest) tally last (part :: parts) := by
  constructor
  · cases hall with
    | inl hwhole => exact .whole hpart hwhole hrest.accounts
    | inr hover => exact .oversized hpart hover.1 (hrest.later.reasons hover.2) hrest.accounts
  · rw [length_cons, take_succ_cons, files_cons]
    have hpassing := hextends.passing (request.files (rest.take parts.length)).length
    rw [Tally.passing_passing] at hpassing
    exact hpassing.trans hrest.later
  · calc
      tally.scannedBytes + ((part :: parts).map fun part => part.text.length).sum
          = tally.scannedBytes + part.text.length +
              (parts.map fun part => part.text.length).sum := by
        rw [map_cons, sum_cons, Nat.add_assoc]
      _ ≤ later.scannedBytes + (parts.map fun part => part.text.length).sum :=
        Nat.add_le_add_right hbytes _
      _ ≤ request.maxScanBytes := hrest.bytes_le

/-- What the loop over the candidates leaves. -/
def FilesGo (request : SearchRequest) (outside : Outside) (candidates : List Candidate)
    (tally : Tally) : Except Exit Tally → Prop
  | .ok later =>
      later.Running request ∧ ∃ parts, Leaves request outside candidates tally later parts
  | .error (.returned later) =>
      later.Within request ∧ Halted later.reasons ∧
        ∃ parts, Leaves request outside candidates tally later parts
  | .error .raised => True

theorem FilesGo.of_alike {asked : Tally} {result : Except Exit Tally} (halike : tally.Alike asked)
    (hgo : FilesGo request outside candidates asked result) :
    FilesGo request outside candidates tally result := by
  have hleaves : ∀ last parts, Leaves request outside candidates asked last parts →
      Leaves request outside candidates tally last parts := by
    intro last parts hleaves
    constructor
    · exact hleaves.accounts
    · exact (halike.extends.passing _).trans hleaves.later
    · rw [← halike.scannedBytes]
      exact hleaves.bytes_le
  match result with
  | .ok last =>
      obtain ⟨hlast, parts, hparts⟩ := hgo
      exact ⟨hlast, parts, hleaves last parts hparts⟩
  | .error (.returned last) =>
      obtain ⟨hlast, hhalted, parts, hparts⟩ := hgo
      exact ⟨hlast, hhalted, parts, hleaves last parts hparts⟩
  | .error .raised => exact trivial

/-- A candidate that leaves the search going on is followed by the others. -/
theorem FilesGo.cons {rest : List Candidate} (hrunning : tally.Running request)
    (hstep : FileGoes request outside candidate tally step)
    (hnext : ∀ later, later.Running request → FilesGo request outside rest later (next later)) :
    FilesGo request outside (candidate :: rest) tally (step >>= next) := by
  match step with
  | .ok later =>
      obtain ⟨hlater, part, hpart, hextends, hbytes, hall⟩ := hstep
      have hgo := hnext later hlater
      change FilesGo request outside (candidate :: rest) tally (next later)
      generalize next later = result at hgo ⊢
      match result with
      | .ok last =>
          obtain ⟨hlast, parts, hparts⟩ := hgo
          exact ⟨hlast, part :: parts, hparts.cons hpart hextends hbytes hall⟩
      | .error (.returned last) =>
          obtain ⟨hlast, hhalted, parts, hparts⟩ := hgo
          exact ⟨hlast, hhalted, part :: parts, hparts.cons hpart hextends hbytes hall⟩
      | .error .raised => exact trivial
  | .error (.returned later) =>
      obtain ⟨hlater, hhalted, hnone | ⟨part, hpart, hextends, hbytes⟩⟩ := hstep
      · exact ⟨hlater, hhalted, [], leaves_ended hrunning hhalted hnone⟩
      · refine ⟨hlater, hhalted, [part], .broken hpart hhalted, ?_, ?_⟩
        · simpa using hextends
        · simpa using hbytes
  | .error .raised => exact trivial

theorem searchFiles_go (outside : Outside) (candidates : List Candidate)
    (hrunning : tally.Running request) :
    FilesGo request outside candidates tally (searchFiles request outside candidates tally) := by
  induction candidates generalizing tally with
  | nil => exact ⟨hrunning, [], .done, (Tally.alike_refl tally).extends, hrunning.bytes_within⟩
  | cons candidate rest ih =>
      obtain ⟨hfinds, halike⟩ := goOn_finds outside hrunning
      rw [searchFiles]
      cases hask : tally.goOn outside with
      | error ended =>
          rw [hask] at hfinds
          match ended with
          | .returned later =>
              obtain ⟨hwithin, hhalted, found, hfound, hlater⟩ := hfinds
              rw [prefix_nil.mp hfound] at hlater
              exact ⟨hwithin, hhalted, [], leaves_ended hrunning hhalted hlater⟩
          | .raised => exact trivial
      | ok asked =>
          have hvisited : tally.Alike { asked with visited := asked.visited + 1 } :=
            (halike asked hask).trans ⟨rfl, rfl, rfl, rfl, List.Subset.refl _⟩
          change FilesGo request outside (candidate :: rest) tally (if _ then _ else _)
          generalize { asked with visited := asked.visited + 1 } = visited at hvisited ⊢
          have hgone := hrunning.alike hvisited
          apply FilesGo.of_alike hvisited
          by_cases hentries : request.maxFiles * 4 < visited.visited
          · have hadded := Tally.alike_add visited .entryLimit
            have hends : PartialReason.entryLimit.Ends := ⟨nofun, nofun⟩
            have hhalted := Tally.halted_add hends visited
            rw [if_pos hentries]
            exact ⟨hgone.toWithin.alike hadded, hhalted, [],
              leaves_ended hgone hhalted hadded.extends⟩
          rw [if_neg hentries]
          cases hadmits : request.admits candidate with
          | false =>
              have hempty : textOf request candidate = [] := by
                rw [textOf, hadmits, if_neg Bool.false_ne_true]
              have hfiles : (request.files [candidate]).length = 0 := by
                simp [SearchRequest.files, hadmits]
              have hsame : (visited.passing (request.files [candidate]).length).Extends
                  visited [] := by
                rw [hfiles]
                exact (Tally.alike_refl visited).extends
              have hstep : FileGoes request outside candidate visited (.ok visited) :=
                fileGoes_of_empty hgone hsame (.inl hempty)
              exact FilesGo.cons hgone hstep fun later hlater => ih hlater
          | true =>
              exact FilesGo.cons hgone (searchFile_goes hgone hadmits)
                fun later hlater => ih hlater

end Files

/-! ## The search -/

/-- Without a reason every file was gone through. -/
theorem Accounts.whole_of_nil {request : SearchRequest} {outside : Outside}
    (haccounts : Accounts request outside [] candidates parts) :
    parts.flatMap Part.found = candidates.flatMap (listing request outside) := by
  have hnone : ¬ Halted [] := by
    rintro ⟨reason, hreason, -⟩
    cases hreason
  induction haccounts with
  | done => rfl
  | ended hended => exact absurd hended hnone
  | broken hpart hended => exact absurd hended hnone
  | oversized hpart hsize hreason => cases hreason
  | whole hpart hwhole hrest ih => rw [flatMap_cons, flatMap_cons, hwhole, ih]

theorem Accounts.mono {request : SearchRequest} {outside : Outside}
    {reasons more : List PartialReason} (hsubset : reasons ⊆ more)
    (haccounts : Accounts request outside reasons candidates parts) :
    Accounts request outside more candidates parts := by
  have hhalted : Halted reasons → Halted more := by
    rintro ⟨reason, hreason, hends⟩
    exact ⟨reason, hsubset hreason, hends⟩
  induction haccounts with
  | done => exact .done
  | ended hended => exact .ended (hhalted hended)
  | broken hpart hended => exact .broken hpart (hhalted hended)
  | oversized hpart hsize hreason _ ih => exact .oversized hpart hsize (hsubset hreason) ih
  | whole hpart hwhole _ ih => exact .whole hpart hwhole ih

/-- Every match is one of a candidate. -/
theorem Accounts.exists_listing {request : SearchRequest} {outside : Outside}
    {reasons : List PartialReason} (haccounts : Accounts request outside reasons candidates parts)
    {found : SearchMatch} (hfound : found ∈ parts.flatMap Part.found) :
    ∃ candidate ∈ candidates, found ∈ listing request outside candidate := by
  have hcons : ∀ (candidate : Candidate) (rest : List Candidate) (part : Part)
      (others : List Part), part.Of request outside candidate →
      (found ∈ others.flatMap Part.found →
        ∃ other ∈ rest, found ∈ listing request outside other) →
      found ∈ (part :: others).flatMap Part.found →
        ∃ other ∈ candidate :: rest, found ∈ listing request outside other := by
    intro candidate rest part others hpart hothers hmem
    rw [flatMap_cons] at hmem
    cases mem_append.mp hmem with
    | inl hhere => exact ⟨candidate, mem_cons_self, hpart.listed.subset hhere⟩
    | inr hthere =>
        obtain ⟨other, hother, hlisted⟩ := hothers hthere
        exact ⟨other, mem_cons_of_mem _ hother, hlisted⟩
  induction haccounts with
  | done => cases hfound
  | ended _ => cases hfound
  | broken hpart _ => exact hcons _ _ _ [] hpart nofun hfound
  | oversized hpart _ _ _ ih => exact hcons _ _ _ _ hpart ih hfound
  | whole hpart _ _ ih => exact hcons _ _ _ _ hpart ih hfound

/-- A match is a line of its file under the number that a page gives it. -/
theorem exists_isLine {request : SearchRequest} {outside : Outside} {candidate : Candidate}
    {found : SearchMatch} (hfound : found ∈ listing request outside candidate) :
    ∃ size content line, candidate.node = .file size (some content) ∧
      outside.pattern line = true ∧ IsLine content found.lineNumber line ∧
        found = matchOf request candidate.path found.lineNumber line := by
  obtain ⟨index, line, hindex, hpattern, rfl⟩ := mem_matchesFrom hfound
  rw [textOf] at hindex
  split at hindex
  · split at hindex
    · rename_i size content hnode
      have hprefix : splitLines (decode (textIn content)) <+: splitLines (decode content) :=
        splitLines_begins (textReads_begins (rawLines content))
      obtain ⟨more, hmore⟩ := hprefix
      have hwhole : (splitLines (decode content))[index]? = some line := by
        have hlt := (List.getElem?_eq_some_iff.mp hindex).1
        rw [← hmore, getElem?_append_left hlt]
        exact hindex
      refine ⟨size, content, line, hnode, hpattern, ?_, rfl⟩
      change IsLine content (0 + index + 1) line
      rw [Nat.zero_add]
      exact isLine_of_numbered hwhole
    · cases hindex
  · cases hindex

/-- What a search promises of its result. -/
structure IsSearch (request : SearchRequest) (outside : Outside) (candidates : List Candidate)
    (discovery : Discovery) (result : WorkspaceSearchResult) : Prop where
  truncated_iff : result.truncated = true ↔ result.reasons ≠ []
  exact : result.truncated = false → discovery = .complete ∧
    result.found = candidates.flatMap (listing request outside)
  accounts : ∃ parts, Accounts request outside result.reasons candidates parts ∧
    result.found = parts.flatMap Part.found ∧
      (parts.map fun part => part.text.length).sum ≤ request.maxScanBytes ∧
        result.scannedFiles = (request.files (candidates.take parts.length)).length
  matches_le : result.found.length ≤ request.maxMatches
  outputChars_le : (result.found.map SearchMatch.cost).sum ≤ request.maxOutputChars
  files_le : result.scannedFiles ≤ request.maxFiles
  bytes_le : result.scannedBytes ≤ request.maxScanBytes + 1
  numbered : ∀ found ∈ result.found, ∃ candidate ∈ candidates, ∃ size content line,
    candidate.node = .file size (some content) ∧ outside.pattern line = true ∧
      IsLine content found.lineNumber line ∧
        found = matchOf request candidate.path found.lineNumber line
  shortened : ∀ found ∈ result.found, found.truncated = true → .lineChars ∈ result.reasons

theorem mem_reasons_result {tally : Tally} {reason : PartialReason} :
    reason ∈ tally.result.reasons ↔ reason ∈ tally.reasons := by
  rw [Tally.result, mem_filter]
  constructor
  · intro hmem
    simpa using hmem.2
  · intro hmem
    exact ⟨by cases reason <;> decide, by simpa using hmem⟩

theorem truncated_result (tally : Tally) :
    tally.result.truncated = true ↔ tally.result.reasons ≠ [] := by
  have hmem : tally.result.reasons = [] ↔ tally.reasons = [] := by
    rw [eq_nil_iff_forall_not_mem, eq_nil_iff_forall_not_mem]
    exact forall_congr' fun reason => not_congr mem_reasons_result
  rw [Ne, hmem, Tally.result, Bool.not_eq_true', Bool.eq_false_iff, Ne, List.isEmpty_iff]

/-- Where the search is left with what there is. -/
theorem isSearch_result {request : SearchRequest} {outside : Outside} {discovery : Discovery}
    {tally : Tally} (hwithin : tally.Within request)
    (hleaves : Leaves request outside candidates {} tally parts)
    (hdiscovery : tally.reasons = [] → discovery = .complete) :
    IsSearch request outside candidates discovery tally.result := by
  have hfound : tally.found = parts.flatMap Part.found := hleaves.later.found
  have haccounts : Accounts request outside tally.result.reasons candidates parts :=
    hleaves.accounts.mono fun reason hreason => mem_reasons_result.mpr hreason
  have hbytes := hleaves.bytes_le
  rw [Nat.zero_add] at hbytes
  constructor
  · exact truncated_result tally
  · intro huncut
    have hnone : tally.result.reasons = [] := by
      by_contra hsome
      exact absurd ((truncated_result tally).mpr hsome) (Bool.eq_false_iff.mp huncut)
    have hreasons : tally.reasons = [] := by
      apply eq_nil_iff_forall_not_mem.mpr
      intro reason hreason
      have hmem := mem_reasons_result.mpr hreason
      rw [hnone] at hmem
      cases hmem
    rw [hnone] at haccounts
    exact ⟨hdiscovery hreasons, hfound.trans haccounts.whole_of_nil⟩
  · exact ⟨parts, haccounts, hfound, hbytes, hleaves.later.files.trans (Nat.zero_add _)⟩
  · exact hwithin.matches_le
  · exact hwithin.outputChars_eq.le.trans hwithin.outputChars_le
  · exact hwithin.files_le
  · exact hwithin.bytes_le
  · intro found hmem
    have hlisted : found ∈ parts.flatMap Part.found := hfound ▸ hmem
    obtain ⟨candidate, hcandidate, hlisting⟩ := haccounts.exists_listing hlisted
    exact ⟨candidate, hcandidate, exists_isLine hlisting⟩
  · intro found hmem hcut
    exact mem_reasons_result.mpr (hwithin.cut found hmem hcut)

theorem running_start {request : SearchRequest} (hrequest : request.Valid) :
    Tally.Running request {} :=
  ⟨⟨Nat.zero_le _, rfl, Nat.zero_le _, Nat.zero_le _, Nat.zero_le _, nofun⟩, hrequest.matches_pos,
    Nat.zero_le _⟩

/-- Whatever the files, the pattern and the clock are: a search without a reason lists every
match, and any other search says why it does not. -/
theorem searchText_isSearch {request : SearchRequest} (hrequest : request.Valid)
    {outside : Outside} {candidates : List Candidate} {discovery : Discovery}
    {result : WorkspaceSearchResult}
    (hresult : searchText request outside candidates discovery = some result) :
    IsSearch request outside candidates discovery result := by
  have hgo := searchFiles_go outside candidates (running_start hrequest)
  rw [searchText] at hresult
  generalize searchFiles request outside candidates {} = out at hresult hgo
  match out with
  | .error (.returned tally) =>
      obtain ⟨hwithin, ⟨reason, hreason, -⟩, parts, hleaves⟩ := hgo
      cases hresult
      apply isSearch_result hwithin hleaves
      intro hnone
      rw [hnone] at hreason
      cases hreason
  | .error .raised => cases hresult
  | .ok tally =>
      obtain ⟨hrunning, parts, hleaves⟩ := hgo
      cases discovery with
      | complete =>
          cases hresult
          exact isSearch_result hrunning.toWithin hleaves fun _ => rfl
      | halted stop =>
          cases hresult
          have hadded := Tally.alike_add tally stop.reason
          have hmore : Leaves request outside candidates {} (tally.add stop.reason) parts := by
            constructor
            · exact hleaves.accounts.mono hadded.reasons
            · simpa using hleaves.later.trans hadded.extends
            · exact hleaves.bytes_le
          apply isSearch_result (hrunning.toWithin.alike hadded) hmore
          intro hnone
          exact absurd hnone (append_ne_nil_of_right_ne_nil _ (cons_ne_nil _ _))
      | failed => cases hresult

/-- A search of a directory. -/
def plainRequest : SearchRequest where
  isDirectory := true
  excluded := [lit "build"]
  glob := none
  maxFiles := 5
  maxMatches := 5
  maxFileBytes := 100
  maxScanBytes := 100
  maxLineChars := 10
  maxOutputChars := 100

/-- The pattern is one word, and nothing stops the search. -/
def plainOutside : Outside where
  pattern line := line = lit "hit"
  stopped _ := none
  slow _ := false

/-- A file that shows itself to be binary in its second line: `b"hit\n\0"`. -/
def lateBinary : Candidate where
  path := lit "a"
  parts := [lit "a"]
  direct := true
  node := .file 5 (some [104, 105, 116, 10, 0])

def lateResult : WorkspaceSearchResult where
  found := [⟨lit "a", 1, lit "hit", false⟩]
  truncated := false
  reasons := []
  scannedFiles := 1
  scannedBytes := 5

theorem searchText_isSearch_late :
    IsSearch plainRequest plainOutside [lateBinary] .complete lateResult := by
  have hrequest : plainRequest.Valid := by
    constructor <;> decide
  have hresult : searchText plainRequest plainOutside [lateBinary] .complete = some lateResult :=
    rfl
  exact searchText_isSearch hrequest hresult

/-- A match in front of the NUL byte stays listed, without any reason. -/
theorem searchText_lists_binary :
    ¬ ∀ (request : SearchRequest) (outside : Outside) (candidates : List Candidate)
      (discovery : Discovery) (result : WorkspaceSearchResult), request.Valid →
        searchText request outside candidates discovery = some result →
          result.truncated = false →
            result.found = candidates.flatMap (plainListing request outside) := by
  intro hclaim
  have hrequest : plainRequest.Valid := by
    constructor <;> decide
  have hfound := hclaim plainRequest plainOutside [lateBinary] .complete lateResult hrequest rfl rfl
  exact absurd hfound (by decide)

end ReuleauxCoder.Workspace.Local
