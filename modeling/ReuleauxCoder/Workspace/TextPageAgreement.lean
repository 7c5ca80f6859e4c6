import ReuleauxCoder.Library.Check
import ReuleauxCoder.Library.Lines
import ReuleauxCoder.Workspace.TextPage

/-!
# Local and remote pages agree

A piece of the local reader does what its characters do one after the other: the line is
opened once, the body is put character by character, and its end closes the line.  So a
page depends only on the text and not on its chunks, and it fits the limits that the host
checks.
-/

namespace ReuleauxCoder.Workspace

open PyText PyJson List

/-- A body without line breaks and the end of a line, which the end of a chunk may cut off. -/
structure IsPiece (body ending : Text) : Prop where
  body : ∀ c ∈ body, isLineBreak c = false
  ending : ending = [] ∨ (∃ c, isLineBreak c = true ∧ ending = [c]) ∨
    ending = [carriageReturn, lineFeed]

variable {text : Text} {c : CodePoint}

theorem keepLinesFrom_pieces {line : Text} (hline : ∀ c ∈ line, isLineBreak c = false) :
    (keepLinesFrom line text).flatten = line ++ text ∧
      ∀ piece ∈ keepLinesFrom line text, piece ≠ [] ∧
        ∃ body ending, piece = body ++ ending ∧ IsPiece body ending := by
  fun_induction keepLinesFrom line text with
  | case1 => simp
  | case2 line hfilled =>
      refine ⟨by simp, fun piece hpiece => ?_⟩
      rw [mem_singleton.mp hpiece]
      exact ⟨hfilled, line, [], (append_nil _).symm, hline, .inl rfl⟩
  | case3 line c =>
      refine ⟨by simp, fun piece hpiece => ?_⟩
      rw [mem_singleton.mp hpiece]
      refine ⟨by simp, ?_⟩
      by_cases hc : isLineBreak c = true
      · exact ⟨line, [c], rfl, hline, .inr (.inl ⟨c, hc, rfl⟩)⟩
      · refine ⟨line ++ [c], [], (append_nil _).symm, fun d hd => ?_, .inl rfl⟩
        rcases mem_append.mp hd with hold | hnew
        · exact hline d hold
        · rw [mem_singleton.mp hnew]
          exact Bool.eq_false_iff.mpr hc
  | case4 line c d rest hcrlf ih =>
      obtain ⟨hflatten, hpieces⟩ := ih fun c hnone => absurd hnone not_mem_nil
      refine ⟨by simp [hflatten], fun piece hpiece => ?_⟩
      rcases mem_cons.mp hpiece with rfl | hmem
      · refine ⟨by simp, line, [c, d], rfl, hline, .inr (.inr ?_)⟩
        rw [hcrlf.1, hcrlf.2]
      · exact hpieces piece hmem
  | case5 line c d rest hcrlf hc ih =>
      obtain ⟨hflatten, hpieces⟩ := ih fun c hnone => absurd hnone not_mem_nil
      refine ⟨by simp [hflatten], fun piece hpiece => ?_⟩
      rcases mem_cons.mp hpiece with rfl | hmem
      · exact ⟨by simp, line, [c], rfl, hline, .inr (.inl ⟨c, hc, rfl⟩)⟩
      · exact hpieces piece hmem
  | case6 line c d rest hcrlf hc ih =>
      have hgrown : ∀ e ∈ line ++ [c], isLineBreak e = false := by
        intro e he
        rcases mem_append.mp he with hold | hnew
        · exact hline e hold
        · rw [mem_singleton.mp hnew]
          exact Bool.eq_false_iff.mpr hc
      obtain ⟨hflatten, hpieces⟩ := ih hgrown
      exact ⟨by simp [hflatten], hpieces⟩

/-! ## Characters of a piece -/

variable {body ending : Text}

namespace RuneReader

variable {limits : PageLimits} {reader : RuneReader}

/-- The line of the reader is open. -/
structure Opened (limits : PageLimits) (reader : RuneReader) : Prop where
  within : ¬ (limits.offset ≤ reader.line ∧ limits.limit ≤ reader.line - limits.offset)
  started : limits.offset ≤ reader.line → reader.selectedStarted = true
  unskipped : reader.skipLF = false
  kept : reader.kept ≤ limits.maxChars

theorem readRune_of_opened (hopened : Opened limits reader) (c : CodePoint) :
    readRune limits reader c = putRune limits reader c := by
  have hskip : { reader with skipLF := false } = reader := by
    rw [← hopened.unskipped]
  have hopen : openLine limits reader = .ok reader := by
    rw [openLine, if_neg hopened.within]
    split
    · rename_i hselected
      have hstarted := hopened.started hselected
      rw [hstarted]
      simp only [Bool.not_true, Bool.false_and, Bool.false_eq_true, if_false]
      rw [← hstarted]
    · rfl
  rw [readRune, hopened.unskipped, Bool.false_and, if_neg Bool.false_ne_true, hskip, hopen]
  rfl

/-- What a body leaves of an open line. -/
def putBody (limits : PageLimits) (reader : RuneReader) (body : Text) :
    Except TextPage RuneReader :=
  let reader := { reader with lineHasText := reader.lineHasText || !body.isEmpty }
  if limits.offset ≤ reader.line then
    if limits.maxChars - reader.kept < body.length then
      .error ⟨reader.lines ++ [reader.current ++ body.take (limits.maxChars - reader.kept)],
        none, true, true⟩
    else
      .ok
        { reader with
          current := reader.current ++ body
          kept := reader.kept + body.length }
  else .ok reader

theorem foldlM_body (hopened : Opened limits reader) (hbody : ∀ c ∈ body, isLineBreak c = false) :
    body.foldlM (readRune limits) reader = putBody limits reader body := by
  induction body generalizing reader with
  | nil =>
      simp [putBody]
  | cons c rest ih =>
      have hc := hbody c mem_cons_self
      have hrest : ∀ d ∈ rest, isLineBreak d = false :=
        fun d hd => hbody d (mem_cons_of_mem _ hd)
      rw [foldlM_cons, readRune_of_opened hopened, putRune, hc]
      simp only [Bool.false_eq_true, if_false, putBody, isEmpty_cons, Bool.not_false,
        Bool.or_true]
      by_cases hselected : limits.offset ≤ reader.line
      · simp only [if_pos hselected]
        by_cases hfull : limits.maxChars ≤ reader.kept
        · have hroom : limits.maxChars - reader.kept = 0 := Nat.sub_eq_zero_of_le hfull
          have hlong : 0 < (c :: rest).length := Nat.zero_lt_succ _
          rw [if_pos hfull, hroom, if_pos hlong, take_zero, append_nil]
          rfl
        · have hput : Opened limits
              { reader with
                skipLF := false
                lineHasText := true
                current := reader.current ++ [c]
                kept := reader.kept + 1 } :=
            ⟨hopened.within, hopened.started, rfl, Nat.lt_of_not_le hfull⟩
          have hfold := ih hput hrest
          have hskip := hopened.unskipped
          simp only [putBody, if_pos hselected, Bool.true_or] at hfold
          rw [if_neg hfull]
          refine hfold.trans ?_
          have htake : (c :: rest).take (limits.maxChars - reader.kept) =
              c :: rest.take (limits.maxChars - (reader.kept + 1)) := by
            rw [← take_succ_cons]
            congr 1
            omega
          by_cases hlong : limits.maxChars - reader.kept < (c :: rest).length
          · rw [if_pos hlong, if_pos (by rw [length_cons] at hlong; omega), htake,
              append_assoc, singleton_append]
          · rw [if_neg hlong, if_neg (by rw [length_cons] at hlong; omega),
              append_assoc, singleton_append, length_cons, hskip]
            congr 2
            omega
      · have hput : Opened limits { reader with skipLF := false, lineHasText := true } :=
          ⟨hopened.within, hopened.started, rfl, hopened.kept⟩
        have hfold := ih hput hrest
        have hskip := hopened.unskipped
        simp only [putBody, if_neg hselected, Bool.true_or] at hfold
        simp only [if_neg hselected]
        refine hfold.trans ?_
        rw [hskip]

theorem Opened.putBody {next : RuneReader} (hopened : Opened limits reader)
    (hput : putBody limits reader body = .ok next) : Opened limits next := by
  rw [RuneReader.putBody] at hput
  split at hput
  · split at hput
    · cases hput
    · rename_i hfits
      cases hput
      have hkept := hopened.kept
      refine ⟨hopened.within, hopened.started, hopened.unskipped, ?_⟩
      change reader.kept + body.length ≤ limits.maxChars
      change ¬ limits.maxChars - reader.kept < body.length at hfits
      omega
  · cases hput
    exact ⟨hopened.within, hopened.started, hopened.unskipped, hopened.kept⟩

/-- What the end of a line leaves of a reader. -/
def endLine (limits : PageLimits) (reader : RuneReader) (ending : Text) : RuneReader :=
  if ending = [] then reader
  else
    { reader with
      skipLF := ending = [carriageReturn]
      lines := if limits.offset ≤ reader.line then reader.lines ++ [reader.current]
        else reader.lines
      current := if limits.offset ≤ reader.line then [] else reader.current
      line := reader.line + 1
      lineHasText := false
      selectedStarted := false }

theorem putRune_of_isLineBreak (hc : isLineBreak c = true) :
    putRune limits reader c = .ok (endLine limits reader [c]) := by
  rw [putRune, if_pos hc, endLine, if_neg (cons_ne_nil c [])]
  by_cases hselected : limits.offset ≤ reader.line <;> simp [hselected]

theorem foldlM_ending (hopened : Opened limits reader)
    (hending : ending = [] ∨ (∃ c, isLineBreak c = true ∧ ending = [c]) ∨
      ending = [carriageReturn, lineFeed]) :
    ending.foldlM (readRune limits) reader = .ok (endLine limits reader ending) := by
  rcases hending with rfl | ⟨c, hc, rfl⟩ | rfl
  · rfl
  · rw [foldlM_cons, readRune_of_opened hopened, putRune_of_isLineBreak hc]
    rfl
  · rw [foldlM_cons, readRune_of_opened hopened,
      putRune_of_isLineBreak isLineBreak_carriageReturn]
    simp [endLine, readRune]

theorem openLine_opened {next : RuneReader} (hskip : reader.skipLF = false)
    (hkept : reader.kept ≤ limits.maxChars) (hopen : openLine limits reader = .ok next) :
    Opened limits next := by
  rw [openLine] at hopen
  split at hopen
  · cases hopen
  · rename_i hwithin
    split at hopen
    · split at hopen
      · split at hopen
        · cases hopen
        · rename_i hroom
          cases hopen
          exact ⟨hwithin, fun _ => rfl, hskip, Nat.le_of_not_lt hroom⟩
      · cases hopen
        exact ⟨hwithin, fun _ => rfl, hskip, hkept⟩
    · rename_i hbefore
      cases hopen
      exact ⟨hwithin, fun hselected => absurd hselected hbefore, hskip, hkept⟩

/-- The characters of a piece open its line, put its body and end its line. -/
theorem foldlM_piece (hkept : reader.kept ≤ limits.maxChars) (hskip : reader.skipLF = false)
    (hpiece : IsPiece body ending) (hfilled : body ++ ending ≠ []) :
    (body ++ ending).foldlM (readRune limits) reader = (do
      let reader ← openLine limits reader
      let reader ← putBody limits reader body
      return endLine limits reader ending) := by
  have hopening : (body ++ ending).foldlM (readRune limits) reader =
      (do (body ++ ending).foldlM (readRune limits) (← openLine limits reader)) := by
    cases hwhole : body ++ ending with
    | nil => exact absurd hwhole hfilled
    | cons c rest =>
        have hsame : { reader with skipLF := false } = reader := by
          rw [← hskip]
        rw [foldlM_cons, readRune, hskip, Bool.false_and, if_neg Bool.false_ne_true, hsame]
        cases hopen : openLine limits reader with
        | error page => rfl
        | ok next =>
            have hopened := openLine_opened hskip hkept hopen
            change (putRune limits next c >>= fun reader => _) = _
            rw [← readRune_of_opened hopened c]
            rfl
  rw [hopening]
  cases hopen : openLine limits reader with
  | error page => rfl
  | ok next =>
      have hopened := openLine_opened hskip hkept hopen
      change (body ++ ending).foldlM (readRune limits) next = _
      rw [foldlM_append, foldlM_body hopened hpiece.body]
      change _ = (putBody limits next body >>= fun reader => _)
      cases hput : putBody limits next body with
      | error page => rfl
      | ok after => exact foldlM_ending (hopened.putBody hput) hpiece.ending

end RuneReader

namespace PieceReader

variable {limits : PageLimits}

/-- The peer's reader at the same place of the text. -/
def runes (reader : PieceReader) : RuneReader where
  lines := reader.lines
  current := reader.pieces.flatten
  line := reader.lineNumber
  kept := reader.kept
  lineHasText := reader.lineHasText
  skipLF := reader.skipLf
  selectedStarted := !reader.pieces.isEmpty

theorem bodyOf_append (hpiece : IsPiece body ending) : bodyOf (body ++ ending) = body := by
  have hlast : body.getLast?.any isLineBreak = false := by
    cases hget : body.getLast? with
    | none => rfl
    | some c => exact hpiece.body c (mem_of_getLast? hget)
  rcases hpiece.ending with rfl | ⟨c, hc, rfl⟩ | rfl
  · have hcrlf : [carriageReturn, lineFeed].isSuffixOf (body ++ []) = false := by
      rw [Bool.eq_false_iff, append_nil]
      intro hsuffix
      obtain ⟨front, hfront⟩ := isSuffixOf_iff_suffix.mp hsuffix
      have hbreak := hpiece.body lineFeed (by rw [← hfront]; simp)
      exact absurd isLineBreak_lineFeed (Bool.eq_false_iff.mp hbreak)
    rw [bodyOf, hcrlf, if_neg Bool.false_ne_true, append_nil, hlast,
      if_neg Bool.false_ne_true]
  · have hcrlf : [carriageReturn, lineFeed].isSuffixOf (body ++ [c]) = false := by
      rw [Bool.eq_false_iff]
      intro hsuffix
      obtain ⟨front, hfront⟩ := isSuffixOf_iff_suffix.mp hsuffix
      have hfront' : (front ++ [carriageReturn]) ++ [lineFeed] = body ++ [c] := by
        simpa using hfront
      have hreturn : carriageReturn ∈ body := by
        rw [← (append_inj' hfront' rfl).1]
        simp
      exact absurd isLineBreak_carriageReturn (Bool.eq_false_iff.mp (hpiece.body _ hreturn))
    have hended : (body ++ [c]).getLast?.any isLineBreak = true := by simp [hc]
    rw [bodyOf, hcrlf, if_neg Bool.false_ne_true, if_pos hended, dropLast_concat]
  · have hcrlf : [carriageReturn, lineFeed].isSuffixOf (body ++ [carriageReturn, lineFeed]) :=
      isSuffixOf_iff_suffix.mpr (suffix_append _ _)
    rw [bodyOf, if_pos hcrlf]
    simp

theorem ended_append (hpiece : IsPiece body ending) :
    (body ++ ending).getLast?.any isLineBreak = !ending.isEmpty := by
  rcases hpiece.ending with rfl | ⟨c, hc, rfl⟩ | rfl
  · rw [append_nil]
    cases hget : body.getLast? with
    | none => rfl
    | some c => exact hpiece.body c (mem_of_getLast? hget)
  · simp [hc]
  · simp [isLineBreak_lineFeed]

theorem skipLf_append (hpiece : IsPiece body ending) :
    [carriageReturn].isSuffixOf (body ++ ending) = decide (ending = [carriageReturn]) := by
  rw [Bool.eq_iff_iff, decide_eq_true_iff, isSuffixOf_iff_suffix]
  refine ⟨fun ⟨front, hfront⟩ => ?_, fun hreturn => hreturn ▸ suffix_append _ _⟩
  rcases hpiece.ending with rfl | ⟨c, hc, rfl⟩ | rfl
  · have hreturn := hpiece.body carriageReturn (by rw [← append_nil body, ← hfront]; simp)
    exact absurd isLineBreak_carriageReturn (Bool.eq_false_iff.mp hreturn)
  · rw [(append_inj' hfront rfl).2]
  · have hlast := congrArg List.getLast? hfront
    simp [carriageReturn, lineFeed] at hlast

/-- What the end of a piece leaves of a reader. -/
def endPiece (limits : PageLimits) (reader : PieceReader) (ended : Bool) : PieceReader :=
  if ended then
    { reader with
      lines := if limits.offset ≤ reader.lineNumber then reader.lines ++ [reader.pieces.flatten]
        else reader.lines
      pieces := if limits.offset ≤ reader.lineNumber then [] else reader.pieces
      lineNumber := reader.lineNumber + 1
      lineHasText := false }
  else reader

/-- What a body leaves of a reader whose line is open. -/
def keepBody (limits : PageLimits) (reader : PieceReader) (body : Text) :
    Except TextPage PieceReader :=
  if limits.offset ≤ reader.lineNumber then
    if limits.maxChars - reader.kept < body.length then
      .error
        ⟨reader.lines ++ [(reader.pieces ++ [body.take (limits.maxChars - reader.kept)]).flatten],
          none, true, true⟩
    else
      .ok
        { reader with
          pieces := reader.pieces ++ [body]
          lineHasText := reader.lineHasText || !body.isEmpty
          kept := reader.kept + body.length }
  else .ok { reader with lineHasText := reader.lineHasText || !body.isEmpty }

/-- The separator of a new line. -/
def openPiece (limits : PageLimits) (reader : PieceReader) : Except TextPage PieceReader :=
  if limits.offset + limits.limit ≤ reader.lineNumber then
    .error ⟨reader.lines, none, true, false⟩
  else if limits.offset ≤ reader.lineNumber ∧ reader.pieces = [] ∧ reader.lines ≠ [] then
    if limits.maxChars < reader.kept + 1 then .error ⟨reader.lines, none, true, true⟩
    else .ok { reader with kept := reader.kept + 1 }
  else .ok reader

theorem keepBody_of_long (reader : PieceReader) (hselected : limits.offset ≤ reader.lineNumber)
    (hlong : limits.maxChars - reader.kept < body.length) :
    keepBody limits reader body =
      .error
        ⟨reader.lines ++ [(reader.pieces ++ [body.take (limits.maxChars - reader.kept)]).flatten],
          none, true, true⟩ := by
  rw [keepBody, if_pos hselected, if_pos hlong]

theorem keepBody_of_fits (reader : PieceReader) (hselected : limits.offset ≤ reader.lineNumber)
    (hfits : body.length ≤ limits.maxChars - reader.kept) :
    keepBody limits reader body =
      .ok
        { reader with
          pieces := reader.pieces ++ [body]
          lineHasText := reader.lineHasText || !body.isEmpty
          kept := reader.kept + body.length } := by
  rw [keepBody, if_pos hselected, if_neg (Nat.not_lt.mpr hfits)]

theorem readPiece_eq {reader : PieceReader} (hskip : reader.skipLf = false)
    (hpiece : IsPiece body ending) (hfilled : body ++ ending ≠ []) :
    readPiece limits reader (body ++ ending) = (do
      let reader ← openPiece limits reader
      let reader ← keepBody limits reader body
      return endPiece limits { reader with skipLf := ending = [carriageReturn] }
        (!ending.isEmpty)) := by
  rw [readPiece, openPiece]
  simp only [hskip, Bool.false_and, Bool.false_eq_true, if_false, if_neg hfilled,
    bodyOf_append hpiece, ended_append hpiece, skipLf_append hpiece]
  by_cases hlimit : limits.offset + limits.limit ≤ reader.lineNumber
  · rw [if_pos hlimit, if_pos hlimit]
    rfl
  · rw [if_neg hlimit, if_neg hlimit]
    by_cases hselected : limits.offset ≤ reader.lineNumber
    · by_cases hseparator : reader.pieces = [] ∧ reader.lines ≠ []
      · simp only [hselected, true_and, if_true, hseparator.1, hseparator.2,
          ne_eq, not_false_eq_true]
        by_cases hroom : limits.maxChars < reader.kept + 1
        · rw [if_pos hroom, if_pos hroom]
          rfl
        · rw [if_neg hroom, if_neg hroom]
          let opened : PieceReader :=
            { reader with pieces := [], skipLf := false, kept := reader.kept + 1 }
          change _ = (keepBody limits opened body >>= fun _ => _)
          by_cases hlong : limits.maxChars - (reader.kept + 1) < body.length
          · rw [if_pos hlong, keepBody_of_long opened hselected hlong]
            rfl
          · have hfits := Nat.le_of_not_lt hlong
            rw [if_neg hlong, keepBody_of_fits opened hselected hfits, take_of_length_le hfits,
              Nat.min_eq_right hfits]
            cases ending with
            | nil => rfl
            | cons c rest => simp [endPiece, hselected, opened]
      · have hcharge : ¬ (reader.pieces = [] ∧ reader.lines ≠ [] ∧ limits.maxChars < reader.kept) :=
          fun hcharged => hseparator ⟨hcharged.1, hcharged.2.1⟩
        simp only [hselected, true_and, if_neg hseparator, if_true, if_neg hcharge]
        change _ = (keepBody limits reader body >>= fun _ => _)
        by_cases hlong : limits.maxChars - reader.kept < body.length
        · rw [if_pos hlong, keepBody_of_long reader hselected hlong]
          rfl
        · have hfits := Nat.le_of_not_lt hlong
          rw [if_neg hlong, keepBody_of_fits reader hselected hfits, take_of_length_le hfits,
            Nat.min_eq_right hfits]
          cases ending with
          | nil => rfl
          | cons c rest => simp [endPiece, hselected]
    · simp only [hselected, false_and, if_false]
      change _ = (keepBody limits reader body >>= fun reader => _)
      rw [keepBody, if_neg hselected]
      cases ending with
      | nil => rfl
      | cons c rest =>
        simp [endPiece, hselected]

/-- The peer's reader where the line of a reader is open. -/
def openRunes (limits : PageLimits) (reader : PieceReader) : RuneReader :=
  { reader.runes with
    selectedStarted := decide (limits.offset ≤ reader.lineNumber) || !reader.pieces.isEmpty }

theorem openLine_runes (reader : PieceReader) :
    RuneReader.openLine limits reader.runes = (openPiece limits reader).map (openRunes limits) := by
  have hlimit : limits.offset ≤ reader.lineNumber ∧
      limits.limit ≤ reader.lineNumber - limits.offset ↔
      limits.offset + limits.limit ≤ reader.lineNumber := by omega
  change (if limits.offset ≤ reader.lineNumber ∧
    limits.limit ≤ reader.lineNumber - limits.offset then _ else _) = _
  rw [openPiece]
  by_cases hpast : limits.offset + limits.limit ≤ reader.lineNumber
  · rw [if_pos (hlimit.mpr hpast), if_pos hpast]
    rfl
  · rw [if_neg (mt hlimit.mp hpast), if_neg hpast]
    by_cases hselected : limits.offset ≤ reader.lineNumber
    · by_cases hseparator : reader.pieces = [] ∧ reader.lines ≠ []
      · by_cases hroom : limits.maxChars < reader.kept + 1
        · simp [hselected, hseparator, hroom, runes, Except.map]
        · simp [hselected, hseparator, hroom, runes, openRunes, Except.map]
      · have hstarted : ¬ (reader.pieces = [] ∧ ¬ reader.lines = []) := hseparator
        simp [hselected, hstarted, runes, openRunes, Except.map]
    · simp [hselected, runes, openRunes, Except.map]

theorem keepBody_runes (reader : PieceReader) (body : Text) :
    RuneReader.putBody limits (openRunes limits reader) body =
      (keepBody limits reader body).map runes := by
  rw [RuneReader.putBody, keepBody]
  by_cases hselected : limits.offset ≤ reader.lineNumber
  · by_cases hlong : limits.maxChars - reader.kept < body.length
    · simp [hselected, hlong, openRunes, runes, Except.map]
    · simp [hselected, hlong, openRunes, runes, Except.map]
  · simp [hselected, openRunes, runes, Except.map]

theorem endPiece_runes {reader : PieceReader} (hskip : reader.skipLf = false)
    (hbefore : reader.lineNumber < limits.offset → reader.pieces = []) (ending : Text) :
    (endPiece limits { reader with skipLf := ending = [carriageReturn] } (!ending.isEmpty)).runes =
      RuneReader.endLine limits reader.runes ending := by
  cases ending with
  | nil => simp [endPiece, RuneReader.endLine, runes, hskip]
  | cons c rest =>
      by_cases hselected : limits.offset ≤ reader.lineNumber
      · simp [endPiece, RuneReader.endLine, runes, hselected]
      · have hnothing := hbefore (Nat.lt_of_not_le hselected)
        simp [endPiece, RuneReader.endLine, runes, hselected, hnothing]

/-- What holds between two pieces. -/
structure Bounded (limits : PageLimits) (reader : PieceReader) : Prop where
  kept : reader.kept ≤ limits.maxChars
  before : reader.lineNumber < limits.offset → reader.pieces = []
  count : reader.lines.length = reader.lineNumber - limits.offset
  chars : (reader.lines.map List.length).sum + reader.pieces.flatten.length ≤ reader.kept
  within : reader.lineNumber + reader.lineHasText.toNat ≤ limits.offset + limits.limit

/-- A page within its limits. -/
structure Fits (limits : PageLimits) (page : TextPage) : Prop where
  count : page.lines.length ≤ limits.limit
  chars : (page.lines.map List.length).sum ≤ limits.maxChars

theorem openPiece_bounded {reader : PieceReader} (hbounded : Bounded limits reader) :
    Check.Ends (Fits limits)
      (fun next => Bounded limits next ∧ next.lineNumber < limits.offset + limits.limit ∧
        next.skipLf = reader.skipLf) (openPiece limits reader) := by
  obtain ⟨hkept, hbefore, hcount, hchars, hwithin⟩ := hbounded
  have hfits : ∀ more truncated, Fits limits ⟨reader.lines, none, more, truncated⟩ :=
    fun _ _ => ⟨show reader.lines.length ≤ _ by omega,
      show (reader.lines.map List.length).sum ≤ _ by omega⟩
  rw [openPiece]
  by_cases hpast : limits.offset + limits.limit ≤ reader.lineNumber
  · rw [if_pos hpast]
    exact hfits true false
  · rw [if_neg hpast]
    have hline := Nat.lt_of_not_le hpast
    split
    · split
      · exact hfits true true
      · rename_i hroom
        exact ⟨⟨Nat.le_of_not_lt hroom, hbefore, hcount, Nat.le_succ_of_le hchars, hwithin⟩,
          hline, rfl⟩
    · exact ⟨⟨hkept, hbefore, hcount, hchars, hwithin⟩, hline, rfl⟩

theorem keepBody_bounded {reader : PieceReader} (hbounded : Bounded limits reader)
    (hline : reader.lineNumber < limits.offset + limits.limit) (body : Text) :
    Check.Ends (Fits limits)
      (fun next => Bounded limits next ∧ next.lineNumber < limits.offset + limits.limit ∧
        next.skipLf = reader.skipLf) (keepBody limits reader body) := by
  obtain ⟨hkept, hbefore, hcount, hchars, hwithin⟩ := hbounded
  have hopen : ∀ text : Bool,
      reader.lineNumber + text.toNat ≤ limits.offset + limits.limit := by
    intro text
    have htext := Bool.toNat_le text
    omega
  rw [keepBody]
  by_cases hselected : limits.offset ≤ reader.lineNumber
  · rw [if_pos hselected]
    by_cases hlong : limits.maxChars - reader.kept < body.length
    · rw [if_pos hlong]
      constructor
      · simp only [length_append, length_singleton]
        omega
      · simp only [map_append, sum_append, flatten_append, length_append,
          map_cons, map_nil, sum_cons, sum_nil, flatten_cons,
          flatten_nil, append_nil, length_take]
        omega
    · rw [if_neg hlong]
      refine ⟨⟨?_, fun hearlier => absurd hselected (Nat.not_le.mpr hearlier), hcount, ?_,
        hopen _⟩, hline, rfl⟩
      · change reader.kept + body.length ≤ _
        omega
      · simp only [flatten_append, length_append, flatten_cons, flatten_nil,
          append_nil]
        omega
  · rw [if_neg hselected]
    exact ⟨⟨hkept, hbefore, hcount, hchars, hopen _⟩, hline, rfl⟩

theorem endPiece_bounded {reader : PieceReader} (hbounded : Bounded limits reader)
    (hline : reader.lineNumber < limits.offset + limits.limit) (skipLf ended : Bool) :
    Bounded limits (endPiece limits { reader with skipLf } ended) := by
  obtain ⟨hkept, hbefore, hcount, hchars, hwithin⟩ := hbounded
  cases ended with
  | false => exact ⟨hkept, hbefore, hcount, hchars, hwithin⟩
  | true =>
      by_cases hselected : limits.offset ≤ reader.lineNumber
      · have hended : endPiece limits { reader with skipLf } true =
            { reader with
              skipLf
              lines := reader.lines ++ [reader.pieces.flatten]
              pieces := []
              lineNumber := reader.lineNumber + 1
              lineHasText := false } := by
          simp [endPiece, hselected]
        rw [hended]
        refine ⟨hkept, fun _ => rfl, ?_, ?_, hline⟩
        · simp only [length_append, length_singleton]
          omega
        · simpa using hchars
      · have hended : endPiece limits { reader with skipLf } true =
            { reader with skipLf, lineNumber := reader.lineNumber + 1, lineHasText := false } := by
          simp [endPiece, hselected]
        have hnext : reader.lines.length = reader.lineNumber + 1 - limits.offset := by omega
        rw [hended]
        exact ⟨hkept, fun _ => hbefore (Nat.lt_of_not_le hselected), hnext, hchars, hline⟩

/-- The first piece of a chunk may be the rest of a line end. -/
theorem rest_of_skipped (hpiece : IsPiece body ending)
    (hbegins : [lineFeed].isPrefixOf (body ++ ending) = true) : body ++ ending = [lineFeed] := by
  obtain ⟨rest, hrest⟩ := List.isPrefixOf_iff_prefix.mp hbegins
  cases body with
  | cons c body =>
      have hc : lineFeed = c := by
        simpa using congrArg List.head? hrest
      have hbreak := hpiece.body c mem_cons_self
      rw [← hc, isLineBreak_lineFeed] at hbreak
      cases hbreak
  | nil =>
      rw [nil_append] at hrest ⊢
      rcases hpiece.ending with rfl | ⟨c, hc, rfl⟩ | rfl
      · cases hrest
      · rw [(List.cons.inj hrest).1]
      · exact absurd (List.cons.inj hrest).1 (by decide)

theorem readPiece_unskip {reader : PieceReader} {piece : Text}
    (hskip : (reader.skipLf && [lineFeed].isPrefixOf piece) = false) :
    readPiece limits reader piece = readPiece limits { reader with skipLf := false } piece := by
  rw [readPiece, readPiece, hskip, Bool.false_and]

theorem readPiece_bounded {reader : PieceReader} (hbounded : Bounded limits reader)
    (hpiece : IsPiece body ending) (hfilled : body ++ ending ≠ []) :
    Check.Ends (Fits limits) (Bounded limits) (readPiece limits reader (body ++ ending)) := by
  have hcleared : Bounded limits { reader with skipLf := false } :=
    ⟨hbounded.kept, hbounded.before, hbounded.count, hbounded.chars, hbounded.within⟩
  cases hskip : reader.skipLf && [lineFeed].isPrefixOf (body ++ ending) with
  | true =>
      have hwhole := rest_of_skipped hpiece (Bool.and_eq_true_iff.mp hskip).2
      rw [hwhole] at hskip ⊢
      rw [readPiece, hskip]
      exact hcleared
  | false =>
      rw [readPiece_unskip hskip, readPiece_eq rfl hpiece hfilled]
      refine (openPiece_bounded hcleared).bind fun opened ⟨hopened, hline, _⟩ => ?_
      refine (keepBody_bounded hopened hline body).bind fun put ⟨hput, hline, _⟩ => ?_
      exact endPiece_bounded hput hline _ _

theorem foldlM_unskip {reader : RuneReader} (hfilled : text ≠ [])
    (hskip : (reader.skipLF && [lineFeed].isPrefixOf text) = false) :
    text.foldlM (RuneReader.readRune limits) reader =
      text.foldlM (RuneReader.readRune limits) { reader with skipLF := false } := by
  cases text with
  | nil => exact absurd rfl hfilled
  | cons c rest =>
      have hfirst : (reader.skipLF && decide (c = lineFeed)) = false := by
        have hequal : [lineFeed].isPrefixOf (c :: rest) = decide (c = lineFeed) := by
          rw [Bool.eq_iff_iff]
          simp only [List.isPrefixOf, Bool.and_true, beq_iff_eq, decide_eq_true_iff]
          exact eq_comm
        rw [← hskip, hequal]
      rw [foldlM_cons, foldlM_cons, RuneReader.readRune, hfirst, RuneReader.readRune,
        Bool.false_and]

/-- A piece of the local reader is what its characters are to the peer's. -/
theorem readPiece_runes {reader : PieceReader} (hbounded : Bounded limits reader)
    (hpiece : IsPiece body ending) (hfilled : body ++ ending ≠ []) :
    (readPiece limits reader (body ++ ending)).map runes =
      (body ++ ending).foldlM (RuneReader.readRune limits) reader.runes := by
  let cleared : PieceReader := { reader with skipLf := false }
  have hcleared : Bounded limits cleared :=
    ⟨hbounded.kept, hbounded.before, hbounded.count, hbounded.chars, hbounded.within⟩
  cases hskip : reader.skipLf && [lineFeed].isPrefixOf (body ++ ending) with
  | true =>
      have hwhole := rest_of_skipped hpiece (Bool.and_eq_true_iff.mp hskip).2
      rw [hwhole] at hskip ⊢
      rw [readPiece, hskip, foldlM_cons, RuneReader.readRune]
      have hpending : (reader.runes.skipLF && decide (lineFeed = lineFeed)) = true := by
        rw [decide_eq_true rfl, Bool.and_true]
        exact (Bool.and_eq_true_iff.mp hskip).1
      rw [if_pos hpending]
      rfl
  | false =>
      rw [readPiece_unskip hskip, foldlM_unskip hfilled hskip]
      change (readPiece limits cleared _).map runes =
        (body ++ ending).foldlM (RuneReader.readRune limits) cleared.runes
      rw [readPiece_eq rfl hpiece hfilled,
        RuneReader.foldlM_piece hcleared.kept rfl hpiece hfilled, openLine_runes]
      have hopening := openPiece_bounded hcleared
      cases hopen : openPiece limits cleared with
      | error page => rfl
      | ok opened =>
          rw [hopen] at hopening
          obtain ⟨hopened, hline, hopenedSkip⟩ := hopening
          change ((keepBody limits opened body >>= fun _ => _).map runes) =
            (RuneReader.putBody limits (openRunes limits opened) body >>= fun _ => _)
          rw [keepBody_runes]
          have hputting := keepBody_bounded hopened hline body
          cases hput : keepBody limits opened body with
          | error page => rfl
          | ok put =>
              rw [hput] at hputting
              obtain ⟨hputBounded, _, hputSkip⟩ := hputting
              exact congrArg Except.ok
                (endPiece_runes (hputSkip.trans hopenedSkip) hputBounded.before ending)

end PieceReader

/-! ## Whole texts -/

variable {limits : PageLimits}

/-- One chunk of the stream. -/
def readChunk (limits : PageLimits) (reader : PieceReader) (chunk : Text) :
    Except TextPage PieceReader :=
  (keepLinesFrom [] chunk).foldlM (PieceReader.readPiece limits) reader

theorem pieces_of_chunk (chunk : Text) :
    (keepLinesFrom [] chunk).flatten = chunk ∧
      ∀ piece ∈ keepLinesFrom [] chunk, piece ≠ [] ∧
        ∃ body ending, piece = body ++ ending ∧ IsPiece body ending :=
  keepLinesFrom_pieces fun _ hnone => absurd hnone not_mem_nil

theorem readPiece_of_chunk {reader : PieceReader} (hbounded : PieceReader.Bounded limits reader)
    (chunk : Text) {piece : Text} (hmem : piece ∈ keepLinesFrom [] chunk) :
    Check.Ends (PieceReader.Fits limits) (PieceReader.Bounded limits)
        (PieceReader.readPiece limits reader piece) ∧
      (PieceReader.readPiece limits reader piece).map PieceReader.runes =
        piece.foldlM (RuneReader.readRune limits) reader.runes := by
  obtain ⟨hfilled, body, ending, hwhole, hpiece⟩ := (pieces_of_chunk chunk).2 piece hmem
  rw [hwhole] at hfilled ⊢
  exact ⟨PieceReader.readPiece_bounded hbounded hpiece hfilled,
    PieceReader.readPiece_runes hbounded hpiece hfilled⟩

theorem readChunk_bounded {reader : PieceReader} (hbounded : PieceReader.Bounded limits reader)
    (chunk : Text) :
    Check.Ends (PieceReader.Fits limits) (PieceReader.Bounded limits)
      (readChunk limits reader chunk) :=
  Check.ends_foldlM (fun _ hstate _ hmem => (readPiece_of_chunk hstate chunk hmem).1) hbounded

theorem readChunk_runes {reader : PieceReader} (hbounded : PieceReader.Bounded limits reader)
    (chunk : Text) :
    (readChunk limits reader chunk).map PieceReader.runes =
      chunk.foldlM (RuneReader.readRune limits) reader.runes :=
  calc (readChunk limits reader chunk).map PieceReader.runes
      = (keepLinesFrom [] chunk).foldlM
          (fun state piece => piece.foldlM (RuneReader.readRune limits) state) reader.runes :=
        Check.map_foldlM (fun _ hstate _ hmem => (readPiece_of_chunk hstate chunk hmem).1)
          (fun _ hstate _ hmem => (readPiece_of_chunk hstate chunk hmem).2) hbounded
    _ = (keepLinesFrom [] chunk).flatten.foldlM (RuneReader.readRune limits) reader.runes :=
        (Check.foldlM_flatten _ _).symm
    _ = chunk.foldlM (RuneReader.readRune limits) reader.runes := by
        rw [(pieces_of_chunk chunk).1]

theorem initial_bounded (hoffset : 1 ≤ limits.offset) (hlimit : 1 ≤ limits.limit) :
    PieceReader.Bounded limits {} where
  kept := Nat.zero_le _
  before _ := rfl
  count := (Nat.sub_eq_zero_of_le hoffset).symm
  chars := Nat.le_refl 0
  within := by
    change 1 + 0 ≤ _
    omega

/-- The two readers make the same page of a text, however it is handed out. -/
theorem readLocalPage_eq_readRunes (hoffset : 1 ≤ limits.offset) (hlimit : 1 ≤ limits.limit)
    {chunks : List Text} (hchunks : ∀ chunk ∈ chunks, chunk ≠ []) :
    readLocalPage limits chunks = readRunes limits chunks.flatten := by
  have hall : chunks.takeWhile (fun chunk => !chunk.isEmpty) = chunks := by
    rw [takeWhile_eq_self_iff]
    intro chunk hmem
    simpa using hchunks chunk hmem
  have hloops : (chunks.foldlM (readChunk limits) {}).map PieceReader.runes =
      chunks.flatten.foldlM (RuneReader.readRune limits) {} :=
    (Check.map_foldlM (fun _ hstate chunk _ => readChunk_bounded hstate chunk)
      (fun _ hstate chunk _ => readChunk_runes hstate chunk)
      (initial_bounded hoffset hlimit)).trans (Check.foldlM_flatten _ _).symm
  rw [readLocalPage, hall, readRunes, ← hloops]
  change pageOf _ (chunks.foldlM (readChunk limits) {}) = _
  cases chunks.foldlM (readChunk limits) {} with
  | error page => rfl
  | ok reader => rfl

theorem finish_fits {reader : PieceReader} (hbounded : PieceReader.Bounded limits reader) :
    PieceReader.Fits limits (reader.finish limits) := by
  obtain ⟨hkept, _, hcount, hchars, hwithin⟩ := hbounded
  rw [PieceReader.finish]
  cases hlast : reader.lineHasText && decide (limits.offset ≤ reader.lineNumber) with
  | false =>
      constructor
      · change reader.lines.length ≤ _
        omega
      · change (reader.lines.map List.length).sum ≤ _
        omega
  | true =>
      have htext : reader.lineHasText = true := (Bool.and_eq_true_iff.mp hlast).1
      have hselected := of_decide_eq_true (Bool.and_eq_true_iff.mp hlast).2
      rw [htext, Bool.toNat_true] at hwithin
      constructor
      · change (reader.lines ++ [reader.pieces.flatten]).length ≤ _
        rw [length_append, length_singleton]
        omega
      · change ((reader.lines ++ [reader.pieces.flatten]).map List.length).sum ≤ _
        rw [map_append, sum_append, map_singleton, sum_singleton]
        omega

/-- A page is within its limits. -/
theorem readLocalPage_fits (hoffset : 1 ≤ limits.offset) (hlimit : 1 ≤ limits.limit)
    (chunks : List Text) : PieceReader.Fits limits (readLocalPage limits chunks) := by
  have hends : Check.Ends (PieceReader.Fits limits) (PieceReader.Bounded limits)
      ((chunks.takeWhile fun chunk => !chunk.isEmpty).foldlM (readChunk limits) {}) :=
    Check.ends_foldlM (fun _ hstate chunk _ => readChunk_bounded hstate chunk)
      (initial_bounded hoffset hlimit)
  rw [readLocalPage]
  change PieceReader.Fits limits (pageOf _ (List.foldlM (readChunk limits) {} _))
  cases hread : (chunks.takeWhile fun chunk => !chunk.isEmpty).foldlM (readChunk limits) {} with
  | error page =>
      rw [hread] at hends
      exact hends
  | ok reader =>
      rw [hread] at hends
      exact finish_fits hends

theorem strings?_map (lines : List Text) : strings? (.arr (lines.map .str)) = some lines := by
  rw [strings?, mapM_map]
  induction lines with
  | nil => rfl
  | cons line rest ih =>
      rw [mapM_cons, ih]
      rfl

/-- A page within its limits passes the host's check. -/
theorem acceptPage_data {page : TextPage} (hfits : PieceReader.Fits limits page) :
    acceptPage limits page.data = some page := by
  obtain ⟨lines, totalLines, hasMore, truncated⟩ := page
  have hlines : field (TextPage.data ⟨lines, totalLines, hasMore, truncated⟩) "lines" =
      .arr (lines.map .str) := rfl
  have htotal : total? (field (TextPage.data ⟨lines, totalLines, hasMore, truncated⟩)
      "total_lines") = some totalLines := by
    cases totalLines with
    | none => rfl
    | some total =>
        change (if (0 : ℤ) ≤ total then some (some (total : ℤ).toNat) else none) = _
        rw [if_pos (Int.natCast_nonneg total), Int.toNat_natCast]
  have hmore : flag? (field (TextPage.data ⟨lines, totalLines, hasMore, truncated⟩) "has_more") =
      some hasMore := rfl
  have htruncated : flag? (field (TextPage.data ⟨lines, totalLines, hasMore, truncated⟩)
      "truncated") = some truncated := rfl
  rw [acceptPage, hlines, htotal, hmore, htruncated, strings?_map]
  exact if_pos ⟨hfits.count, hfits.chars⟩

/-! ## Limits as the peer decodes them -/

/-- The same number, or two that are not below the bound. -/
def AlikeBelow (bound first second : ℕ) : Prop :=
  first = second ∨ bound ≤ first ∧ bound ≤ second

variable {value : ℕ}

theorem AlikeBelow.le_iff {bound first second : ℕ} (halike : AlikeBelow bound first second)
    (hvalue : value < bound) : first ≤ value ↔ second ≤ value := by
  rcases halike with rfl | ⟨hfirst, hsecond⟩
  · exact Iff.rfl
  · exact iff_of_false (by omega) (by omega)

/-- Limits between which a text of fewer characters than the bound makes no difference. -/
structure PageLimits.Alike (bound : ℕ) (limits other : PageLimits) : Prop where
  offset : AlikeBelow bound limits.offset other.offset
  limit : AlikeBelow bound limits.limit other.limit
  maxChars : AlikeBelow bound limits.maxChars other.maxChars

namespace RuneReader

/-- What a reader may have counted after so many characters. -/
structure Counted (reader : RuneReader) (count : ℕ) : Prop where
  line : reader.line ≤ count + 1
  kept : reader.kept ≤ 2 * count

variable {other : PageLimits} {reader next : RuneReader} {bound count : ℕ}

theorem openLine_counted (hcounted : reader.Counted count)
    (hopen : openLine limits reader = .ok next) :
    next.line ≤ count + 1 ∧ next.kept ≤ 2 * count + 1 := by
  obtain ⟨hline, hkept⟩ := hcounted
  rw [openLine] at hopen
  split at hopen
  · cases hopen
  · split at hopen
    · split at hopen
      · split at hopen
        · cases hopen
        · cases hopen
          exact ⟨hline, Nat.succ_le_succ hkept⟩
      · cases hopen
        exact ⟨hline, hkept.trans (Nat.le_succ _)⟩
    · cases hopen
      exact ⟨hline, hkept.trans (Nat.le_succ _)⟩

theorem putRune_counted (hline : reader.line ≤ count + 1) (hkept : reader.kept ≤ 2 * count + 1)
    (hput : putRune limits reader c = .ok next) : next.Counted (count + 1) := by
  rw [putRune] at hput
  split at hput
  · cases hput
    constructor
    · dsimp only
      split <;> exact Nat.succ_le_succ hline
    · dsimp only
      split <;> (dsimp only; omega)
  · dsimp only at hput
    split at hput
    · split at hput
      · cases hput
      · cases hput
        exact ⟨hline.trans (Nat.le_succ _), by dsimp only; omega⟩
    · cases hput
      exact ⟨hline.trans (Nat.le_succ _), by dsimp only; omega⟩

/-- One character more. -/
theorem readRune_counted (hcounted : reader.Counted count)
    (hread : readRune limits reader c = .ok next) : next.Counted (count + 1) := by
  rw [readRune] at hread
  split at hread
  · cases hread
    exact ⟨hcounted.line.trans (Nat.le_succ _), hcounted.kept.trans (by omega)⟩
  · cases hopen : openLine limits { reader with skipLF := false } with
    | error page =>
        rw [hopen] at hread
        cases hread
    | ok opened =>
        rw [hopen] at hread
        have hcleared : Counted { reader with skipLF := false } count := ⟨hcounted.line, hcounted.kept⟩
        obtain ⟨hline, hkept⟩ := openLine_counted hcleared hopen
        exact putRune_counted hline hkept hread

section

variable (halike : limits.Alike bound other)
include halike

theorem openLine_alike (hline : reader.line < bound)
    (hkept : reader.kept + 1 < bound) : openLine limits reader = openLine other reader := by
  have hselected := halike.offset.le_iff hline
  have hwithin : limits.offset ≤ reader.line ∧ limits.limit ≤ reader.line - limits.offset ↔
      other.offset ≤ reader.line ∧ other.limit ≤ reader.line - other.offset := by
    rcases halike.offset with heq | ⟨hfirst, hsecond⟩
    · rw [heq, halike.limit.le_iff (lt_of_le_of_lt (Nat.sub_le _ _) hline)]
    · exact iff_of_false (fun hboth => by omega) (fun hboth => by omega)
  have hroom : limits.maxChars < reader.kept + 1 ↔ other.maxChars < reader.kept + 1 :=
    Nat.lt_succ_iff.trans ((halike.maxChars.le_iff (by omega)).trans Nat.lt_succ_iff.symm)
  rw [openLine, openLine]
  refine if_congr hwithin rfl ?_
  simp only [hselected, hroom]

theorem putRune_alike (c : CodePoint)
    (hline : reader.line < bound) (hkept : reader.kept < bound) :
    putRune limits reader c = putRune other reader c := by
  simp only [putRune, halike.offset.le_iff hline, halike.maxChars.le_iff hkept]

/-- While the counts are below the bound, the limits make no difference. -/
theorem readRune_alike (c : CodePoint)
    (hcounted : reader.Counted count) (hroom : 2 * count + 2 < bound) :
    readRune limits reader c = readRune other reader c := by
  have hline := hcounted.line
  have hkept := hcounted.kept
  rw [readRune, readRune]
  split
  · rfl
  · rw [← openLine_alike halike (by dsimp only; omega) (by dsimp only; omega)]
    cases hopen : openLine limits { reader with skipLF := false } with
    | error page => rfl
    | ok opened =>
        have hcleared : Counted { reader with skipLF := false } count := ⟨hline, hkept⟩
        obtain ⟨hopened, hopenedKept⟩ := openLine_counted hcleared hopen
        exact putRune_alike halike c (by omega) (by omega)

theorem foldlM_alike (text : Text)
    (hcounted : reader.Counted count) (hroom : 2 * (count + text.length) + 1 < bound) :
    text.foldlM (readRune limits) reader = text.foldlM (readRune other) reader ∧
      ∀ last, text.foldlM (readRune limits) reader = .ok last → last.line < bound := by
  induction text generalizing reader count with
  | nil =>
      refine ⟨rfl, fun last hlast => ?_⟩
      cases hlast
      have hline := hcounted.line
      rw [length_nil] at hroom
      omega
  | cons c rest ih =>
      rw [length_cons] at hroom
      rw [foldlM_cons, foldlM_cons,
        ← readRune_alike halike c hcounted (by omega)]
      cases hread : readRune limits reader c with
      | error page => exact ⟨rfl, nofun⟩
      | ok next => exact ih (readRune_counted hcounted hread) (by omega)

end

end RuneReader

/-- A text of fewer characters than the bound has the same page between such limits. -/
theorem readRunes_alike {other : PageLimits} {bound : ℕ} (halike : limits.Alike bound other)
    (htext : 2 * text.length + 1 < bound) : readRunes limits text = readRunes other text := by
  have hnew : ({} : RuneReader).Counted 0 := ⟨Nat.le_refl 1, Nat.le_refl 0⟩
  obtain ⟨hsame, hline⟩ := RuneReader.foldlM_alike halike text hnew (by omega)
  rw [readRunes, readRunes, ← hsame]
  cases hread : text.foldlM (RuneReader.readRune limits) {} with
  | error page => rfl
  | ok last =>
      simp only [pageOf, RuneReader.finish, halike.offset.le_iff (hline last hread)]

theorem alike_ofNat (value : ℕ) : AlikeBelow (2 ^ 53) (Binary64.ofNat value) value := by
  rcases Nat.le_total value (2 ^ 53) with hexact | hlarge
  · exact .inl (Binary64.ofNat_of_le hexact)
  · exact .inr ⟨Binary64.pow_le_ofNat hlarge, hlarge⟩

theorem toInt_ofNat (hvalue : value < 2 ^ 63 - 2 ^ 9) :
    toInt (Binary64.ofNat value) = Binary64.ofNat value := by
  have hrange := Binary64.ofNat_lt hvalue
  rw [toInt, if_pos]
  omega

theorem validArg_sent (hpositive : 1 ≤ value) (hvalue : value < 2 ^ 63 - 2 ^ 9) :
    validArg (some (.sent value)) = true := by
  have hrounded := Binary64.ofNat_pos hpositive
  rw [Argument.sent, validArg, toInt_ofNat hvalue, decide_eq_true_iff]
  omega

theorem intArg_sent (fallback : ℤ) (hvalue : value < 2 ^ 63 - 2 ^ 9) :
    (intArg fallback (some (.sent value))).toNat = Binary64.ofNat value := by
  rw [Argument.sent, intArg, toInt_ofNat hvalue, Int.toNat_natCast]

/-- The numbers that reach the peer are those that the host has, or make no difference. -/
def Carried (limits : PageLimits) (text : Text) : Prop :=
  text.length < 2 ^ 52 ∨
    Binary64.ofNat limits.offset = limits.offset ∧ Binary64.ofNat limits.limit = limits.limit ∧
      Binary64.ofNat limits.maxChars = limits.maxChars

/-- The arguments of a request for a page. -/
def PageLimits.sent (limits : PageLimits) : PageArguments where
  offset := some (.sent limits.offset)
  limit := some (.sent limits.limit)
  maxChars := some (.sent limits.maxChars)

/-- The numbers are positive and below `2 ^ 63`, also when they are rounded. -/
structure PageLimits.Sendable (limits : PageLimits) : Prop where
  offset : 1 ≤ limits.offset ∧ limits.offset < 2 ^ 63 - 2 ^ 9
  limit : 1 ≤ limits.limit ∧ limits.limit < 2 ^ 63 - 2 ^ 9
  maxChars : 1 ≤ limits.maxChars ∧ limits.maxChars < 2 ^ 63 - 2 ^ 9

/-- The peer and the local workspace return the same page of a text, which the host accepts.  The
limits reach the peer as `float64` values. -/
theorem readTextPage_agrees (display : Text) (chunks : List Text)
    (hchunks : ∀ chunk ∈ chunks, chunk ≠ []) (limits : PageLimits) (hlimits : limits.Sendable)
    (hcarried : Carried limits chunks.flatten) :
    let page := readLocalPage limits chunks
    readTextPage display limits.sent (.regular chunks.flatten) = .ok page ∧
      acceptPage limits page.data = some page := by
  intro page
  obtain ⟨hoffset, hlimit, hmaxChars⟩ := hlimits
  refine ⟨?_, acceptPage_data (readLocalPage_fits hoffset.1 hlimit.1 chunks)⟩
  have hpage : readTextPage display limits.sent (.regular chunks.flatten) =
      .ok (readRunes ⟨Binary64.ofNat limits.offset, Binary64.ofNat limits.limit,
        Binary64.ofNat limits.maxChars⟩ chunks.flatten) := by
    rw [readTextPage, PageLimits.sent, validArg_sent hoffset.1 hoffset.2,
      validArg_sent hlimit.1 hlimit.2, validArg_sent hmaxChars.1 hmaxChars.2]
    simp only [Bool.and_self, if_true, intArg_sent _ hoffset.2, intArg_sent _ hlimit.2,
      intArg_sent _ hmaxChars.2]
  have hsame : readRunes ⟨Binary64.ofNat limits.offset, Binary64.ofNat limits.limit,
      Binary64.ofNat limits.maxChars⟩ chunks.flatten = readRunes limits chunks.flatten := by
    rcases hcarried with hshort | ⟨hoffset, hlimit, hmaxChars⟩
    · exact readRunes_alike ⟨alike_ofNat _, alike_ofNat _, alike_ofNat _⟩ (by omega)
    · rw [hoffset, hlimit, hmaxChars]
  rw [hpage, hsame]
  exact congrArg Except.ok (readLocalPage_eq_readRunes hoffset.1 hlimit.1 hchunks).symm

/-- With `2 ^ 60 + 1` as the limit, which reaches the peer rounded. -/
theorem readTextPage_agrees_crlf :
    let page : TextPage := ⟨[lit "ab", lit "c"], none, true, true⟩
    let limits : PageLimits := ⟨1, 2 ^ 60 + 1, 4⟩
    readLocalPage limits [lit "ab\r", lit "\ncd"] = page ∧
      readTextPage (lit "notes.txt") limits.sent (.regular (lit "ab\r\ncd")) = .ok page ∧
      acceptPage limits page.data = some page := by
  intro page limits
  have hlocal : readLocalPage limits [lit "ab\r", lit "\ncd"] = page := by decide
  have hagrees := readTextPage_agrees (lit "notes.txt") [lit "ab\r", lit "\ncd"] (by decide)
    limits ⟨by decide, by decide, by decide⟩ (.inl (by decide))
  rw [hlocal] at hagrees
  exact ⟨hlocal, hagrees⟩

/-- A limit that is no `int64` is refused by the peer only. -/
theorem readTextPage_refuses_large :
    ¬ ∀ (display : Text) (chunks : List Text) (limits : PageLimits),
      (∀ chunk ∈ chunks, chunk ≠ []) → 1 ≤ limits.offset → 1 ≤ limits.limit →
        1 ≤ limits.maxChars →
          readTextPage display limits.sent (.regular chunks.flatten) =
            .ok (readLocalPage limits chunks) := by
  intro hclaim
  have hpage := hclaim (lit "notes.txt") [] ⟨1, 10 ^ 19, 4⟩ (fun _ => nofun) (by decide)
    (by decide) (by decide)
  have hrefused : (validArg (some (.sent (10 ^ 19)))) = false := by decide +kernel
  rw [readTextPage, PageLimits.sent, hrefused, Bool.and_false, Bool.false_and] at hpage
  cases hpage

end ReuleauxCoder.Workspace
