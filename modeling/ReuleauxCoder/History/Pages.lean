import ReuleauxCoder.History.Lossless

/-!
# One page of a shelf

The tables hold the first events of a sorted ledger.  A page from a cursor hands out
what is selected among them from there on, and its cursor stands for what is left of
the whole ledger; only a record whose metadata leaves no room stops it.
-/

namespace ReuleauxCoder.History

open PyText PyJson Pieces List

/-! ## Cursors -/

theorem intText_of_pos {value : ℤ} (hvalue : 1 ≤ value) : intText value = decimal value.natAbs := by
  rw [intText, if_neg (by omega)]

theorem int?_decimal (value : ℕ) : int? (decimal value) = some (value : ℤ) := by
  cases hdecimal : decimal value with
  | nil => exact absurd hdecimal (decimal_ne_nil value)
  | cons c rest =>
      have hdigits : ∀ d ∈ c :: rest, isDigit d = true := by
        intro d hd
        rw [← hdecimal] at hd
        exact isDigit_decimal value hd
      have hc := hdigits c mem_cons_self
      have hminus : c ≠ ofChar '-' := by
        rintro rfl
        exact absurd hc (by decide)
      have hplus : c ≠ ofChar '+' := by
        rintro rfl
        exact absurd hc (by decide)
      have hall : (c :: rest).all isDigit = true := all_eq_true.mpr hdigits
      have hvalue := digitsValue_decimal value
      rw [hdecimal] at hvalue
      simp only [int?, hminus, hplus, or_self, if_false, hall, hvalue, ne_eq, cons_ne_nil,
        not_false_eq_true, decide_true, Bool.true_and, if_true]

theorem colon_not_mem_decimal (value : ℕ) : ofChar ':' ∉ decimal value := by
  intro hcolon
  exact absurd (isDigit_decimal value hcolon) (by decide)

/-- A cursor names the position that it was made of. -/
theorem position?_cursor {position : Position} (hseq : 1 ≤ position.seq) :
    position? position.cursor = some position := by
  have hsplit : position.cursor.splitOn (ofChar ':') =
      [decimal position.seq.natAbs, decimal position.offset] := by
    have hjoin : position.cursor =
        [ofChar ':'].intercalate [decimal position.seq.natAbs, decimal position.offset] := by
      rw [Position.cursor, intText_of_pos hseq]
      simp [List.intercalate]
    rw [hjoin]
    apply splitOn_intercalate
    · simp [colon_not_mem_decimal]
    · simp
  have habs : (position.seq.natAbs : ℤ) = position.seq := by omega
  simp [position?, hsplit, int?_decimal, habs, hseq]

theorem startPosition_cursor (selection : Selection) {position : Position}
    (hseq : 1 ≤ position.seq) :
    startPosition selection (some position.cursor) = .ok position := by
  have hparse := position?_cursor hseq
  cases htext : position.cursor with
  | nil => simp [Position.cursor] at htext
  | cons c rest =>
      rw [htext] at hparse
      simp [startPosition, hparse]

/-! ## What is left -/

section Selected

variable (ledger : List (Row × Text)) (selection : Selection) (count : ℕ) (position : Position)

def Selection.from (item : Row × Text) : Bool :=
  decide (position.seq ≤ item.1.seq) && selection.keeps item.1

/-- The events that a read is to hand out from a position. -/
def selected : List (Row × Text) :=
  ledger.filter (selection.from position)

def selectedBefore : List (Row × Text) :=
  (ledger.take count).filter (selection.from position)

def selectedAfter : List (Row × Text) :=
  (ledger.drop count).filter (selection.from position)

def remaining : Rest (ℤ × Text) CodePoint :=
  restFrom position (selected ledger selection position)

/-- A position that a cursor names: its offset is within an event of the tables. -/
structure At : Prop where
  seq_pos : 1 ≤ position.seq
  reached : position.offset = 0 ∨ ∃ item ∈ ledger.take count,
    item.1.seq = position.seq ∧ position.offset < item.2.length

end Selected

/-- The tables hold the first events of a ledger, and can read each of those that are
selected. -/
structure Shelved (db : Database) (ledger : List (Row × Text)) (selection : Selection)
    (count : ℕ) : Prop where
  events : db.events = (ledger.take count).map Prod.fst
  increasing : ledger.Pairwise fun left right => left.1.seq < right.1.seq
  total : ∀ item ∈ ledger, item.1.totalChars = item.2.length
  short : ∀ item ∈ ledger, item.2.length < 2 ^ 63
  record : ∀ item ∈ ledger.take count, 1 ≤ item.1.seq → selection.keeps item.1 = true →
    ∀ offset limit, db.record item.1 offset limit = some (describe item offset limit)

variable {db : Database} {ledger : List (Row × Text)} {selection : Selection} {count : ℕ}
  {position : Position}

variable {item : Row × Text} {after : Position} {back front : List (Row × Text)}

theorem from_iff :
    selection.from position item = true ↔
      position.seq ≤ item.1.seq ∧ selection.keeps item.1 = true := by
  rw [Selection.from, Bool.and_eq_true, decide_eq_true_eq]

theorem selectedBefore_append :
    selectedBefore ledger selection count position ++ selectedAfter ledger selection count position =
      selected ledger selection position := by
  rw [selectedBefore, selectedAfter, selected, ← filter_append, take_append_drop]

theorem take_lt_drop (hshelved : Shelved db ledger selection count) {earlier later : Row × Text}
    (hearlier : earlier ∈ ledger.take count) (hlater : later ∈ ledger.drop count) :
    earlier.1.seq < later.1.seq := by
  have hincreasing := hshelved.increasing
  rw [← take_append_drop count ledger] at hincreasing
  exact (pairwise_append.mp hincreasing).2.2 earlier hearlier later hlater

theorem eq_of_seq_eq (hshelved : Shelved db ledger selection count) {left right : Row × Text}
    (hleft : left ∈ ledger) (hright : right ∈ ledger) (hseq : left.1.seq = right.1.seq) :
    left = right := by
  have hnodup : (ledger.map fun item => item.1.seq).Nodup :=
    pairwise_map.mpr (hshelved.increasing.imp fun hless => hless.ne)
  exact inj_on_of_nodup_map hnodup hleft hright hseq

theorem Shelved.shelf (hshelved : Shelved db ledger selection count)
    (hat : At ledger count position) :
    Shelf db position (selectedBefore ledger selection count position)
      (selectedAfter ledger selection count position) where
  record item hitem := by
    obtain ⟨hseq, hkeeps⟩ := from_iff.mp (of_mem_filter hitem)
    exact hshelved.record item (mem_of_mem_filter hitem) (hat.seq_pos.trans hseq) hkeeps
  total item hitem := hshelved.total item (mem_of_mem_take (mem_of_mem_filter hitem))
  short item hitem := hshelved.short item (mem_of_mem_take (mem_of_mem_filter hitem))
  increasing := by
    rw [selectedBefore_append]
    exact hshelved.increasing.filter _
  start item hitem := (from_iff.mp (of_mem_filter hitem)).1
  offset item hitem hseq := by
    rcases hat.reached with hzero | ⟨other, hother, hsame, hoffset⟩
    · exact .inl hzero
    · have heq := eq_of_seq_eq hshelved (mem_of_mem_take (mem_of_mem_filter hitem))
        (mem_of_mem_take hother) (hseq.trans hsame.symm)
      rw [heq]
      exact .inr hoffset
  later item hitem hseq := by
    rcases hat.reached with hzero | ⟨other, hother, hsame, -⟩
    · exact hzero
    · have hless := take_lt_drop hshelved hother (mem_of_mem_filter hitem)
      omega

theorem filter_events (hevents : db.events = (ledger.take count).map Prod.fst) :
    (db.events.filter fun row => decide (position.seq ≤ row.seq) && selection.keeps row) =
      (selectedBefore ledger selection count position).map Prod.fst := by
  rw [hevents, filter_map]
  rfl

/-- From a row on, the row and all that follows are selected. -/
theorem selected_of_split (hledger : ledger.Pairwise fun left right => left.1.seq < right.1.seq)
    (hsplit : selected ledger selection position = front ++ item :: back)
    (hseq : item.1.seq = after.seq) : selected ledger selection after = item :: back := by
  have hincreasing : (front ++ item :: back).Pairwise fun left right => left.1.seq < right.1.seq := by
    rw [← hsplit]
    exact hledger.filter _
  obtain ⟨-, hback, hfront⟩ := pairwise_append.mp hincreasing
  have hitem : selection.from position item = true := by
    have hmem : item ∈ selected ledger selection position := by
      rw [hsplit]
      exact mem_append_right _ mem_cons_self
    exact of_mem_filter hmem
  have hstart := (from_iff.mp hitem).1
  calc selected ledger selection after
      = (selected ledger selection position).filter fun other =>
          decide (after.seq ≤ other.1.seq) := by
        rw [selected, selected, filter_filter]
        apply filter_congr
        intro other hother
        by_cases hless : after.seq ≤ other.1.seq
        · have hbefore : position.seq ≤ other.1.seq := by omega
          simp [Selection.from, hless, hbefore]
        · simp [Selection.from, hless]
    _ = item :: back := by
        rw [hsplit, filter_append, filter_eq_nil_iff.mpr, nil_append,
          filter_eq_self]
        · intro other hother
          rcases mem_cons.mp hother with rfl | hmem
          · simp [hseq]
          · have hless := (pairwise_cons.mp hback).1 other hmem
            simpa [hseq] using hless.le
        · intro other hother
          have hless := hfront other hother item mem_cons_self
          simp only [decide_eq_true_eq]
          omega

theorem remaining_of_split (hshelved : Shelved db ledger selection count)
    (hsplit : selected ledger selection position = front ++ item :: back)
    (hseq : item.1.seq = after.seq) :
    remaining ledger selection after = ⟨(item :: back).map keyed, after.offset⟩ := by
  rw [remaining, selected_of_split hshelved.increasing hsplit hseq, restFrom, head?_cons,
    Option.map_some, Option.getD_some, Position.offsetIn, if_pos hseq]

/-- The cursor behind the index: above each row, and no further up than the next one. -/
theorem indexedCursor_spec (hevents : db.events = (ledger.take count).map Prod.fst)
    (hstart : 1 ≤ position.seq) :
    (∀ item ∈ ledger.take count, item.1.seq < (db.indexedCursor position.seq).seq) ∧
    ∀ seq, position.seq ≤ seq → (∀ item ∈ ledger.take count, item.1.seq < seq) →
      (db.indexedCursor position.seq).seq ≤ seq := by
  have hseqs : db.events.map Row.seq = (ledger.take count).map fun item => item.1.seq := by
    rw [hevents, map_map]
    rfl
  simp only [Database.indexedCursor, hseqs]
  cases hmax : ((ledger.take count).map fun item => item.1.seq).max? with
  | none =>
      rw [max?_eq_none_iff, map_eq_nil_iff] at hmax
      rw [hmax, Option.getD_none]
      refine ⟨fun item hitem => absurd hitem not_mem_nil, fun seq hseq _ => ?_⟩
      omega
  | some largest =>
      obtain ⟨hmem, hbound⟩ := max?_eq_some_iff.mp hmax
      rw [Option.getD_some]
      constructor
      · intro item hitem
        have hle := hbound _ (mem_map_of_mem hitem)
        omega
      · intro seq hseq habove
        obtain ⟨item, hitem, rfl⟩ := mem_map.mp hmem
        have hless := habove item hitem
        omega

/-- Behind the index, what is left is what was not indexed yet. -/
theorem remaining_indexedCursor (hshelved : Shelved db ledger selection count)
    (hstart : 1 ≤ position.seq) :
    remaining ledger selection (db.indexedCursor position.seq) =
      ⟨(selectedAfter ledger selection count position).map keyed, 0⟩ := by
  obtain ⟨habove, hbelow⟩ := indexedCursor_spec hshelved.events hstart
  have hfrom : position.seq ≤ (db.indexedCursor position.seq).seq := le_max_left _ _
  have hselected : selected ledger selection (db.indexedCursor position.seq) =
      selectedAfter ledger selection count position := by
    have hsplit : selectedBefore ledger selection count (db.indexedCursor position.seq) ++
        selectedAfter ledger selection count (db.indexedCursor position.seq) =
          selected ledger selection (db.indexedCursor position.seq) := selectedBefore_append
    rw [← hsplit, selectedBefore, filter_eq_nil_iff.mpr, nil_append, selectedAfter,
      selectedAfter]
    · apply filter_congr
      intro item hitem
      by_cases hseq : position.seq ≤ item.1.seq
      · have hnext := hbelow item.1.seq hseq fun other hother =>
          take_lt_drop hshelved hother hitem
        simp [Selection.from, hseq, hnext]
      · have hnext : ¬ (db.indexedCursor position.seq).seq ≤ item.1.seq := by omega
        simp [Selection.from, hseq, hnext]
    · intro item hitem
      have hless := habove item hitem
      simp only [Selection.from, Bool.and_eq_true, decide_eq_true_eq]
      omega
  rw [remaining, hselected]
  exact restFrom_eq fun _ _ _ => rfl

/-! ## One page -/

/-- What a page tells its reader: where it stopped, or that it came to the end of the
tables. -/
structure Turned (db : Database) (ledger : List (Row × Text)) (selection : Selection)
    (limits : Limits) (position : Position) (count : ℕ) (status : Status) (page : HistoryPage) :
    Prop where
  within : Within limits.records limits.chars pageEncodedChars page.records
  reported : page.status = status
  finished : page.nextCursor = none → ¬ status.indexedBytes < status.sourceBytes ∧
    Delivers (remaining ledger selection position) (page.records.map HistoryRecord.piece)
      ⟨(selectedAfter ledger selection count position).map keyed, 0⟩
  continued : ∀ cursor, page.nextCursor = some cursor → ∃ next, cursor = next.cursor ∧
    At ledger count next ∧
    Delivers (remaining ledger selection position) (page.records.map HistoryRecord.piece)
      (remaining ledger selection next) ∧
    ((page.records ≠ [] ∧ ∃ item ∈ ledger, item.1.seq = next.seq) ∨
      (status.indexedBytes < status.sourceBytes ∧ next = db.indexedCursor position.seq))

/-- The next event does not fit on a page of its own. -/
def Stuck (ledger : List (Row × Text)) (selection : Selection) (count : ℕ) (limits : Limits)
    (position : Position) : Prop :=
  ∃ item others, selectedBefore ledger selection count position = item :: others ∧
    fitRecord (describe item (position.offsetIn item.1) limits.chars) pageEncodedChars = none

theorem page_eq (hevents : db.events = (ledger.take count).map Prod.fst)
    (hposition : fitsInteger position.seq = true) (limits : Limits) (status : Status) :
    page selection limits position db status = do
      let (records, next) ← fill db position limits.records
        ((selectedBefore ledger selection count position).map Prod.fst) [] limits.chars
        pageEncodedChars
      let next :=
        if next.isNone && decide (status.indexedBytes < status.sourceBytes) then
          some (db.indexedCursor position.seq)
        else next
      return { records, nextCursor := next.map Position.cursor, status } := by
  have hnone : ([] : List HistoryRecord).length ≤ limits.records := Nat.zero_le _
  have htake : ∀ rows : List Row,
      fill db position limits.records (rows.take (limits.records + 1)) [] limits.chars
          pageEncodedChars =
        fill db position limits.records rows [] limits.chars pageEncodedChars :=
    fun rows => fill_take hnone limits.chars pageEncodedChars
  simp only [page, hposition, Bool.not_true, Bool.false_eq_true, if_false, htake,
    filter_events hevents]

/-- A cursor into a row of the page. -/
theorem at_of_split (hat : At ledger count position)
    (hsplit : selectedBefore ledger selection count position = front ++ item :: back)
    (hseq : item.1.seq = after.seq) (hoffset : after.offset = 0 ∨ after.offset < item.2.length) :
    At ledger count after ∧ item ∈ ledger := by
  have hmem : item ∈ selectedBefore ledger selection count position := by
    rw [hsplit]
    exact mem_append_right _ mem_cons_self
  have hitem := mem_of_mem_filter hmem
  have hstart := (from_iff.mp (of_mem_filter hmem)).1
  have hpos := hat.seq_pos
  exact ⟨⟨by omega, hoffset.imp_right fun hless => ⟨item, hitem, hseq, hless⟩⟩,
    mem_of_mem_take hitem⟩

theorem at_indexedCursor (hat : At ledger count position) :
    At ledger count (db.indexedCursor position.seq) := by
  have hfrom : position.seq ≤ (db.indexedCursor position.seq).seq := le_max_left _ _
  exact ⟨hat.seq_pos.trans hfrom, .inl rfl⟩

theorem page_spec (hshelved : Shelved db ledger selection count) (hat : At ledger count position)
    (hposition : fitsInteger position.seq = true) {limits : Limits} (hvalid : limits.valid = true)
    (status : Status) :
    (∃ result, page selection limits position db status = .ok result ∧
      Turned db ledger selection limits position count status result) ∨
    (page selection limits position db status = .error .metadata ∧
      Stuck ledger selection count limits position) := by
  have hsplit : selectedBefore ledger selection count position ++
      selectedAfter ledger selection count position = selected ledger selection position :=
    selectedBefore_append
  have hpage : page selection limits position db status = _ :=
    page_eq hshelved.events hposition limits status
  have hnone : ([] : List HistoryRecord).length ≤ limits.records := Nat.zero_le _
  simp only [Limits.valid, Bool.and_eq_true, decide_eq_true_eq] at hvalid
  rcases fill_spec (hshelved.shelf hat) hnone limits.chars pageEncodedChars with
    ⟨new, next, hfill, ⟨hwithin, hended, hstopped⟩, hidle⟩ | ⟨hfill, -, hstuck⟩
  · rw [nil_append] at hfill
    rw [hfill] at hpage
    rw [hsplit] at hended hstopped
    cases next with
    | some after =>
        refine .inl ⟨⟨new, some after.cursor, status⟩, hpage, hwithin, rfl, ?_, ?_⟩
        · intro hcursor
          cases hcursor
        · intro cursor hcursor
          cases hcursor
          obtain ⟨front, item, back, hrows, hseq, hoffset, hdelivers⟩ := hstopped after rfl
          obtain ⟨hafter, hitem⟩ := at_of_split hat hrows hseq hoffset
          rw [hrows, append_assoc, cons_append] at hsplit
          refine ⟨after, rfl, hafter, ?_, .inl ⟨?_, item, hitem, hseq⟩⟩
          · rw [remaining_of_split hshelved hsplit.symm hseq]
            exact hdelivers
          · intro hempty
            rcases hidle hempty with hrow | hrecord | hlimit | hchars
            · rw [hrows] at hrow
              exact absurd hrow (by simp)
            · exact absurd rfl hrecord
            · omega
            · omega
    | none =>
        have hdelivers := hended rfl
        by_cases hmore : status.indexedBytes < status.sourceBytes
        · rw [decide_eq_true hmore] at hpage
          refine .inl ⟨⟨new, some (db.indexedCursor position.seq).cursor, status⟩, hpage, hwithin,
            rfl, ?_, ?_⟩
          · intro hcursor
            cases hcursor
          · intro cursor hcursor
            cases hcursor
            refine ⟨_, rfl, at_indexedCursor hat, ?_, .inr ⟨hmore, rfl⟩⟩
            rw [remaining_indexedCursor hshelved hat.seq_pos]
            exact hdelivers
        · rw [decide_eq_false hmore] at hpage
          refine .inl ⟨⟨new, none, status⟩, hpage, hwithin, rfl, fun _ => ⟨hmore, hdelivers⟩, ?_⟩
          intro cursor hcursor
          cases hcursor
  · refine .inr ⟨?_, hstuck⟩
    rw [hpage, hfill]
    rfl

theorem read_eq {sqlite : Sqlite} {source : Source} {batch : ℕ} {cursor : Option Text}
    (hstart : 1 ≤ selection.startSeq) (hparsed : startPosition selection cursor = .ok position)
    {next : Database} {status : Status}
    (hsync : sync sqlite batch source db = some (next, status)) {limits : Limits}
    (hvalid : limits.valid = true) :
    read sqlite batch source selection limits cursor db =
      (next, page selection limits position next status) := by
  simp only [read, hvalid, hparsed, hsync, Bool.not_true, Bool.false_eq_true, if_false]
  exact if_neg hstart.not_gt

def Selection.start (selection : Selection) : Position := ⟨selection.startSeq, 0⟩

end ReuleauxCoder.History
