import ReuleauxCoder.History.Indexed
import ReuleauxCoder.History.Paging
import ReuleauxCoder.Library.JsonRoundTrip

/-!
# A page loses nothing

A page takes up the selected events from its cursor on, each whole or up to a character
where a limit ends the page.  Every limit is kept, and the position that the page ends at
says what is left.
-/

namespace ReuleauxCoder.History

open PyText PyJson Pieces List

/-! ## Encoded sizes -/

theorem length_escape (c : CodePoint) : (escape c).length ≤ 6 := by
  unfold escape
  repeat' split
  all_goals simp [lit]

theorem length_quoted_le (text : Text) : (quoted text).length ≤ 6 * text.length + 2 := by
  have hall : (escapeAll text).length ≤ 6 * text.length := by
    induction text with
    | nil => exact le_rfl
    | cons c rest ih =>
        have hc := length_escape c
        simp only [escapeAll, flatMap_cons, length_append, length_cons] at ih ⊢
        omega
  simp only [quoted, length_cons, length_append, length_nil]
  omega

theorem encodedChars_content (record : HistoryRecord) :
    record.encodedChars + 2 =
      { record with content := [] }.encodedChars + (quoted record.content).length := by
  have hempty : (quoted []).length = 2 := by decide
  simp only [HistoryRecord.encodedChars, HistoryRecord.asDict, dumps, dumpsAt, dumpsFields,
    length_append, length_cons]
  rw [hempty]
  omega

theorem encodedChars_nextOffset (record : HistoryRecord) (next : Option ℕ) :
    { record with nextOffset := next }.encodedChars +
        (dumps spaced (optionalNat record.nextOffset)).length =
      record.encodedChars + (dumps spaced (optionalNat next)).length := by
  have hlevel : ∀ value, dumpsAt spaced (optionalNat value) 1 =
      dumpsAt spaced (optionalNat value) 0 := by
    intro value
    cases value <;> rfl
  simp only [HistoryRecord.encodedChars, HistoryRecord.asDict, dumps, dumpsAt, dumpsFields,
    length_append, length_cons, Nat.zero_add, hlevel]
  omega

theorem length_decimal_le {value : ℕ} (hvalue : value < 10 ^ 19) :
    (decimal value).length ≤ 19 := by
  rw [decimal, length_map]
  exact Nat.toDigits_length 10 value 19 (by decide) hvalue

/-- What a cut record takes up in the page. -/
theorem encodedChars_cut_le (record : HistoryRecord) (count : ℕ)
    (hnext : record.offset + count < 10 ^ 19) :
    { record with
        content := record.content.take count
        nextOffset := some (record.offset + count) }.encodedChars ≤
      { record with content := [] }.encodedChars + 6 * count + 19 := by
  have hcontent := encodedChars_content
    { record with
      content := record.content.take count
      nextOffset := some (record.offset + count) }
  have hoffset := encodedChars_nextOffset { record with content := [] }
    (some (record.offset + count))
  have hquoted := length_quoted_le (record.content.take count)
  have htaken := length_take_le count record.content
  have hdigits : (dumps spaced (optionalNat (some (record.offset + count)))).length ≤ 19 := by
    have htext : dumps spaced (optionalNat (some (record.offset + count))) =
        decimal (record.offset + count) := rfl
    rw [htext]
    exact length_decimal_le hnext
  dsimp only at hcontent hoffset
  omega

/-! ## Cutting records -/

/-- The size of a record without its content. -/
def HistoryRecord.metadataChars (record : HistoryRecord) : ℕ :=
  { record with content := [] }.encodedChars

/-- A record is passed on whole, or cut with something left on both sides. -/
structure Fits (record : HistoryRecord) (budget : ℕ) (result : HistoryRecord) (size : ℕ) :
    Prop where
  encoded : size = result.encodedChars + 2
  bounded : size ≤ budget
  cut : result = record ∨ ∃ count, 0 < count ∧ count < record.content.length ∧
    result =
      { record with
        content := record.content.take count
        nextOffset := some (record.offset + count) }

variable {record : HistoryRecord}

variable {size : ℕ}

theorem fitRecord_eq_some {result : HistoryRecord} {budget : ℕ}
    (hlength : record.offset + record.content.length < 10 ^ 19)
    (hfit : fitRecord record budget = some (result, size)) : Fits record budget result size := by
  simp only [fitRecord] at hfit
  split at hfit
  · rename_i hsize
    cases hfit
    exact ⟨rfl, hsize, .inl rfl⟩
  · rename_i hlarge
    split at hfit
    · cases hfit
    · rename_i hbudget
      split at hfit
      · cases hfit
      · rename_i hcontent
        cases hfit
        generalize hcount :
          (budget - ({ record with content := [] }.encodedChars + 34)) / 6 = count at hcontent ⊢
        have hsixth : 6 * count ≤ budget - ({ record with content := [] }.encodedChars + 34) :=
          hcount ▸ Nat.mul_div_le _ _
        have hwhole := encodedChars_content record
        have hquoted := length_quoted_le record.content
        have hcut : count < record.content.length := by
          by_contra hnone
          omega
        have hpositive : 0 < count := by
          by_contra hzero
          exact hcontent (by rw [Nat.eq_zero_of_not_pos hzero, take_zero])
        have htaken : (record.content.take count).length = count :=
          length_take_of_le hcut.le
        rw [htaken]
        have hbound := encodedChars_cut_le record count (by omega)
        exact ⟨rfl, by omega, .inr ⟨count, hpositive, hcut, rfl⟩⟩

/-- A record that does not fit at all has too little room beside its metadata. -/
theorem fitRecord_eq_none {budget : ℕ} (hfit : fitRecord record budget = none) :
    budget < record.metadataChars + 40 := by
  simp only [fitRecord] at hfit
  unfold HistoryRecord.metadataChars
  split at hfit
  · cases hfit
  · rename_i hlarge
    split at hfit
    · omega
    · split at hfit
      · rename_i hbudget hcontent
        by_contra hroom
        have hcount : 0 < (budget - ({ record with content := [] }.encodedChars + 34)) / 6 := by
          omega
        rw [take_eq_nil_iff] at hcontent
        have hempty : record.content = [] := hcontent.resolve_left hcount.ne'
        have hwhole := encodedChars_content record
        have hquoted : (quoted record.content).length = 2 := by
          rw [hempty]
          decide
        omega
      · cases hfit

/-! ## Reading rows -/

/-- The record that an event makes. -/
def describe (item : Row × Text) (offset limit : ℕ) : HistoryRecord :=
  let content := (item.2.drop offset).take limit
  let next := offset + content.length
  { eventId := item.1.eventId
    seq := item.1.seq
    turnId := item.1.turnId
    kind := item.1.kind
    role := item.1.role
    createdAt := item.1.createdAt
    content
    offset
    totalChars := item.2.length
    nextOffset := if next < item.2.length then some next else none
    artifactRefs := (tuple? item.1.artifactRefs).getD [] }

theorem filter_flatMap_of_mem {items : List (Row × Text)} {item : Row × Text}
    (hdistinct : (items.map fun other => other.1.seq).Nodup)
    (hitem : item ∈ items) (keep : Chunk → Bool) :
    (items.flatMap fun other => chunkRows other.1.seq other.2).filter
        (fun chunk => chunk.seq = item.1.seq && keep chunk) =
      (chunkRows item.1.seq item.2).filter keep := by
  have hself : (chunkRows item.1.seq item.2).filter
      (fun chunk => chunk.seq = item.1.seq && keep chunk) =
        (chunkRows item.1.seq item.2).filter keep := by
    apply filter_congr
    intro chunk hchunk
    obtain ⟨piece, -, rfl⟩ := mem_map.mp hchunk
    simp
  have hother : ∀ others : List (Row × Text), (∀ other ∈ others, other.1.seq ≠ item.1.seq) →
      (others.flatMap fun other => chunkRows other.1.seq other.2).filter
        (fun chunk => chunk.seq = item.1.seq && keep chunk) = [] := by
    intro others hothers
    rw [filter_eq_nil_iff]
    intro chunk hchunk
    obtain ⟨other, hmem, hrow⟩ := mem_flatMap.mp hchunk
    obtain ⟨piece, -, rfl⟩ := mem_map.mp hrow
    simp [hothers other hmem]
  obtain ⟨front, back, rfl⟩ := append_of_mem hitem
  rw [map_append, map_cons, nodup_append, nodup_cons] at hdistinct
  obtain ⟨-, ⟨hback, -⟩, hfront⟩ := hdistinct
  have hbefore := hother front fun other hmem =>
    hfront _ (mem_map_of_mem hmem) _ mem_cons_self
  have hafter := hother back fun other hmem hseq =>
    hback (hseq ▸ mem_map_of_mem hmem)
  rw [flatMap_append, flatMap_cons, filter_append, filter_append, hbefore,
    hafter, hself, nil_append, append_nil]

theorem chunkRows_sorted (seq : ℤ) (content : Text) :
    (chunkRows seq content).Pairwise fun left right => left.offset ≤ right.offset := by
  rw [chunkRows, chunks, map_map, pairwise_map]
  apply pairwise_lt_range.imp
  intro first second hless
  exact Nat.mul_le_mul_right _ hless.le

/-- What `_record` finds is what was put there. -/
theorem record_eq {db : Database} {items : List (Row × Text)}
    (hchunks : db.chunks = items.flatMap fun item => chunkRows item.1.seq item.2)
    (hdistinct : (items.map fun item => item.1.seq).Nodup) {item : Row × Text}
    (hitem : item ∈ items) (htotal : item.1.totalChars = item.2.length) (offset limit : ℕ) :
    db.record item.1 offset limit =
      (tuple? item.1.artifactRefs).map fun _ => describe item offset limit := by
  have hfilter := filter_flatMap_of_mem hdistinct hitem fun chunk =>
    offset / chunkChars * chunkChars ≤ chunk.offset && decide (chunk.offset < offset + limit)
  have hsorted := ((chunkRows_sorted item.1.seq item.2).filter fun chunk =>
    offset / chunkChars * chunkChars ≤ chunk.offset &&
      decide (chunk.offset < offset + limit)).insertionSort_eq
  have hwindow : ((((chunkRows item.1.seq item.2).filter fun chunk =>
      offset / chunkChars * chunkChars ≤ chunk.offset &&
        decide (chunk.offset < offset + limit)).flatMap Chunk.content).drop
          (offset - offset / chunkChars * chunkChars)).take limit =
        (item.2.drop offset).take limit := by
    rw [chunkRows, filter_map, flatMap_map]
    exact window_chunks (by decide : 0 < chunkChars) item.2 offset limit
  simp only [Database.record, hchunks, hfilter, hsorted, hwindow, htotal]
  cases hreferences : tuple? item.1.artifactRefs with
  | none => rfl
  | some references =>
      rw [describe, hreferences, Option.getD_some]
      rfl

/-! ## Filling a page -/

def HistoryRecord.piece (record : HistoryRecord) : Piece (ℤ × Text) CodePoint :=
  ⟨(record.seq, record.eventId), record.offset, record.content⟩

def keyed (item : Row × Text) : (ℤ × Text) × Text :=
  ((item.1.seq, item.1.eventId), item.2)

/-- Where in a row a position stands. -/
def Position.offsetIn (position : Position) (row : Row) : ℕ :=
  if row.seq = position.seq then position.offset else 0

/-- What rows have to offer from a position. -/
def restFrom (position : Position) (rows : List (Row × Text)) : Rest (ℤ × Text) CodePoint :=
  ⟨rows.map keyed, (rows.head?.map fun item => position.offsetIn item.1).getD 0⟩

theorem restFrom_eq {position : Position} {rows : List (Row × Text)}
    (hoffset : ∀ item ∈ rows, item.1.seq = position.seq → position.offset = 0) :
    restFrom position rows = ⟨rows.map keyed, 0⟩ := by
  cases rows with
  | nil => rfl
  | cons item others =>
      have hitem := hoffset item mem_cons_self
      by_cases hseq : item.1.seq = position.seq
      · simp [restFrom, Position.offsetIn, hitem hseq]
      · simp [restFrom, Position.offsetIn, hseq]

/-- The records of one page keep its limits. -/
structure Within (limit chars encoded : ℕ) (records : List HistoryRecord) : Prop where
  count : records.length ≤ limit
  chars : (records.map fun record => record.content.length).sum ≤ chars
  encoded : (records.map fun record => record.encodedChars + 2).sum ≤ encoded

theorem Within.nil (limit chars encoded : ℕ) : Within limit chars encoded [] :=
  ⟨Nat.zero_le _, Nat.zero_le _, Nat.zero_le _⟩

variable {records : List HistoryRecord}

theorem Within.cons {limit chars encoded : ℕ} (hlimit : 0 < limit)
    (hchars : record.content.length ≤ chars) (hencoded : record.encodedChars + 2 ≤ encoded)
    (hrest : Within (limit - 1) (chars - record.content.length)
      (encoded - (record.encodedChars + 2)) records) :
    Within limit chars encoded (record :: records) := by
  obtain ⟨hcount, hcontent, hsize⟩ := hrest
  refine ⟨?_, ?_, ?_⟩
  · rw [length_cons]
    omega
  · rw [map_cons, sum_cons]
    omega
  · rw [map_cons, sum_cons]
    omega

/-- A record of one event, as it stands on the page. -/
structure Hands (item : Row × Text) (offset chars encoded : ℕ) (record : HistoryRecord)
    (size : ℕ) : Prop where
  seq : record.seq = item.1.seq
  chars : record.content.length ≤ chars
  size : size = record.encodedChars + 2
  encoded : record.encodedChars + 2 ≤ encoded
  whole : record.nextOffset = none →
    record.piece = ⟨(item.1.seq, item.1.eventId), offset, item.2.drop offset⟩
  part : ∀ next, record.nextOffset = some next → ∃ count, 0 < count ∧
    offset + count < item.2.length ∧ next = offset + count ∧
    record.piece = ⟨(item.1.seq, item.1.eventId), offset, (item.2.drop offset).take count⟩

theorem hands_of_fitRecord {item : Row × Text} {offset chars encoded : ℕ} (hchars : 0 < chars)
    (hoffset : offset ≤ item.2.length) (hlength : item.2.length < 2 ^ 63)
    (hfit : fitRecord (describe item offset chars) encoded = some (record, size)) :
    Hands item offset chars encoded record size := by
  have hcontent : (describe item offset chars).content.length =
      min chars (item.2.length - offset) := by
    simp [describe]
  obtain ⟨hsize, hbounded, hcut⟩ := fitRecord_eq_some
    (by
      show offset + (describe item offset chars).content.length < 10 ^ 19
      omega) hfit
  rcases hcut with rfl | ⟨count, hcount, hless, rfl⟩
  · refine ⟨rfl, by omega, hsize, by omega, ?_, ?_⟩
    · intro hnone
      have hend : item.2.length ≤ offset + (describe item offset chars).content.length := by
        by_contra hmore
        rw [describe, if_pos (by simpa [describe] using hmore)] at hnone
        cases hnone
      have htake : (item.2.drop offset).take chars = item.2.drop offset := by
        apply take_of_length_le
        rw [length_drop]
        omega
      show (⟨_, offset, (item.2.drop offset).take chars⟩ : Piece _ _) = _
      rw [htake]
      rfl
    · intro next hnext
      have hmore : offset + (describe item offset chars).content.length < item.2.length := by
        by_contra hend
        rw [describe, if_neg (by simpa [describe] using hend)] at hnext
        cases hnext
      have hvalue : next = offset + (describe item offset chars).content.length := by
        rw [describe, if_pos (by simpa [describe] using hmore)] at hnext
        cases hnext
        rfl
      exact ⟨chars, hchars, by omega, by omega, rfl⟩
  · have htaken : ((describe item offset chars).content.take count).length = count :=
      length_take_of_le hless.le
    refine ⟨rfl, ?_, hsize, by omega, ?_, ?_⟩
    · show ((describe item offset chars).content.take count).length ≤ chars
      omega
    · intro hnone
      cases hnone
    · intro next hnext
      cases hnext
      refine ⟨count, hcount, by omega, rfl, ?_⟩
      show (⟨_, offset, ((item.2.drop offset).take chars).take count⟩ : Piece _ _) = _
      rw [take_take, Nat.min_eq_left (by omega)]
      rfl

/-- Rows that the tables hold, in order, and what the ledger has after them. -/
structure Shelf (db : Database) (position : Position) (rows later : List (Row × Text)) : Prop where
  record : ∀ item ∈ rows, ∀ offset limit,
    db.record item.1 offset limit = some (describe item offset limit)
  total : ∀ item ∈ rows, item.1.totalChars = item.2.length
  short : ∀ item ∈ rows, item.2.length < 2 ^ 63
  increasing : (rows ++ later).Pairwise fun left right => left.1.seq < right.1.seq
  start : ∀ item ∈ rows, position.seq ≤ item.1.seq
  offset : ∀ item ∈ rows, item.1.seq = position.seq →
    position.offset = 0 ∨ position.offset < item.2.length
  later : ∀ item ∈ later, item.1.seq = position.seq → position.offset = 0

theorem Shelf.tail {db : Database} {position : Position} {item : Row × Text}
    {rows later : List (Row × Text)} (hshelf : Shelf db position (item :: rows) later) :
    Shelf db position rows later where
  record other hother := hshelf.record other (mem_cons_of_mem _ hother)
  total other hother := hshelf.total other (mem_cons_of_mem _ hother)
  short other hother := hshelf.short other (mem_cons_of_mem _ hother)
  increasing := (pairwise_cons.mp hshelf.increasing).2
  start other hother := hshelf.start other (mem_cons_of_mem _ hother)
  offset other hother := hshelf.offset other (mem_cons_of_mem _ hother)
  later := hshelf.later

/-- The rows after the first are read from their beginning. -/
theorem Shelf.restFrom_tail {db : Database} {position : Position} {item : Row × Text}
    {rows later : List (Row × Text)} (hshelf : Shelf db position (item :: rows) later) :
    restFrom position (rows ++ later) = ⟨(rows ++ later).map keyed, 0⟩ := by
  apply restFrom_eq
  intro other hother hseq
  have hless := (pairwise_cons.mp hshelf.increasing).1 other hother
  have hstart := hshelf.start item mem_cons_self
  omega

/-- What a page gained over the records it had. -/
structure Filled (position : Position) (rows later : List (Row × Text)) (limit chars encoded : ℕ)
    (new : List HistoryRecord) (next : Option Position) : Prop where
  within : Within limit chars encoded new
  ended : next = none →
    Delivers (restFrom position (rows ++ later)) (new.map HistoryRecord.piece)
      ⟨later.map keyed, 0⟩
  stopped : ∀ after, next = some after → ∃ front item back,
    rows = front ++ item :: back ∧ item.1.seq = after.seq ∧
    (after.offset = 0 ∨ after.offset < item.2.length) ∧
    Delivers (restFrom position (rows ++ later)) (new.map HistoryRecord.piece)
      ⟨((item :: back) ++ later).map keyed, after.offset⟩

section Filling

variable {db : Database} {position : Position} {item : Row × Text} {rows later : List (Row × Text)}
  {limit chars encoded : ℕ}

theorem Shelf.offsetIn_lt (hshelf : Shelf db position (item :: rows) later) :
    position.offsetIn item.1 = 0 ∨ position.offsetIn item.1 < item.2.length := by
  have hgiven := hshelf.offset item mem_cons_self
  unfold Position.offsetIn
  split
  · rename_i hseq
    exact hgiven hseq
  · exact .inl rfl

theorem Shelf.offsetIn_le (hshelf : Shelf db position (item :: rows) later) :
    position.offsetIn item.1 ≤ item.2.length := by
  rcases hshelf.offsetIn_lt with hzero | hless
  · rw [hzero]
    exact Nat.zero_le _
  · exact hless.le

theorem filled_nil (hshelf : Shelf db position [] later) :
    Filled position [] later limit chars encoded [] none where
  within := .nil _ _ _
  ended _ := by
    rw [nil_append, restFrom_eq hshelf.later]
    exact .done _
  stopped _ hafter := by cases hafter

/-- The page is full before a row. -/
theorem filled_full (hshelf : Shelf db position (item :: rows) later) :
    Filled position (item :: rows) later limit chars encoded []
      (some ⟨item.1.seq, position.offsetIn item.1⟩) where
  within := .nil _ _ _
  ended hnext := by cases hnext
  stopped after hafter := by
    cases hafter
    exact ⟨[], item, rows, rfl, rfl, hshelf.offsetIn_lt, .done _⟩

/-- The page ends within a row. -/
theorem filled_cut {next : ℕ} (hlimit : 0 < limit)
    (hhands : Hands item (position.offsetIn item.1) chars encoded record size)
    (hnext : record.nextOffset = some next) :
    Filled position (item :: rows) later limit chars encoded [record]
      (some ⟨record.seq, next⟩) where
  within := .cons hlimit hhands.chars hhands.encoded (.nil _ _ _)
  ended hnone := by cases hnone
  stopped after hafter := by
    cases hafter
    obtain ⟨count, hcount, hlength, rfl, hpiece⟩ := hhands.part next hnext
    refine ⟨[], item, rows, rfl, hhands.seq.symm, .inr hlength, ?_⟩
    rw [map_singleton, hpiece]
    exact .part hcount hlength.le (.done _)

/-- A row is passed on whole, and the page goes on. -/
theorem filled_cons (hshelf : Shelf db position (item :: rows) later) (hlimit : 0 < limit)
    (hhands : Hands item (position.offsetIn item.1) chars encoded record size)
    (hnext : record.nextOffset = none) {new : List HistoryRecord} {next : Option Position}
    (hfilled : Filled position rows later (limit - 1) (chars - record.content.length)
      (encoded - size) new next) :
    Filled position (item :: rows) later limit chars encoded (record :: new) next := by
  obtain ⟨hwithin, hended, hstopped⟩ := hfilled
  rw [hhands.size] at hwithin
  rw [hshelf.restFrom_tail] at hended hstopped
  refine ⟨.cons hlimit hhands.chars hhands.encoded hwithin, ?_, ?_⟩
  · intro hnone
    rw [map_cons, hhands.whole hnext]
    exact .whole hshelf.offsetIn_le (hended hnone)
  · intro after hafter
    obtain ⟨front, middle, back, hrows, hseq, hoffset, hdelivers⟩ := hstopped after hafter
    refine ⟨item :: front, middle, back, by rw [hrows, cons_append], hseq, hoffset, ?_⟩
    rw [map_cons, hhands.whole hnext]
    exact .whole hshelf.offsetIn_le hdelivers

theorem fill_spec (hshelf : Shelf db position rows later) (hcount : records.length ≤ limit)
    (chars encoded : ℕ) :
    (∃ new next,
      fill db position limit (rows.map Prod.fst) records chars encoded =
        .ok (records ++ new, next) ∧
      Filled position rows later (limit - records.length) chars encoded new next ∧
      (new = [] → rows = [] ∨ records ≠ [] ∨ limit = 0 ∨ chars = 0)) ∨
    (fill db position limit (rows.map Prod.fst) records chars encoded = .error .metadata ∧
      records = [] ∧ ∃ item others, rows = item :: others ∧
        fitRecord (describe item (position.offsetIn item.1) chars) encoded = none) := by
  induction rows generalizing records chars encoded with
  | nil =>
      refine .inl ⟨[], none, ?_, filled_nil hshelf, fun _ => .inl rfl⟩
      rw [append_nil]
      rfl
  | cons item rows ih =>
      have hbegin := hshelf.offsetIn_le
      have htotal := hshelf.total item mem_cons_self
      have hshort := hshelf.short item mem_cons_self
      rw [map_cons, fill, ← Position.offsetIn, htotal, if_neg (Nat.not_lt.mpr hbegin),
        hshelf.record item mem_cons_self (position.offsetIn item.1) chars]
      dsimp only
      by_cases hfull : records.length = limit ∨ chars = 0
      · rw [if_pos hfull]
        refine .inl ⟨[], _, by rw [append_nil], filled_full hshelf, fun _ => ?_⟩
        grind
      · rw [if_neg hfull]
        obtain ⟨hroom, hchars⟩ := not_or.mp hfull
        have hlimit : 0 < limit - records.length := by omega
        cases hfit : fitRecord (describe item (position.offsetIn item.1) chars) encoded with
        | none =>
            by_cases hrecords : records = []
            · exact .inr ⟨if_pos hrecords, hrecords, item, rows, rfl, hfit⟩
            · refine .inl ⟨[], _, ?_, filled_full hshelf, fun _ => .inr (.inl hrecords)⟩
              rw [append_nil]
              exact if_neg hrecords
        | some fitted =>
            obtain ⟨record, size⟩ := fitted
            have hhands := hands_of_fitRecord (Nat.pos_of_ne_zero hchars) hbegin hshort hfit
            cases hnext : record.nextOffset with
            | some next =>
                refine .inl ⟨[record], _, ?_, filled_cut hlimit hhands hnext, fun hnone => ?_⟩
                · simp only [hnext]
                · cases hnone
            | none =>
                have hlength : (records ++ [record]).length ≤ limit := by
                  rw [length_append, length_singleton]
                  omega
                rcases ih hshelf.tail hlength (chars - record.content.length) (encoded - size) with
                  ⟨new, next, hrest, hfilled, -⟩ | ⟨-, hnone, -⟩
                · refine .inl ⟨record :: new, next, ?_, ?_, fun hnone => ?_⟩
                  · simp only [hnext]
                    rw [hrest, append_assoc, singleton_append]
                  · rw [length_append, length_singleton, ← Nat.sub_sub] at hfilled
                    exact filled_cons hshelf hlimit hhands hnext hfilled
                  · cases hnone
                · exact absurd hnone (by simp)

/-- One row more than the page has room for is enough. -/
theorem fill_take {rows : List Row} (hcount : records.length ≤ limit) (chars encoded : ℕ) :
    fill db position limit (rows.take (limit + 1 - records.length)) records chars encoded =
      fill db position limit rows records chars encoded := by
  induction rows generalizing records chars encoded with
  | nil => rw [take_nil]
  | cons row rest ih =>
      have htake : (row :: rest).take (limit + 1 - records.length) =
          row :: rest.take (limit - records.length) := by
        rw [Nat.sub_add_comm hcount, take_succ_cons]
      rw [htake, fill, fill]
      by_cases hfull : records.length = limit ∨ chars = 0
      · simp only [if_pos hfull]
      · have hrest : ∀ (record : HistoryRecord) (chars encoded : ℕ),
            fill db position limit (rest.take (limit - records.length)) (records ++ [record]) chars
                encoded =
              fill db position limit rest (records ++ [record]) chars encoded := by
          intro record chars encoded
          have hlength : (records ++ [record]).length ≤ limit := by
            rw [length_append, length_singleton]
            omega
          have hnext := ih hlength chars encoded
          rwa [length_append, length_singleton, Nat.add_sub_add_right] at hnext
        simp only [hrest]

end Filling

end ReuleauxCoder.History
