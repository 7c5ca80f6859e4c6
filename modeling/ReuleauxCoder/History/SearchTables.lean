import ReuleauxCoder.History.Lossless
import ReuleauxCoder.History.Search
import ReuleauxCoder.Library.Listing

/-!
# What a search finds in the tables

Whatever ledger the tables were filled from, they hold each of their events with all its
chunks.  So the chunks come in one order, a chunk with its lead is a window of the
content, and an event matches exactly when one of its chunks does.
-/

namespace ReuleauxCoder.History

open PyText PyJson Pieces Occurrences List

/-- The primary keys of SQLite are 64-bit integers. -/
structure Sqlite.Keyed (sqlite : Sqlite) : Prop where
  key : ∀ value seq, sqlite.key value = some (some seq) → fitsInteger seq = true
  nextKey : ∀ keys, fitsInteger (sqlite.nextKey keys) = true

/-- The tables hold these events, each in one row and in chunks. -/
structure Stocked (db : Database) (items : List (Row × Text)) : Prop where
  events : db.events.Perm (items.map Prod.fst)
  chunks : db.chunks.Perm (items.flatMap fun item => chunkRows item.1.seq item.2)
  distinct : (items.map fun item => item.1.seq).Nodup
  total : ∀ item ∈ items, item.1.totalChars = item.2.length
  short : ∀ item ∈ items, fitsInteger item.2.length = true
  keys : ∀ item ∈ items, fitsInteger item.1.seq = true

/-- Tables that any number of `_sync`s filled, from whatever files. -/
inductive Built (sqlite : Sqlite) : Database → Prop where
  | empty : Built sqlite {}
  | sync {batch : ℕ} {source : Source} {db next : Database} {status : Status} :
      Built sqlite db → sync sqlite batch source db = some (next, status) → Built sqlite next

variable {sqlite : Sqlite} {db next : Database} {items : List (Row × Text)}

/-! ## Filling the tables -/

theorem stocked_empty : Stocked {} [] where
  events := List.Perm.refl _
  chunks := List.Perm.refl _
  distinct := nodup_nil
  total _ hitem := by cases hitem
  short _ hitem := by cases hitem
  keys _ hitem := by cases hitem

theorem Stocked.withProgress (hstocked : Stocked db items) (progress : Option Progress) :
    Stocked { db with progress := progress } items :=
  { hstocked with }

theorem Stocked.insert (hkeyed : sqlite.Keyed) {event : Json} {entry : Entry}
    (hentry : entryOf? sqlite event = some entry) (hstocked : Stocked db items)
    (hinsert : db.insert sqlite entry = some next) : ∃ more, Stocked next more := by
  obtain ⟨fields, -, hentered⟩ := entered_of_entryOf? hentry
  let seq := entry.key.getD (sqlite.nextKey (db.events.map Row.seq))
  have hseq : (entry.row seq).seq = seq := (hentered.row seq).1
  have hkey : fitsInteger seq = true := by
    obtain ⟨value, -, hvalue⟩ := hentered.key
    cases hfound : entry.key with
    | none =>
        show fitsInteger (entry.key.getD _) = true
        rw [hfound]
        exact hkeyed.nextKey _
    | some key =>
        show fitsInteger (entry.key.getD _) = true
        rw [hfound] at hvalue ⊢
        exact hkeyed.key value key hvalue
  simp only [Database.insert] at hinsert
  split at hinsert
  · rename_i hnew
    cases hinsert
    have hfresh : (entry.row seq).seq ∉ items.map fun item => item.1.seq := by
      intro hknown
      apply hnew.1
      apply (hstocked.events.map Row.seq).mem_iff.mpr
      rwa [map_map]
    refine ⟨items ++ [(entry.row seq, entry.content)], ?_⟩
    constructor
    · rw [map_append]
      calc
        List.Perm (insertRow (entry.row seq) db.events) (entry.row seq :: db.events) :=
          perm_orderedInsert _ _ _
        List.Perm _ (entry.row seq :: items.map Prod.fst) := hstocked.events.cons _
        List.Perm _ (items.map Prod.fst ++ [entry.row seq]) :=
          (perm_append_singleton _ _).symm
    · rw [flatMap_append, flatMap_singleton]
      exact hstocked.chunks.append_right _
    · rw [map_append, map_singleton]
      exact nodup_append_comm.mp (nodup_cons.mpr ⟨hfresh, hstocked.distinct⟩)
    · intro item hitem
      cases mem_append.mp hitem with
      | inl hold => exact hstocked.total item hold
      | inr hadded =>
          rw [mem_singleton.mp hadded]
          exact (hentered.row seq).2
    · intro item hitem
      cases mem_append.mp hitem with
      | inl hold => exact hstocked.short item hold
      | inr hadded =>
          rw [mem_singleton.mp hadded]
          exact hentered.fits
    · intro item hitem
      cases mem_append.mp hitem with
      | inl hold => exact hstocked.keys item hold
      | inr hadded =>
          rw [mem_singleton.mp hadded, hseq]
          exact hkey
  · cases hinsert

theorem Stocked.indexLines (hkeyed : sqlite.Keyed) {last : ℕ} {lines : List Line}
    {position skipped : ℕ} {after skips : ℕ} {awaiting : Bool} (hstocked : Stocked db items)
    (hloop : indexLines sqlite last lines position skipped db = some (after, skips, next, awaiting)) :
    ∃ more, Stocked next more := by
  induction lines generalizing db items position skipped with
  | nil =>
      cases hloop
      exact ⟨items, hstocked⟩
  | cons line rest ih =>
      rw [History.indexLines] at hloop
      split at hloop
      · split at hloop
        · cases hloop
        · exact ih hstocked hloop
        · simp only [Option.bind_eq_bind, Option.bind_eq_some_iff] at hloop
          obtain ⟨entry, hentry, middle, hinsert, hrest⟩ := hloop
          obtain ⟨more, hmore⟩ := hstocked.insert hkeyed hentry hinsert
          exact ih hmore hrest
      · cases hloop
        exact ⟨items, hstocked⟩

theorem Stocked.syncFrom (hkeyed : sqlite.Keyed) {batch : ℕ} {source : Source}
    {position skipped : ℕ} {status : Status} (hstocked : Stocked db items)
    (hsync : syncFrom sqlite batch source position skipped db = some (next, status)) :
    ∃ more, Stocked next more := by
  simp only [History.syncFrom, Option.bind_eq_bind, Option.bind_eq_some_iff] at hsync
  obtain ⟨⟨after, skips, middle, awaiting⟩, hloop, hnext⟩ := hsync
  cases hnext
  obtain ⟨more, hmore⟩ := hstocked.indexLines hkeyed hloop
  exact ⟨more, hmore.withProgress _⟩

theorem Built.stocked (hkeyed : sqlite.Keyed) (hbuilt : Built sqlite db) :
    ∃ items, Stocked db items := by
  induction hbuilt with
  | empty => exact ⟨[], stocked_empty⟩
  | sync hbuilt hsync ih =>
      obtain ⟨items, hstocked⟩ := ih
      rw [History.sync] at hsync
      split at hsync
      · exact hstocked.syncFrom hkeyed hsync
      · split at hsync
        · exact stocked_empty.syncFrom hkeyed hsync
        · split at hsync
          · cases hsync
            exact ⟨items, hstocked⟩
          · exact hstocked.syncFrom hkeyed hsync

section Item

variable {item : Row × Text}

/-- The chunk of a content with this index. -/
def chunkAt (item : Row × Text) (index : ℕ) : Chunk :=
  ⟨item.1.seq, index * chunkChars, (item.2.drop (index * chunkChars)).take chunkChars⟩

theorem mem_chunkRows {chunk : Chunk} :
    chunk ∈ chunkRows item.1.seq item.2 ↔
      ∃ index, index * chunkChars < item.2.length ∧ chunk = chunkAt item index := by
  have hcount : ∀ index, index < (item.2.length + chunkChars - 1) / chunkChars ↔
      index * chunkChars < item.2.length := by
    intro index
    unfold chunkChars
    omega
  rw [chunkRows, chunks, map_map, mem_map]
  constructor
  · rintro ⟨index, hindex, rfl⟩
    exact ⟨index, (hcount index).mp (mem_range.mp hindex), rfl⟩
  · rintro ⟨index, hindex, rfl⟩
    exact ⟨index, mem_range.mpr ((hcount index).mpr hindex), rfl⟩

theorem chunkAt_inj {left right : ℕ} (hoffset : (chunkAt item left).offset =
    (chunkAt item right).offset) : left = right :=
  Nat.eq_of_mul_eq_mul_right (by decide) hoffset

theorem chunkRows_increasing (seq : ℤ) (content : Text) :
    (chunkRows seq content).Pairwise fun left right => left.offset < right.offset := by
  rw [chunkRows, chunks, map_map, pairwise_map]
  apply pairwise_lt_range.imp
  intro first second hless
  exact Nat.mul_lt_mul_of_pos_right hless (by decide)

theorem flatMap_chunkRows (seq : ℤ) (content : Text) :
    (chunkRows seq content).flatMap Chunk.content = content := by
  have hall := flatMap_range' chunkChars content 0
    ((content.length + chunkChars - 1) / chunkChars)
  rw [chunkRows, chunks, map_map, flatMap_map, range_eq_range']
  calc _ = (content.drop (0 * chunkChars)).take
        ((content.length + chunkChars - 1) / chunkChars * chunkChars) := hall
    _ = content := by
        rw [Nat.zero_mul, drop_zero]
        exact take_of_length_le (le_ceil_mul (by decide) _)

section

variable (hstocked : Stocked db items)
include hstocked

theorem Stocked.eq_of_seq {left right : Row × Text}
    (hleft : left ∈ items) (hright : right ∈ items) (hseq : left.1.seq = right.1.seq) :
    left = right :=
  inj_on_of_nodup_map hstocked.distinct hleft hright hseq

theorem Stocked.mem_chunks {chunk : Chunk} :
    chunk ∈ db.chunks ↔ ∃ item ∈ items, ∃ index, index * chunkChars < item.2.length ∧
      chunk = chunkAt item index := by
  rw [hstocked.chunks.mem_iff, mem_flatMap]
  simp only [mem_chunkRows]

/-- The chunks of an event come in one order. -/
theorem Stocked.sorted_chunks (hitem : item ∈ items)
    (keep : Chunk → Bool) :
    (db.chunks.filter fun chunk => chunk.seq = item.1.seq && keep chunk).insertionSort
        (fun left right => left.offset ≤ right.offset) =
      (chunkRows item.1.seq item.2).filter keep := by
  have : Std.Total fun left right : Chunk => left.offset ≤ right.offset :=
    ⟨fun left right => le_total left.offset right.offset⟩
  have : IsTrans Chunk fun left right => left.offset ≤ right.offset :=
    ⟨fun _ _ _ hleft hright => hleft.trans hright⟩
  apply Listing.insertionSort_eq_of_perm
  · intro left right hleft hright hle hge
    obtain ⟨first, -, rfl⟩ := mem_chunkRows.mp (mem_of_mem_filter hleft)
    obtain ⟨second, -, rfl⟩ := mem_chunkRows.mp (mem_of_mem_filter hright)
    rw [chunkAt_inj (le_antisymm hle hge)]
  · exact (chunkRows_sorted _ _).filter _
  · rw [← filter_flatMap_of_mem hstocked.distinct hitem keep]
    exact hstocked.chunks.filter _

theorem Stocked.contentOf (hitem : item ∈ items) :
    db.contentOf item.1 = item.2 := by
  have hsorted := hstocked.sorted_chunks hitem fun _ => true
  simp only [Bool.and_true, filter_true] at hsorted
  rw [Database.contentOf, hsorted, flatMap_chunkRows]

theorem Stocked.record (hitem : item ∈ items) (offset limit : ℕ) :
    db.record item.1 offset limit =
      (tuple? item.1.artifactRefs).map fun _ => describe item offset limit := by
  let plain : Database :=
    { db with chunks := items.flatMap fun item => chunkRows item.1.seq item.2 }
  have hplain : Stocked plain items := { hstocked with chunks := List.Perm.refl _ }
  have hsame : db.record item.1 offset limit = plain.record item.1 offset limit := by
    simp only [Database.record, hstocked.sorted_chunks hitem, hplain.sorted_chunks hitem]
  rw [hsame]
  exact record_eq rfl hstocked.distinct hitem (hstocked.total item hitem) offset limit

end

end Item

theorem Stocked.find_row (hstocked : Stocked db items) {item : Row × Text} (hitem : item ∈ items) :
    (db.events.find? fun row => row.seq = item.1.seq) = some item.1 := by
  apply Listing.find?_eq_of_unique
  · exact hstocked.events.mem_iff.mpr (mem_map_of_mem hitem)
  · exact decide_eq_true rfl
  · intro row hrow hseq
    obtain ⟨other, hother, rfl⟩ := mem_map.mp (hstocked.events.mem_iff.mp hrow)
    rw [hstocked.eq_of_seq hother hitem (of_decide_eq_true hseq)]

/-! ## A chunk with its lead -/

/-- The patterns that `search` takes. -/
structure Query.Valid (query : Query) : Prop where
  nonempty : query.pattern ≠ []
  short : query.pattern.length ≤ 256

/-- Where the window of a chunk begins. -/
def windowStart (query : Query) (index : ℕ) : ℕ :=
  index * chunkChars - (query.pattern.length - 1)

section Window

variable {query : Query} {item : Row × Text} {index : ℕ}

theorem leadOf_first (db : Database) (query : Query) (item : Row × Text) :
    db.leadOf query (chunkAt item 0) = [] := by
  have hnone : (db.chunks.find? fun other => other.seq = (chunkAt item 0).seq &&
      decide (other.offset + chunkChars = (chunkAt item 0).offset)) = none := by
    rw [find?_eq_none]
    intro other _ hfound
    rw [Bool.and_eq_true, decide_eq_true_eq, decide_eq_true_eq, chunkAt, Nat.zero_mul] at hfound
    exact absurd hfound.2 (by simp [chunkChars])
  rw [Database.leadOf, hnone]

theorem Stocked.leadOf_next (hstocked : Stocked db items) (hitem : item ∈ items)
    (hindex : (index + 1) * chunkChars < item.2.length) :
    db.leadOf query (chunkAt item (index + 1)) =
      lead query.pattern (chunkAt item index).content := by
  have hbefore : index * chunkChars < item.2.length :=
    (Nat.mul_le_mul_right chunkChars (Nat.le_succ index)).trans_lt hindex
  have hstored : chunkAt item index ∈ db.chunks :=
    hstocked.mem_chunks.mpr ⟨item, hitem, index, hbefore, rfl⟩
  have hfind : (db.chunks.find? fun other => other.seq = (chunkAt item (index + 1)).seq &&
      decide (other.offset + chunkChars = (chunkAt item (index + 1)).offset)) =
        some (chunkAt item index) := by
    apply Listing.find?_eq_of_unique hstored
    · simp [chunkAt, Nat.succ_mul]
    · intro other hother hfound
      rw [Bool.and_eq_true, decide_eq_true_eq, decide_eq_true_eq] at hfound
      obtain ⟨holder, hholder, place, -, rfl⟩ := hstocked.mem_chunks.mp hother
      obtain rfl := hstocked.eq_of_seq hholder hitem hfound.1
      have hplace : place = index := by
        have hoffset : place * chunkChars + chunkChars = (index + 1) * chunkChars := hfound.2
        rw [← Nat.succ_mul] at hoffset
        exact Nat.succ.inj (Nat.eq_of_mul_eq_mul_right (by decide) hoffset)
      rw [hplace]
  rw [Database.leadOf, hfind]
  show (if 1 < query.pattern.length then lead query.pattern (chunkAt item index).content else []) = _
  split
  · rfl
  · rename_i hshort
    rw [lead, Nat.sub_eq_zero_of_le (Nat.le_of_not_lt hshort), Nat.sub_zero, drop_length]

/-- A chunk with its lead is a window of the content. -/
theorem Stocked.window (hstocked : Stocked db items) (hvalid : query.Valid)
    (hitem : item ∈ items) (hindex : index * chunkChars < item.2.length) :
    db.leadOf query (chunkAt item index) ++ (chunkAt item index).content =
        (item.2.drop (windowStart query index)).take
          (index * chunkChars + chunkChars - windowStart query index) ∧
      (chunkAt item index).offset - (db.leadOf query (chunkAt item index)).length =
        windowStart query index := by
  have hsize : query.pattern.length ≤ chunkChars := hvalid.short.trans (by decide)
  cases index with
  | zero =>
      rw [leadOf_first db query item, windowStart, Nat.zero_mul, Nat.zero_sub, Nat.zero_add,
        Nat.sub_zero, nil_append]
      constructor
      · rw [chunkAt, Nat.zero_mul]
      · rw [chunkAt, Nat.zero_mul, Nat.zero_sub]
  | succ index =>
      obtain ⟨htext, hlength⟩ := lead_append hsize hindex (Nat.succ_pos index)
      rw [Nat.succ_sub_one] at htext hlength
      rw [hstocked.leadOf_next hitem hindex]
      constructor
      · calc _ = _ := htext
          _ = _ := by
            rw [windowStart]
            congr 1
            unfold chunkChars at hsize ⊢
            omega
      · show (index + 1) * chunkChars - (lead query.pattern _).length = _
        rw [windowStart]
        exact congrArg _ hlength

/-- What is found stands in the content. -/
theorem Stocked.foundIn_eq_some (hstocked : Stocked db items) (hvalid : query.Valid)
    (hitem : item ∈ items) (hindex : index * chunkChars < item.2.length) {found : ℕ}
    (hfound : db.foundIn query (chunkAt item index) = some found) :
    Occurs query.same query.pattern item.2 (windowStart query index + found) ∧
      db.excerptStart query (chunkAt item index) found =
        windowStart query index + found - 120 := by
  obtain ⟨htext, hstart⟩ := hstocked.window hvalid hitem hindex
  rw [Database.foundIn, htext] at hfound
  constructor
  · exact ((occurs_window_iff hvalid.nonempty _ _ _).mp (find?_eq_some hfound)).1
  · rw [Database.excerptStart, hstart]

/-- An event contains the pattern where one of its chunks does. -/
theorem Stocked.contains_iff (hstocked : Stocked db items) (hvalid : query.Valid)
    (hitem : item ∈ items) :
    Contains query.same query.pattern item.2 ↔ ∃ index, index * chunkChars < item.2.length ∧
      (db.foundIn query (chunkAt item index)).isSome = true := by
  constructor
  · rintro ⟨place, hplace⟩
    obtain ⟨index, hindex, hfrom, hto⟩ := exists_index_of_occurs hvalid.nonempty
      (hvalid.short.trans (by decide) : query.pattern.length ≤ chunkChars) hplace
    refine ⟨index, hindex, ?_⟩
    rw [Database.foundIn, (hstocked.window hvalid hitem hindex).1, find?_isSome_iff,
      contains_window_iff hvalid.nonempty]
    refine ⟨place, hfrom, hplace, ?_⟩
    have hbelow : windowStart query index ≤ index * chunkChars := Nat.sub_le _ _
    omega
  · rintro ⟨index, hindex, hsome⟩
    obtain ⟨found, hfound⟩ := Option.isSome_iff_exists.mp hsome
    exact ⟨_, (hstocked.foundIn_eq_some hvalid hitem hindex hfound).1⟩

end Window

/-! ## The chunks in order -/

/-- One position comes before another. -/
def Position.Before (left right : Position) : Prop :=
  left.seq < right.seq ∨ left.seq = right.seq ∧ left.offset < right.offset

variable {left right : Position}

theorem Position.before_of_ne (hle : left.AtMost right) (hne : left ≠ right) :
    left.Before right := by
  cases hle with
  | inl hseq => exact Or.inl hseq
  | inr hsame =>
      obtain ⟨hseq, hoffset⟩ := hsame
      have happart : left.offset ≠ right.offset := by
        intro heq
        apply hne
        calc left = ⟨left.seq, left.offset⟩ := rfl
          _ = ⟨right.seq, right.offset⟩ := by rw [hseq, heq]
      exact Or.inr ⟨hseq, lt_of_le_of_ne hoffset happart⟩

theorem Position.before_trans {middle : Position} (hfirst : left.Before middle)
    (hsecond : middle.Before right) : left.Before right := by
  unfold Before at *
  omega

theorem Position.not_atMost_of_before (hbefore : left.Before right) : ¬ right.AtMost left := by
  unfold Before at hbefore
  unfold AtMost
  omega

theorem Position.atMost_of_not_before (hbefore : ¬ left.Before right) : right.AtMost left := by
  unfold Before at hbefore
  unfold AtMost
  omega

theorem Position.atMost_trans {middle : Position} (hfirst : left.AtMost middle)
    (hsecond : middle.AtMost right) : left.AtMost right := by
  unfold AtMost at *
  omega

theorem Stocked.positions (hstocked : Stocked db items) :
    db.chunks.Pairwise fun left right => left.position ≠ right.position := by
  have hsymm : ∀ left right : Chunk, left.position ≠ right.position →
      right.position ≠ left.position := fun _ _ hne heq => hne heq.symm
  apply (hstocked.chunks.symm.pairwise_iff fun hne => hsymm _ _ hne).mp
  rw [pairwise_flatMap]
  constructor
  · intro item _
    apply (chunkRows_increasing item.1.seq item.2).imp
    intro left right hless heq
    exact hless.ne (congrArg Position.offset heq)
  · apply (pairwise_map.mp hstocked.distinct).imp
    intro first second hne left hleft right hright heq
    obtain ⟨_, -, rfl⟩ := mem_chunkRows.mp hleft
    obtain ⟨_, -, rfl⟩ := mem_chunkRows.mp hright
    exact hne (congrArg Position.seq heq)

theorem Stocked.mem_chunksFrom (hstocked : Stocked db items) {position : Position}
    {stored : Stored} :
    stored ∈ db.chunksFrom position ↔ ∃ item ∈ items, ∃ index,
      index * chunkChars < item.2.length ∧ stored = (chunkAt item index, item.1) ∧
        position.AtMost (chunkAt item index).position := by
  rw [Database.chunksFrom, mem_filterMap]
  constructor
  · rintro ⟨chunk, hchunk, hjoined⟩
    rw [mem_insertionSort, mem_filter, decide_eq_true_eq] at hchunk
    obtain ⟨item, hitem, index, hindex, rfl⟩ := hstocked.mem_chunks.mp hchunk.1
    have hrow : (db.events.find? fun row => row.seq = (chunkAt item index).seq) = some item.1 :=
      hstocked.find_row hitem
    rw [hrow] at hjoined
    cases hjoined
    exact ⟨item, hitem, index, hindex, rfl, hchunk.2⟩
  · rintro ⟨item, hitem, index, hindex, rfl, hfrom⟩
    have hrow : (db.events.find? fun row => row.seq = (chunkAt item index).seq) = some item.1 :=
      hstocked.find_row hitem
    refine ⟨chunkAt item index, ?_, by rw [hrow]; rfl⟩
    rw [mem_insertionSort, mem_filter, decide_eq_true_eq]
    exact ⟨hstocked.mem_chunks.mpr ⟨item, hitem, index, hindex, rfl⟩, hfrom⟩

theorem Stocked.chunksFrom_sorted (hstocked : Stocked db items) (position : Position) :
    (db.chunksFrom position).Pairwise fun left right =>
      left.1.position.Before right.1.position := by
  have : Std.Total fun left right : Chunk => left.position.AtMost right.position := by
    constructor
    intro left right
    unfold Position.AtMost
    omega
  have : IsTrans Chunk fun left right => left.position.AtMost right.position :=
    ⟨fun _ _ _ hfirst hsecond => Position.atMost_trans hfirst hsecond⟩
  let kept := db.chunks.filter fun chunk => decide (position.AtMost chunk.position)
  have hsorted : (kept.insertionSort fun left right =>
      left.position.AtMost right.position).Pairwise fun left right =>
        left.position.AtMost right.position := pairwise_insertionSort _ kept
  have happart : (kept.insertionSort fun left right =>
      left.position.AtMost right.position).Pairwise fun left right =>
        left.position ≠ right.position :=
    ((perm_insertionSort _ kept).pairwise_iff fun hne heq => hne heq.symm).mpr
      (hstocked.positions.filter _)
  rw [Database.chunksFrom, pairwise_filterMap]
  apply (hsorted.and happart).imp
  rintro left right ⟨hle, hne⟩ first hfirst second hsecond
  obtain ⟨_, -, rfl⟩ := Option.map_eq_some_iff.mp hfirst
  obtain ⟨_, -, rfl⟩ := Option.map_eq_some_iff.mp hsecond
  exact Position.before_of_ne hle hne

end ReuleauxCoder.History
