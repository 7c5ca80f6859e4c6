import ReuleauxCoder.History.PagedReading
import ReuleauxCoder.History.SearchTables

/-!
# A search reports every match

A page visits the stored chunks from its cursor on, up to where its cursor for the next
page stands, and writes an excerpt for each match.  So a caller that passes the cursors on
gets each matching event, and the search ends.  Only the room that is left on a page can
make an excerpt end before the match does.
-/

namespace ReuleauxCoder.History

open PyText PyJson Occurrences List

/-! ## Room for an excerpt -/

/-- The characters of an excerpt that the page has room for: all of them where the
record fits, otherwise a sixth of what its metadata leave. -/
def Scan.allowed (db : Database) (scan : Scan) (row : Row) (start : ℕ) : ℕ :=
  let chars := min scan.chars 400
  let record := describe (row, db.contentOf row) start chars
  if record.encodedChars + 2 ≤ scan.encoded then chars
  else min ((scan.encoded - (record.metadataChars + 34)) / 6) chars

/-- What a chunk may need of the page: the references of its event are a list, the first
excerpt of a page is not without room, and the room reaches to the end of an occurrence. -/
def Scan.Ample (db : Database) (query : Query) (scan : Scan) (stored : Stored) : Prop :=
  (query.messagesOnly = true → stored.2.message = true) →
    ∀ found, db.foundIn query stored.1 = some found →
      let start := db.excerptStart query stored.1 found
      let allowed := scan.allowed db stored.2 start
      (tuple? stored.2.artifactRefs).isSome = true ∧ (allowed = 0 → scan.records ≠ []) ∧
        (0 < allowed → ∃ place, start ≤ place ∧
          Occurs query.same query.pattern (db.contentOf stored.2) place ∧
          place + query.pattern.length ≤ start + allowed)

/-- Every pass of the loop has the room that it needs. -/
def Scan.Throughout (db : Database) (query : Query) (limits : Limits) :
    List Stored → ℕ → Scan → Prop
  | [], _, _ => True
  | stored :: rest, index, scan =>
      scan.full limits index = false → scan.Ample db query stored ∧
        ∀ next, scan.visit db query stored = .ok (some next) →
          Scan.Throughout db query limits rest (index + 1) next

/-- The page from a position has room for its excerpts. -/
def Roomy (db : Database) (query : Query) (limits : Limits) (position : Position) : Prop :=
  Scan.Throughout db query limits ((db.chunksFrom position).take (searchChunks + 1)) 0
    { chars := limits.chars }

variable {sqlite : Sqlite} {source : Source} {batch : ℕ} {db : Database} {query : Query}
  {limits : Limits} {items : List (Row × Text)} {scan : Scan}

variable {item : Row × Text}

theorem fitRecord_describe (scan : Scan) (start : ℕ) (hstocked : Stocked db items)
    (hitem : item ∈ items) (hchars : 0 < scan.chars) :
    (fitRecord (describe item start (min scan.chars 400)) scan.encoded = none →
      start < item.2.length → scan.allowed db item.1 start = 0) ∧
    ∀ record size, fitRecord (describe item start (min scan.chars 400)) scan.encoded =
        some (record, size) → start < item.2.length →
      record.seq = item.1.seq ∧ 0 < scan.allowed db item.1 start ∧
        record.content = (item.2.drop start).take (scan.allowed db item.1 start) := by
  have hpositive : 0 < min scan.chars 400 := by omega
  have hpair : ((item.1, db.contentOf item.1) : Row × Text) = item := by
    rw [hstocked.contentOf hitem]
  rw [Scan.allowed, hpair]
  simp only [fitRecord]
  split
  · constructor
    · intro hnone
      cases hnone
    · intro record size hsome _
      cases hsome
      exact ⟨rfl, hpositive, rfl⟩
  · rename_i hlarge
    show _ ∧ ∀ record size, _ → _ → _ ∧ 0 < min _ _ ∧ _
    generalize hrecord : describe item start (min scan.chars 400) = whole
    have hcontent : whole.content = (item.2.drop start).take (min scan.chars 400) := by
      rw [← hrecord]
      rfl
    have hseq : whole.seq = item.1.seq := by
      rw [← hrecord]
      rfl
    split
    · rename_i hbudget
      constructor
      · intro _ _
        rw [HistoryRecord.metadataChars, Nat.sub_eq_zero_of_le hbudget, Nat.zero_div,
          Nat.zero_min]
      · intro record size hsome
        cases hsome
    · split
      · rename_i hempty
        constructor
        · intro _ hstart
          rw [hcontent, take_take, take_eq_nil_iff] at hempty
          cases hempty with
          | inl hzero => exact hzero
          | inr hnone =>
              rw [drop_eq_nil_iff] at hnone
              omega
        · intro record size hsome
          cases hsome
      · rename_i hkept
        constructor
        · intro hnone
          cases hnone
        · intro record size hsome _
          cases hsome
          rw [hcontent, take_take] at hkept ⊢
          rw [HistoryRecord.metadataChars]
          refine ⟨hseq, ?_, rfl⟩
          apply Nat.pos_of_ne_zero
          intro hzero
          rw [hzero, take_zero] at hkept
          exact hkept rfl

/-! ## One chunk -/

/-- The chunk is one whose match the search is to report. -/
def Hit (db : Database) (query : Query) (stored : Stored) : Prop :=
  (query.messagesOnly = true → stored.2.message = true) ∧
    (db.foundIn query stored.1).isSome = true

/-- A record of a matching event, with an occurrence in its excerpt. -/
def Reports (db : Database) (query : Query) (record : HistoryRecord) : Prop :=
  (∃ row ∈ db.events, record.seq = row.seq ∧ db.Matches query row) ∧
    Contains query.same query.pattern record.content

/-- What a page adds for some chunks: records of matching events, and one for each hit. -/
structure Adds (db : Database) (query : Query) (visited : List Stored)
    (added : List HistoryRecord) : Prop where
  sound : ∀ record ∈ added, Reports db query record
  complete : ∀ stored ∈ visited, Hit db query stored →
    ∃ record ∈ added, record.seq = stored.2.seq

theorem Adds.nil : Adds db query [] [] where
  sound _ hrecord := by cases hrecord
  complete _ hstored := by cases hstored

variable {front : List Stored} {index : ℕ}

theorem Adds.append {back : List Stored} {first second : List HistoryRecord}
    (hfront : Adds db query front first) (hback : Adds db query back second) :
    Adds db query (front ++ back) (first ++ second) where
  sound record hrecord := by
    cases mem_append.mp hrecord with
    | inl hfirst => exact hfront.sound record hfirst
    | inr hsecond => exact hback.sound record hsecond
  complete stored hstored hhit := by
    cases mem_append.mp hstored with
    | inl hbefore =>
        obtain ⟨record, hrecord, hseq⟩ := hfront.complete stored hbefore hhit
        exact ⟨record, mem_append_left _ hrecord, hseq⟩
    | inr hafter =>
        obtain ⟨record, hrecord, hseq⟩ := hback.complete stored hafter hhit
        exact ⟨record, mem_append_right _ hrecord, hseq⟩

theorem adds_none {stored : Stored} (hmiss : ¬ Hit db query stored) :
    Adds db query [stored] [] where
  sound _ hrecord := by cases hrecord
  complete other hother hhit := by
    rw [mem_singleton.mp hother] at hhit
    exact absurd hhit hmiss

theorem Stocked.matches (hstocked : Stocked db items) (hvalid : query.Valid)
    (hitem : item ∈ items) :
    db.Matches query item.1 ↔ ∃ index, index * chunkChars < item.2.length ∧
      Hit db query (chunkAt item index, item.1) := by
  rw [Database.Matches, hstocked.contentOf hitem, hstocked.contains_iff hvalid hitem]
  constructor
  · rintro ⟨hkept, index, hindex, hfound⟩
    exact ⟨index, hindex, hkept, hfound⟩
  · rintro ⟨index, hindex, hkept, hfound⟩
    exact ⟨hkept, index, hindex, hfound⟩

/-- What one pass of the loop does where it has room. -/
theorem visit_spec (hstocked : Stocked db items) (hvalid : query.Valid) (hitem : item ∈ items)
    (hindex : index * chunkChars < item.2.length) (hchars : 0 < scan.chars)
    (hample : scan.Ample db query (chunkAt item index, item.1)) :
    (scan.visit db query (chunkAt item index, item.1) = .ok none ∧ scan.records ≠ []) ∨
      ∃ next added, scan.visit db query (chunkAt item index, item.1) = .ok (some next) ∧
        next.records = scan.records ++ added ∧
        Adds db query [(chunkAt item index, item.1)] added := by
  rw [Scan.visit]
  split
  · rename_i hskipped
    refine Or.inr ⟨scan, [], rfl, (append_nil _).symm, adds_none fun hhit => ?_⟩
    rw [Bool.and_eq_true, Bool.not_eq_true'] at hskipped
    exact absurd (hhit.1 hskipped.1) (Bool.eq_false_iff.mp hskipped.2)
  · rename_i hkept
    have hvisible : query.messagesOnly = true → item.1.message = true := by
      intro honly
      rw [honly, Bool.true_and, Bool.not_eq_true', Bool.not_eq_false] at hkept
      exact hkept
    cases hfound : db.foundIn query (chunkAt item index) with
    | none =>
        refine Or.inr ⟨scan, [], rfl, (append_nil _).symm, adds_none fun hhit => ?_⟩
        have hsome := hhit.2
        rw [hfound] at hsome
        cases hsome
    | some found =>
        obtain ⟨hoccurs, hstart⟩ := hstocked.foundIn_eq_some hvalid hitem hindex hfound
        obtain ⟨hreferences, hfirst, hroom⟩ := hample hvisible found hfound
        obtain ⟨references, hlist⟩ := Option.isSome_iff_exists.mp hreferences
        have hwithin : db.excerptStart query (chunkAt item index) found < item.2.length := by
          have hend := hoccurs.length_le hvalid.nonempty
          have hlength := length_pos_iff.mpr hvalid.nonempty
          rw [hstart]
          omega
        obtain ⟨hrefused, hpassed⟩ := fitRecord_describe scan
          (db.excerptStart query (chunkAt item index) found) hstocked hitem hchars
        simp only [hstocked.record hitem, hlist, Option.map_some]
        cases hfit : fitRecord (describe item (db.excerptStart query (chunkAt item index) found)
            (min scan.chars 400)) scan.encoded with
        | none =>
            have hothers := hfirst (hrefused hfit hwithin)
            exact Or.inl ⟨if_neg hothers, hothers⟩
        | some passed =>
            obtain ⟨record, size⟩ := passed
            obtain ⟨hseq, hallowed, hcontent⟩ := hpassed record size hfit hwithin
            refine Or.inr ⟨_, [record], rfl, rfl, ?_⟩
            constructor
            · intro other hother
              rw [mem_singleton.mp hother]
              constructor
              · refine ⟨item.1, hstocked.events.mem_iff.mpr (mem_map_of_mem hitem), hseq, ?_⟩
                apply (hstocked.matches hvalid hitem).mpr
                exact ⟨index, hindex, hvisible, by rw [hfound]; rfl⟩
              · obtain ⟨place, hfrom, hplace, hto⟩ := hroom hallowed
                rw [hcontent, contains_window_iff hvalid.nonempty]
                refine ⟨place, hfrom, ?_, hto⟩
                rwa [hstocked.contentOf hitem] at hplace
            · intro other hother _
              rw [mem_singleton.mp hother]
              exact ⟨record, mem_singleton_self record, hseq⟩

/-! ## One page -/

/-- Where the loop stops among the chunks that it is given. -/
inductive StopsAt (db : Database) (query : Query) (stored : List Stored)
    (added : List HistoryRecord) : Option Position → Prop where
  | done : Adds db query stored added → StopsAt db query stored added none
  | before {front back : List Stored} {stop : Stored} :
      stored = front ++ stop :: back → Adds db query front added →
        StopsAt db query stored added (some stop.1.position)

/-- The chunk is stored with its event. -/
def IsStored (items : List (Row × Text)) (stored : Stored) : Prop :=
  ∃ item ∈ items, ∃ index, index * chunkChars < item.2.length ∧
    stored = (chunkAt item index, item.1)

theorem chars_pos_of_full (hfull : scan.full limits index = false) : 0 < scan.chars := by
  rw [Scan.full, Bool.or_eq_false_iff, beq_eq_false_iff_ne] at hfull
  exact Nat.pos_of_ne_zero hfull.2

/-- The loop stops at the end of the chunks, or before one of them. -/
theorem run_spec (hstocked : Stocked db items) (hvalid : query.Valid) {stored : List Stored}
    (hstored : ∀ entry ∈ stored, IsStored items entry) (hindex : index ≤ searchChunks)
    (hroomy : Scan.Throughout db query limits stored index scan) :
    ∃ final next added, Scan.run db query limits stored index scan = .ok (final, next) ∧
      final.records = scan.records ++ added ∧ StopsAt db query stored added next ∧
      (next = none → index + stored.length ≤ searchChunks) := by
  induction stored generalizing index scan with
  | nil => exact ⟨scan, none, [], rfl, (append_nil _).symm, .done Adds.nil, fun _ => hindex⟩
  | cons entry rest ih =>
      rw [Scan.run]
      cases hfull : scan.full limits index with
      | true =>
          exact ⟨scan, some entry.1.position, [], rfl, (append_nil _).symm,
            .before (nil_append (_ :: _)).symm Adds.nil, fun hnone => by cases hnone⟩
      | false =>
          obtain ⟨item, hitem, place, hplace, rfl⟩ := hstored entry mem_cons_self
          obtain ⟨hample, hlater⟩ := hroomy hfull
          have hless : index + 1 ≤ searchChunks := by
            rw [Scan.full, Bool.or_eq_false_iff, Bool.or_eq_false_iff, beq_eq_false_iff_ne] at hfull
            exact Nat.lt_of_le_of_ne hindex hfull.1.1
          rcases visit_spec hstocked hvalid hitem hplace (chars_pos_of_full hfull) hample with
            ⟨hvisit, -⟩ | ⟨next, added, hvisit, hrecords, hadds⟩
          · rw [hvisit]
            exact ⟨scan, some _, [], rfl, (append_nil _).symm,
              .before (nil_append (_ :: _)).symm Adds.nil, fun hnone => by cases hnone⟩
          · obtain ⟨final, stop, more, hrun, hfinal, hstops, hlength⟩ :=
              ih (fun other hother => hstored other (mem_cons_of_mem _ hother)) hless
                (hlater next hvisit)
            rw [hvisit]
            refine ⟨final, stop, added ++ more, hrun, ?_, ?_, ?_⟩
            · rw [hfinal, hrecords, append_assoc]
            · cases hstops with
              | done hrest => exact .done (hadds.append hrest)
              | before hsplit hrest =>
                  rw [hsplit]
                  exact .before (cons_append).symm (hadds.append hrest)
            · intro hnone
              have hbound := hlength hnone
              rw [length_cons]
              omega

/-- A page goes on to the end of the chunks, or stops behind the first. -/
structure Page (db : Database) (query : Query) (position : Position)
    (records : List HistoryRecord) (next : Option Position) : Prop where
  finished : next = none → Adds db query (db.chunksFrom position) records
  stopped : ∀ later, next = some later → ∃ front stop back,
    db.chunksFrom position = front ++ stop :: back ∧ front ≠ [] ∧ Adds db query front records ∧
      later = stop.1.position

variable {position : Position}

theorem page_of_stops {records : List HistoryRecord} {next : Option Position} (hne : front ≠ [])
    {taken : List Stored} {first : List HistoryRecord} (hfirst : Adds db query front first)
    {more : List HistoryRecord} (hrecords : records = first ++ more)
    (hsplit : (db.chunksFrom position).take (searchChunks + 1) = front ++ taken)
    (hstops : StopsAt db query taken more next)
    (hlength : next = none → front.length + taken.length ≤ searchChunks) :
    Page db query position records next where
  finished hnone := by
    have hall : (db.chunksFrom position).take (searchChunks + 1) = db.chunksFrom position := by
      have hshort := hlength hnone
      rw [← length_append, ← hsplit, length_take] at hshort
      apply take_of_length_le
      omega
    rw [hnone] at hstops
    cases hstops with
    | done hrest =>
        rw [← hall, hsplit, hrecords]
        exact hfirst.append hrest
  stopped later hlater := by
    rw [hlater] at hstops
    cases hstops with
    | before htaken hrest =>
        rename_i middle back stop
        refine ⟨front ++ middle, stop,
          back ++ (db.chunksFrom position).drop (searchChunks + 1), ?_, by simp [hne], ?_, rfl⟩
        · rw [← cons_append, append_assoc, ← append_assoc middle, ← htaken,
            ← append_assoc, ← hsplit, take_append_drop]
        · rw [hrecords]
          exact hfirst.append hrest

theorem searchPage_spec (hstocked : Stocked db items) (hvalid : query.Valid)
    (hlimits : limits.valid = true) (hseq : fitsInteger position.seq = true)
    (hoffset : fitsInteger position.offset = true) (hroomy : Roomy db query limits position)
    {status : Status} (hindexed : ¬ status.indexedBytes < status.sourceBytes) :
    ∃ page next, searchPage query limits position db status = .ok page ∧
      page.nextCursor = next.map Position.cursor ∧ Page db query position page.records next := by
  have hstored : ∀ entry ∈ (db.chunksFrom position).take (searchChunks + 1),
      IsStored items entry := by
    intro entry hentry
    obtain ⟨item, hitem, index, hindex, rfl, -⟩ :=
      hstocked.mem_chunksFrom.mp (mem_of_mem_take hentry)
    exact ⟨item, hitem, index, hindex, rfl⟩
  rw [Limits.valid, Bool.and_eq_true, Bool.and_eq_true, Bool.and_eq_true] at hlimits
  have hrecords : 1 ≤ limits.records := of_decide_eq_true hlimits.1.1.1
  have hchars : 1 ≤ limits.chars := of_decide_eq_true hlimits.1.2
  rw [searchPage, hseq, hoffset, Bool.and_self, Bool.not_true, if_neg Bool.false_ne_true]
  unfold Roomy at hroomy
  cases htaken : (db.chunksFrom position).take (searchChunks + 1) with
  | nil =>
      have hnone : db.chunksFrom position = [] := by
        cases take_eq_nil_iff.mp htaken with
        | inl hzero => cases hzero
        | inr hempty => exact hempty
      refine ⟨_, none, rfl, ?_, ?_⟩
      · simp [hindexed]
      · constructor
        · intro _
          rw [hnone]
          exact Adds.nil
        · intro later hlater
          cases hlater
  | cons entry rest =>
      rw [htaken] at hstored hroomy
      obtain ⟨item, hitem, place, hplace, rfl⟩ := hstored entry mem_cons_self
      have hfull : Scan.full { chars := limits.chars } limits 0 = false := by
        simp only [Scan.full, Bool.or_eq_false_iff, beq_eq_false_iff_ne]
        refine ⟨⟨by decide, ?_⟩, by omega⟩
        show 0 ≠ limits.records
        omega
      obtain ⟨hample, hlater⟩ := hroomy hfull
      rcases visit_spec hstocked hvalid hitem hplace (chars_pos_of_full hfull) hample with
        ⟨-, hothers⟩ | ⟨scan, added, hvisit, hfirst, hadds⟩
      · exact absurd rfl hothers
      · obtain ⟨final, next, more, hrun, hfinal, hstops, hlength⟩ :=
          run_spec hstocked hvalid (fun other hother => hstored other (mem_cons_of_mem _ hother))
            (by decide : 0 + 1 ≤ searchChunks) (hlater scan hvisit)
        rw [Scan.run, hfull, if_neg Bool.false_ne_true, hvisit]
        simp only [hrun]
        refine ⟨_, next, rfl, ?_, ?_⟩
        · simp [hindexed]
        · have hrecords : final.records = added ++ more := by
            rw [hfinal, hfirst]
            rfl
          have hbound : next = none → [(chunkAt item place, item.1)].length + rest.length ≤
              searchChunks := by
            intro hnone
            rw [length_singleton]
            exact hlength hnone
          exact page_of_stops (cons_ne_nil _ _) hadds hrecords htaken hstops hbound

/-! ## All pages -/

/-- `_sync` has nothing left to do: the file is the one that was indexed, up to its end. -/
structure Complete (source : Source) (db : Database) : Prop where
  indexed : ∃ progress, db.progress = some progress ∧ replaced source progress = false ∧
    progress.position = source.size

theorem Complete.sync (sqlite : Sqlite) (batch : ℕ) (hcomplete : Complete source db) :
    ∃ status, sync sqlite batch source db = some (db, status) ∧
      ¬ status.indexedBytes < status.sourceBytes := by
  obtain ⟨progress, hprogress, hsame, hend⟩ := hcomplete.indexed
  refine ⟨⟨progress.position, source.size, progress.skipped, false⟩, ?_, ?_⟩
  · rw [History.sync, hprogress]
    simp only [hsame, Bool.false_eq_true, if_false, if_pos hend]
  · show ¬ progress.position < source.size
    rw [hend]
    exact lt_irrefl _

/-- Where the first page starts. -/
def searchStart : Position := ⟨1, 0⟩

/-- What holds while a caller has a cursor to pass on. -/
structure Pending (db : Database) (query : Query) (done : ℕ) (records : List HistoryRecord)
    (position : Position) : Prop where
  fits : fitsInteger position.seq = true ∧ fitsInteger position.offset = true
  from_start : searchStart.AtMost position
  reported : ∀ stored ∈ db.chunksFrom searchStart, stored.1.position.Before position →
    Hit db query stored → ∃ record ∈ records, record.seq = stored.2.seq
  bounded : done + (db.chunksFrom position).length ≤ (db.chunksFrom searchStart).length

/-- What holds of a caller after so many pages. -/
structure Seeks (db : Database) (query : Query) (done : ℕ) (seeker : Seeker) : Prop where
  same : seeker.db = db
  sound : ∀ record ∈ seeker.records, Reports db query record
  running : ∀ error, seeker.state ≠ .failed error
  finished : seeker.state = .finished → ∀ stored ∈ db.chunksFrom searchStart,
    Hit db query stored → ∃ record ∈ seeker.records, record.seq = stored.2.seq
  searching : ∀ cursor, seeker.state = .searching cursor → ∃ position,
    searchPosition? cursor = some position ∧
      Pending db query done seeker.records position

theorem searchPosition?_cursor (hseq : 1 ≤ position.seq) :
    searchPosition? (some position.cursor) = some position := by
  have hparse := position?_cursor hseq
  cases htext : position.cursor with
  | nil => simp [Position.cursor] at htext
  | cons c rest =>
      rw [htext] at hparse
      exact hparse

theorem seeks_start (db : Database) (query : Query) : Seeks db query 0 { db } where
  same := rfl
  sound _ hrecord := by cases hrecord
  running _ herror := by cases herror
  finished hfinished := by cases hfinished
  searching cursor hcursor := by
    cases hcursor
    refine ⟨searchStart, rfl, ⟨by decide, by decide⟩, Or.inr ⟨rfl, le_rfl⟩, ?_, ?_⟩
    · intro stored hstored hbefore
      exact absurd (mem_filterMap.mp hstored) fun ⟨chunk, hchunk, hjoined⟩ => by
        rw [mem_insertionSort, mem_filter, decide_eq_true_eq] at hchunk
        obtain ⟨_, -, rfl⟩ := Option.map_eq_some_iff.mp hjoined
        exact Position.not_atMost_of_before hbefore hchunk.2
    · rw [Nat.zero_add]

variable {done : ℕ}

/-- A page begins behind what was visited and covers what lies before its own stop. -/
theorem Pending.next (hstocked : Stocked db items) {records more : List HistoryRecord}
    (hcontinues : Pending db query done records position) {back : List Stored} {stop : Stored}
    (hsplit : db.chunksFrom position = front ++ stop :: back) (hne : front ≠ [])
    (hadds : Adds db query front more) :
    Pending db query (done + 1) (records ++ more) stop.1.position := by
  have hsorted := hstocked.chunksFrom_sorted position
  rw [hsplit] at hsorted
  have hmem : stop ∈ db.chunksFrom position := by
    rw [hsplit]
    exact mem_append_right front mem_cons_self
  obtain ⟨item, hitem, index, hindex, rfl, hfrom⟩ := hstocked.mem_chunksFrom.mp hmem
  constructor
  · refine ⟨hstocked.keys item hitem, ?_⟩
    have hshort := hstocked.short item hitem
    rw [fitsInteger, Bool.and_eq_true, decide_eq_true_eq, decide_eq_true_eq] at hshort ⊢
    have hless : ((index * chunkChars : ℕ) : ℤ) < item.2.length := by exact_mod_cast hindex
    exact ⟨by show _ ≤ ((index * chunkChars : ℕ) : ℤ); omega,
      by show ((index * chunkChars : ℕ) : ℤ) < _; omega⟩
  · exact Position.atMost_trans hcontinues.from_start hfrom
  · intro stored hstored hbefore hhit
    by_cases hearlier : stored.1.position.Before position
    · obtain ⟨record, hrecord, hseq⟩ := hcontinues.reported stored hstored hearlier hhit
      exact ⟨record, mem_append_left more hrecord, hseq⟩
    · obtain ⟨other, hother, place, hplace, rfl, -⟩ := hstocked.mem_chunksFrom.mp hstored
      have hhere : (chunkAt other place, other.1) ∈ db.chunksFrom position :=
        hstocked.mem_chunksFrom.mpr ⟨other, hother, place, hplace, rfl,
          Position.atMost_of_not_before hearlier⟩
      have hvisited : (chunkAt other place, other.1) ∈ front := by
        rw [hsplit] at hhere
        cases mem_append.mp hhere with
        | inl hfront => exact hfront
        | inr hrest =>
            cases mem_cons.mp hrest with
            | inl hstop =>
                rw [hstop] at hbefore
                exact absurd (Or.inr ⟨rfl, le_rfl⟩) (Position.not_atMost_of_before hbefore)
            | inr hback =>
                have hafter := (pairwise_cons.mp (pairwise_append.mp hsorted).2.1).1 _ hback
                exact absurd (Or.inr ⟨rfl, le_rfl⟩)
                  (Position.not_atMost_of_before (Position.before_trans hbefore hafter))
      obtain ⟨record, hrecord, hseq⟩ := hadds.complete _ hvisited hhit
      exact ⟨record, mem_append_right records hrecord, hseq⟩
  · have hsub : db.chunksFrom (chunkAt item index).position ⊆
        (chunkAt item index, item.1) :: back := by
      intro stored hstored
      obtain ⟨other, hother, place, hplace, rfl, hlater⟩ := hstocked.mem_chunksFrom.mp hstored
      have hhere : (chunkAt other place, other.1) ∈ db.chunksFrom position :=
        hstocked.mem_chunksFrom.mpr ⟨other, hother, place, hplace, rfl,
          Position.atMost_trans hfrom hlater⟩
      rw [hsplit] at hhere
      cases mem_append.mp hhere with
      | inl hfront =>
          have hbefore := (pairwise_append.mp hsorted).2.2 _ hfront _ mem_cons_self
          exact absurd hlater (Position.not_atMost_of_before hbefore)
      | inr hrest => exact hrest
    have hnodup : (db.chunksFrom (chunkAt item index).position).Nodup := by
      apply (hstocked.chunksFrom_sorted _).imp
      intro left right hbefore heq
      rw [heq] at hbefore
      exact Position.not_atMost_of_before hbefore (Or.inr ⟨rfl, le_rfl⟩)
    have hlength := (subperm_of_subset hnodup hsub).length_le
    have hbound := hcontinues.bounded
    have hpositive := length_pos_iff.mpr hne
    rw [hsplit, length_append] at hbound
    show done + 1 + (db.chunksFrom (chunkAt item index).position).length ≤ _
    omega

/-- The page that a caller is about to ask for has room for its excerpts. -/
def Seeker.Roomy (query : Query) (limits : Limits) (seeker : Seeker) : Prop :=
  ∀ cursor position, seeker.state = .searching cursor → searchPosition? cursor = some position →
    History.Roomy seeker.db query limits position

/-- One page reports hits only and leaves none behind: those not reported lie at or after its
cursor. -/
theorem Seeks.step (hstocked : Stocked db items) (hcomplete : Complete source db)
    (hvalid : query.Valid) (hlimits : limits.valid = true) {seeker : Seeker}
    (hseeks : Seeks db query done seeker) (hroomy : seeker.Roomy query limits) :
    Seeks db query (done + 1) (seeker.step sqlite batch source query limits) := by
  cases hstate : seeker.state with
  | finished =>
      have hstep : seeker.step sqlite batch source query limits = seeker := by
        simp only [Seeker.step, hstate]
      rw [hstep]
      refine { hseeks with searching := fun cursor hcursor => ?_ }
      rw [hstate] at hcursor
      cases hcursor
  | failed error => exact absurd hstate (hseeks.running error)
  | searching cursor =>
      obtain ⟨position, hposition, hpending⟩ := hseeks.searching cursor hstate
      obtain ⟨status, hsync, hindexed⟩ := hcomplete.sync sqlite batch
      have hroom := hroomy cursor position hstate hposition
      rw [hseeks.same] at hroom
      obtain ⟨page, next, hpage, hcursor, hspec⟩ := searchPage_spec hstocked hvalid hlimits
        hpending.fits.1 hpending.fits.2 hroom hindexed
      have hlength : ¬ (query.pattern.length < 1 ∨ 256 < query.pattern.length) := by
        have hpositive := length_pos_iff.mpr hvalid.nonempty
        have hshort := hvalid.short
        omega
      have hsearch : search sqlite batch source query limits cursor seeker.db = (db, .ok page) := by
        rw [search, hlimits, Bool.not_true, if_neg Bool.false_ne_true, if_neg hlength, hposition,
          hseeks.same]
        simp only [hsync, hpage]
      rw [Seeker.step_page hstate hsearch]
      cases next with
      | none =>
          have hnone : page.nextCursor = none := hcursor
          have hadds := hspec.finished rfl
          constructor
          · rfl
          · intro record hrecord
            cases mem_append.mp hrecord with
            | inl hold => exact hseeks.sound record hold
            | inr hnew => exact hadds.sound record hnew
          · intro error herror
            simp only [hnone] at herror
            cases herror
          · intro _ stored hstored hhit
            by_cases hearlier : stored.1.position.Before position
            · obtain ⟨record, hrecord, hseq⟩ :=
                hpending.reported stored hstored hearlier hhit
              exact ⟨record, mem_append_left _ hrecord, hseq⟩
            · obtain ⟨item, hitem, index, hindex, rfl, -⟩ :=
                hstocked.mem_chunksFrom.mp hstored
              have hhere : (chunkAt item index, item.1) ∈ db.chunksFrom position :=
                hstocked.mem_chunksFrom.mpr ⟨item, hitem, index, hindex, rfl,
                  Position.atMost_of_not_before hearlier⟩
              obtain ⟨record, hrecord, hseq⟩ := hadds.complete _ hhere hhit
              exact ⟨record, mem_append_right _ hrecord, hseq⟩
          · intro later hlater
            simp only [hnone] at hlater
            cases hlater
      | some stop =>
          have hsome : page.nextCursor = some stop.cursor := hcursor
          obtain ⟨front, last, back, hsplit, hne, hadds, rfl⟩ := hspec.stopped stop rfl
          have hnext := hpending.next hstocked hsplit hne hadds
          have hseq : 1 ≤ last.1.position.seq := by
            have hfrom := hnext.from_start
            have hone : searchStart.seq = 1 := rfl
            unfold Position.AtMost at hfrom
            omega
          constructor
          · rfl
          · intro record hrecord
            cases mem_append.mp hrecord with
            | inl hold => exact hseeks.sound record hold
            | inr hnew => exact hadds.sound record hnew
          · intro error herror
            simp only [hsome] at herror
            cases herror
          · intro hfinished
            simp only [hsome] at hfinished
            cases hfinished
          · intro later hlater
            simp only [hsome, Searching.searching.injEq] at hlater
            exact ⟨last.1.position, by rw [← hlater]; exact searchPosition?_cursor hseq, hnext⟩

/-- By induction on the requests, each with room for its own page. -/
theorem Seeks.run (hstocked : Stocked db items) (hcomplete : Complete source db)
    (hvalid : query.Valid) {requests : List Limits}
    (hlimits : ∀ limits ∈ requests, limits.valid = true) {seeker : Seeker}
    (hseeks : Seeks db query done seeker)
    (hroomy : ∀ before limits after, requests = before ++ limits :: after →
      (before.foldl (Seeker.step sqlite batch source query) seeker).Roomy query limits) :
    Seeks db query (done + requests.length)
      (requests.foldl (Seeker.step sqlite batch source query) seeker) := by
  induction requests generalizing done seeker with
  | nil => exact hseeks
  | cons limits rest ih =>
      have hstep : Seeks db query (done + 1) (seeker.step sqlite batch source query limits) :=
        hseeks.step hstocked hcomplete hvalid (hlimits limits mem_cons_self)
          (hroomy [] limits rest rfl)
      have hrest := ih (fun later hlater => hlimits later (mem_cons_of_mem _ hlater)) hstep
        (fun before later after hsplit => hroomy (limits :: before) later after (by
          rw [hsplit]
          rfl))
      rw [length_cons, Nat.add_comm rest.length, ← Nat.add_assoc]
      exact hrest

/-- A search of an indexed ledger, in which every page has room for its excerpts, reports
the events that contain the pattern and no others, each excerpt shows an occurrence, and it
ends after as many pages as there are chunks. -/
theorem Seeker.run_reports (hkeyed : sqlite.Keyed) (hbuilt : Built sqlite db)
    (hcomplete : Complete source db)
    (hnumbered : ∀ row ∈ db.events, db.Matches query row → 1 ≤ row.seq)
    (hvalid : query.Valid) (requests : List Limits)
    (hlimits : ∀ limits ∈ requests, limits.valid = true)
    (hroomy : ∀ before limits after, requests = before ++ limits :: after →
      (before.foldl (Seeker.step sqlite batch source query) { db }).Roomy query limits) :
    let seeker := requests.foldl (Seeker.step sqlite batch source query) { db }
    (∀ error, seeker.state ≠ .failed error) ∧
    (seeker.state = .finished → ∀ row ∈ db.events,
      (∃ record ∈ seeker.records, record.seq = row.seq) ↔ db.Matches query row) ∧
    (∀ record ∈ seeker.records, (∃ row ∈ db.events, record.seq = row.seq ∧
      db.Matches query row) ∧ Contains query.same query.pattern record.content) ∧
    (db.chunks.length < requests.length → seeker.state = .finished) := by
  intro seeker
  obtain ⟨items, hstocked⟩ := hbuilt.stocked hkeyed
  have hseeks : Seeks db query (0 + requests.length) seeker :=
    (seeks_start db query).run hstocked hcomplete hvalid hlimits hroomy
  refine ⟨hseeks.running, ?_, hseeks.sound, ?_⟩
  · intro hfinished row hrow
    obtain ⟨item, hitem, rfl⟩ := mem_map.mp (hstocked.events.mem_iff.mp hrow)
    constructor
    · rintro ⟨record, hrecord, hseq⟩
      obtain ⟨⟨other, hother, hsame, hmatches⟩, -⟩ := hseeks.sound record hrecord
      obtain ⟨holder, hholder, rfl⟩ := mem_map.mp (hstocked.events.mem_iff.mp hother)
      rw [hstocked.eq_of_seq hholder hitem (hsame.symm.trans hseq)] at hmatches
      exact hmatches
    · intro hmatches
      obtain ⟨index, hindex, hhit⟩ := (hstocked.matches hvalid hitem).mp hmatches
      have hfrom : searchStart.AtMost (chunkAt item index).position := by
        have hpositive := hnumbered item.1 hrow hmatches
        show (1 : ℤ) < item.1.seq ∨ (1 : ℤ) = item.1.seq ∧ 0 ≤ index * chunkChars
        omega
      have hstored := hstocked.mem_chunksFrom.mpr ⟨item, hitem, index, hindex, rfl, hfrom⟩
      exact hseeks.finished hfinished _ hstored hhit
  · intro hmany
    cases hstate : seeker.state with
    | finished => rfl
    | failed error => exact absurd hstate (hseeks.running error)
    | searching cursor =>
        obtain ⟨position, -, hpending⟩ := hseeks.searching cursor hstate
        have hbound := hpending.bounded
        have hchunks : (db.chunksFrom searchStart).length ≤ db.chunks.length := by
          rw [Database.chunksFrom]
          apply (length_filterMap_le _ _).trans
          rw [length_insertionSort]
          exact length_filter_le _ _
        omega

/-- ASCII letters without regard to case. -/
def asciiSame (wanted symbol : CodePoint) : Bool :=
  let lower (c : CodePoint) : ℕ := if 65 ≤ c.val ∧ c.val ≤ 90 then c.val + 32 else c.val
  lower wanted == lower symbol

/-- The tables of `twoMessages`. -/
def indexedMessages : Database :=
  ((sync plainSqlite 4096 twoMessages {}).map Prod.fst).getD {}

def greeting : Query where
  same := asciiSame
  pattern := lit "HI"

theorem keyed_plainSqlite : plainSqlite.Keyed where
  key value seq hvalue := by
    cases value with
    | int value =>
        simp only [plainSqlite] at hvalue
        split at hvalue
        · rename_i hfits
          cases hvalue
          exact hfits
        · cases hvalue
    | null | bool _ | float _ | str _ | arr _ | obj _ => cases hvalue
  nextKey keys := by
    simp only [plainSqlite]
    split
    · assumption
    · decide

theorem built_indexedMessages : Built plainSqlite indexedMessages := by
  have hsync : sync plainSqlite 4096 twoMessages {} =
      some (indexedMessages, ⟨200, 200, 0, false⟩) := by rfl
  exact Built.sync Built.empty hsync

theorem complete_indexedMessages : Complete twoMessages indexedMessages :=
  ⟨⟨_, rfl, by decide, by decide⟩⟩

theorem greeting_valid : greeting.Valid where
  nonempty := by decide
  short := by decide

/-- A page for one record. -/
def onePage : Limits :=
  ⟨1, 12000⟩

/-- The caller behind a page for one record. -/
def secondPage : Seeker :=
  Seeker.step plainSqlite 4096 twoMessages greeting { db := indexedMessages } onePage

theorem roomy_greeting : ({ db := indexedMessages } : Seeker).Roomy greeting onePage := by
  intro cursor position hcursor hposition
  cases hcursor
  cases hposition
  intro _
  constructor
  · intro _ found hfound
    have hplace : found = 0 := (Option.some.inj (hfound.symm.trans rfl))
    subst hplace
    refine ⟨rfl, fun hzero => absurd hzero (by decide +kernel), fun _ => ⟨0, ?_, ?_, ?_⟩⟩
    · decide +kernel
    · decide +kernel
    · decide +kernel
  · intro next _ _
    constructor
    · intro _ found hfound
      cases (hfound : none = some found)
    · intro later _
      trivial

theorem secondPage_db : secondPage.db = indexedMessages := by
  obtain ⟨items, hstocked⟩ := built_indexedMessages.stocked keyed_plainSqlite
  exact ((seeks_start indexedMessages greeting).step hstocked complete_indexedMessages
    greeting_valid rfl roomy_greeting).same

theorem roomy_pages {before after : List Limits} {limits : Limits}
    (hsplit : [onePage, onePage] = before ++ limits :: after) :
    (before.foldl (Seeker.step plainSqlite 4096 twoMessages greeting)
      { db := indexedMessages }).Roomy greeting limits := by
  match before with
  | [] =>
      cases hsplit
      exact roomy_greeting
  | [first] =>
      cases hsplit
      rw [foldl_cons, foldl_nil, ← secondPage]
      have hstate : secondPage.state = .searching (some (lit "2:0")) := by decide +kernel
      intro cursor position hcursor hposition
      rw [hstate] at hcursor
      cases hcursor
      have hplace : position = ⟨2, 0⟩ := Option.some.inj (hposition.symm.trans (by decide +kernel))
      subst hplace
      rw [secondPage_db]
      -- behind the first message no chunk contains the pattern
      intro _
      constructor
      · intro _ found hfound
        cases (hfound : none = some found)
      · intro later _
        trivial
  | first :: second :: rest => simp at hsplit

theorem Seeker.run_reports_greeting :
    let seeker := [onePage, onePage].foldl (Seeker.step plainSqlite 4096 twoMessages greeting)
      { db := indexedMessages }
    seeker.state = .finished ∧ seeker.records.length = 1 ∧ ∀ row ∈ indexedMessages.events,
      (∃ record ∈ seeker.records, record.seq = row.seq) ↔
        indexedMessages.Matches greeting row := by
  have hnumbered : ∀ row ∈ indexedMessages.events, 1 ≤ row.seq := by decide
  have hrun := Seeker.run_reports keyed_plainSqlite built_indexedMessages
    complete_indexedMessages (fun row hrow _ => hnumbered row hrow) greeting_valid
      [onePage, onePage] (by decide) fun _ _ _ => roomy_pages
  have hfinished : ([onePage, onePage].foldl (Seeker.step plainSqlite 4096 twoMessages greeting)
      { db := indexedMessages }).state = .finished := by
    decide +kernel
  exact ⟨hfinished, by decide +kernel, hrun.2.1 hfinished⟩

/-- A page of one character reports the message "hi" with the excerpt "h". -/
theorem Seeker.excerpt_misses_greeting :
    ∃ (sqlite : Sqlite) (source : Source) (db : Database) (query : Query) (limits : Limits),
      sqlite.Keyed ∧ Built sqlite db ∧ Complete source db ∧ (∀ row ∈ db.events, 1 ≤ row.seq) ∧
      query.Valid ∧ limits.valid = true ∧
      ∃ record ∈ ([limits].foldl (Seeker.step sqlite 4096 source query) { db }).records,
        record.content = lit "h" ∧ ¬ Contains query.same query.pattern record.content := by
  have hcontents : ([⟨20, 1⟩].foldl (Seeker.step plainSqlite 4096 twoMessages greeting)
      { db := indexedMessages }).records.map HistoryRecord.content = [lit "h"] := by
    decide +kernel
  have hmem : lit "h" ∈ [lit "h"] := mem_singleton_self _
  rw [← hcontents] at hmem
  obtain ⟨record, hrecord, hcontent⟩ := mem_map.mp hmem
  refine ⟨plainSqlite, twoMessages, indexedMessages, greeting, ⟨20, 1⟩, keyed_plainSqlite,
    built_indexedMessages, complete_indexedMessages, by decide, greeting_valid, by decide, record,
    hrecord, hcontent, ?_⟩
  rw [hcontent, ← find?_isSome_iff]
  decide

end ReuleauxCoder.History
