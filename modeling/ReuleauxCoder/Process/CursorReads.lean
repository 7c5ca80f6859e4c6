import ReuleauxCoder.Process.TextBuffer

/-!
# Following a bounded buffer

A reader passes to each read the offset that the read before it returned, while more text is
appended in between.  What it reads, together with what had been trimmed before it came, is the
stream up to its cursor, and every gap is marked on the read that skipped it.
-/

namespace ReuleauxCoder.Process

open PyText Weighted List

/-- The part of a stream between two offsets. -/
def slice (stream : Text) (start stop : ℕ) : Text :=
  (stream.take stop).drop start

theorem take_append_slice (stream : Text) {start stop : ℕ} (hle : start ≤ stop) :
    stream.take start ++ slice stream start stop = stream.take stop := by
  have hsplit := take_append_drop start (stream.take stop)
  rwa [take_take, min_eq_left hle] at hsplit

theorem slice_append_of_le {stream : Text} {stop : ℕ} (hstop : stop ≤ stream.length)
    (start : ℕ) (more : Text) : slice (stream ++ more) start stop = slice stream start stop := by
  rw [slice, slice, take_append_of_le_length hstop]

variable {limit : ℕ}

namespace BoundedTextBuffer

variable {buffer : BoundedTextBuffer} {stream : Text}

/-! ## One read -/

theorem LaidOut.pieces {start : ℕ} {segments : List Segment} (hlaid : LaidOut start segments)
    (offset : ℕ) :
    (((segments.filter fun segment => offset < segment.stop).map fun segment =>
      segment.text.drop (offset - segment.start)).flatten) =
        (joined segments).drop (offset - start) := by
  induction segments generalizing start with
  | nil => simp
  | cons segment rest ih =>
      obtain ⟨hstart, -, -, hrest⟩ := hlaid
      have hpieces := ih hrest
      subst hstart
      rw [joined_cons]
      by_cases hbefore : offset < segment.stop
      · have hnone : offset - segment.stop = 0 := by omega
        have hinside : offset - segment.start ≤ segment.text.length := by
          rw [Segment.stop] at hbefore
          omega
        rw [hnone, drop_zero] at hpieces
        simp only [filter_cons, hbefore, decide_true, if_true, map_cons,
          flatten_cons]
        rw [hpieces, drop_append_of_le_length hinside]
      · have hbehind : segment.text.length ≤ offset - segment.start := by
          rw [Segment.stop] at hbefore
          omega
        have hrest : offset - segment.stop = offset - segment.start - segment.text.length := by
          rw [Segment.stop]
          omega
        simp only [filter_cons, hbefore, decide_false, Bool.false_eq_true, if_false]
        rw [hpieces, hrest, drop_append, drop_of_length_le hbehind, nil_append]

/-- What a read at a cursor returns, in terms of the stream. -/
theorem Refines.readAfter (hrefines : Refines buffer stream) {cursor : ℕ}
    (hcursor : cursor ≤ stream.length) (hlimit : 1 ≤ limit) :
    let start := max cursor buffer.retainedStart
    let text := prefixWithin encodedWidth limit (stream.drop start)
    buffer.readAfter cursor limit = some {
      text
      nextOffset := start + text.length
      truncated := cursor < buffer.retainedStart || text.length < (stream.drop start).length } := by
  have hplace := hrefines.retainedStart_add
  have hlaid := hrefines.laidOut
  have hstart : stream.length - buffer.retained.text.length = buffer.retainedStart := by omega
  rw [hstart] at hlaid
  have hrequested : (min (cursor : ℤ) buffer.nextOffset).toNat = cursor := by
    rw [hrefines.endOffset]
    omega
  have hretained : joined buffer.segments = stream.drop buffer.retainedStart := by
    obtain ⟨trimmed, htrimmed⟩ := hrefines.suffix
    have hlength : trimmed.length = buffer.retainedStart := by
      have hlengths := congrArg List.length htrimmed
      rw [length_append] at hlengths
      omega
    rw [← htrimmed, ← hlength, drop_left]
    rfl
  have hcomplete := hlaid.pieces (max cursor buffer.retainedStart)
  rw [hretained, drop_drop, Nat.add_sub_cancel' (le_max_right _ _)] at hcomplete
  simp only [BoundedTextBuffer.readAfter, if_neg (not_lt.mpr hlimit), hrequested, hcomplete,
    prefixWithinBytes_eq]

end BoundedTextBuffer

/-- Where the longest end of a stream that fits starts: what lies before it has been trimmed. -/
def trimmedTo (maxBytes : ℕ) (stream : Text) : ℕ :=
  stream.length - (suffixWithin encodedWidth maxBytes stream).length

theorem BoundedTextBuffer.Refines.retainedStart_eq {buffer : BoundedTextBuffer} {stream : Text}
    (hrefines : buffer.Refines stream) :
    buffer.retainedStart = trimmedTo buffer.maxBytes stream := by
  have hplace := hrefines.retainedStart_add
  rw [trimmedTo, ← hrefines.retained]
  omega

/-! ## A reader -/

/-- A read that a reader made: its arguments and its result. -/
structure Delivery where
  cursor : ℕ
  limit : ℕ
  read : BufferRead

/-- The offset of the first character of a delivery. -/
def Delivery.start (delivery : Delivery) : ℕ :=
  delivery.read.nextOffset - delivery.read.text.length

structure Follower where
  buffer : BoundedTextBuffer
  cursor : ℕ := 0
  deliveries : List Delivery := []

inductive Access where
  | append (text : Text) (byteCount : Option ℤ)
  | read (limit : ℕ)

def Access.text : Access → Text
  | .append text _ => text
  | .read _ => []

/-- What has been appended. -/
def appended (accesses : List Access) : Text :=
  (accesses.map Access.text).flatten

namespace Follower

def step (follower : Follower) : Access → Follower
  | .append text byteCount =>
      { follower with buffer := follower.buffer.append text byteCount }
  | .read limit =>
      match follower.buffer.readAfter follower.cursor limit with
      | none => follower
      | some read =>
          { follower with
            cursor := read.nextOffset
            deliveries := follower.deliveries ++ [⟨follower.cursor, limit, read⟩] }

def run (follower : Follower) (accesses : List Access) : Follower :=
  accesses.foldl step follower

end Follower

/-! ## What is to be delivered -/

/-- The reads that do not raise, each with what has been appended before it. -/
def readPoints : Text → List Access → List (Text × ℕ)
  | _, [] => []
  | stream, .append text _ :: rest => readPoints (stream ++ text) rest
  | stream, .read limit :: rest =>
      if 1 ≤ limit then (stream, limit) :: readPoints stream rest else readPoints stream rest

/-- A delivery is a piece of the stream so far.  It skips only what had been trimmed, and says so;
it says whether it leaves text unread; and it moves on where there is something to read. -/
structure Exact (maxBytes : ℕ) (stream : Text) (delivery : Delivery) : Prop where
  start_eq : delivery.start = max delivery.cursor (trimmedTo maxBytes stream)
  ordered : delivery.start ≤ delivery.read.nextOffset
  inside : delivery.read.nextOffset ≤ stream.length
  text : delivery.read.text = slice stream delivery.start delivery.read.nextOffset
  flagged : delivery.cursor < delivery.start → delivery.read.truncated = true
  complete : delivery.read.truncated = false → delivery.read.nextOffset = stream.length
  advances : 4 ≤ delivery.limit → delivery.start < stream.length →
    delivery.cursor < delivery.read.nextOffset

/-- The deliveries lead from one cursor to another, each from where the one before it ended. -/
def Chained : ℕ → List Delivery → ℕ → Prop
  | first, [], last => first = last
  | first, delivery :: rest, last =>
      delivery.cursor = first ∧ Chained delivery.read.nextOffset rest last

/-- Every read that does not raise delivers, in order, and the deliveries with the ranges that
they skipped are the stream up to the cursor. -/
structure GapExact (maxBytes : ℕ) (accesses : List Access) (follower : Follower) : Prop where
  delivered : List.Forall₂ (fun point delivery => delivery.limit = point.2 ∧
    Exact maxBytes point.1 delivery) (readPoints [] accesses) follower.deliveries
  chained : Chained 0 follower.deliveries follower.cursor
  /-- No character is delivered twice. -/
  apart : follower.deliveries.Pairwise fun earlier later =>
    earlier.read.nextOffset ≤ later.start
  covers : (appended accesses).take follower.cursor =
    (follower.deliveries.map fun delivery =>
      slice (appended accesses) delivery.cursor delivery.start ++ delivery.read.text).flatten
  /-- Reads that say nothing is missing, up to the end, give the whole stream. -/
  whole : ∀ before limit, accesses = before ++ [.read limit] → 1 ≤ limit →
    (∀ delivery ∈ follower.deliveries, delivery.read.truncated = false) →
      (follower.deliveries.map fun delivery => delivery.read.text).flatten = appended accesses

variable {first last : ℕ}

theorem Chained.append {middle : ℕ} {front back : List Delivery}
    (hfront : Chained first front middle) (hback : Chained middle back last) :
    Chained first (front ++ back) last := by
  induction front generalizing first with
  | nil =>
      cases hfront
      exact hback
  | cons delivery rest ih => exact ⟨hfront.1, ih hfront.2⟩

/-- A delivery whose offsets are in order. -/
def Ordered (delivery : Delivery) : Prop :=
  delivery.cursor ≤ delivery.start ∧ delivery.start ≤ delivery.read.nextOffset

theorem Exact.in_order {maxBytes : ℕ} {stream : Text} {delivery : Delivery}
    (hexact : Exact maxBytes stream delivery) : Ordered delivery :=
  ⟨hexact.start_eq ▸ le_max_left _ _, hexact.ordered⟩

variable {deliveries : List Delivery}

theorem Chained.cursor_le (hchained : Chained first deliveries last)
    (hordered : ∀ delivery ∈ deliveries, Ordered delivery) :
    ∀ delivery ∈ deliveries, first ≤ delivery.start := by
  induction deliveries generalizing first with
  | nil => exact fun _ hdelivery => absurd hdelivery not_mem_nil
  | cons delivery rest ih =>
      obtain ⟨rfl, hrest⟩ := hchained
      obtain ⟨hstart, hnext⟩ := hordered delivery mem_cons_self
      intro later hlater
      rcases mem_cons.mp hlater with rfl | hlater
      · exact hstart
      · have hbehind := ih hrest
          (fun other hother => hordered other (mem_cons_of_mem _ hother)) later hlater
        exact (hstart.trans hnext).trans hbehind

theorem Chained.apart (hchained : Chained first deliveries last)
    (hordered : ∀ delivery ∈ deliveries, Ordered delivery) :
    deliveries.Pairwise fun earlier later => earlier.read.nextOffset ≤ later.start := by
  induction deliveries generalizing first with
  | nil => exact List.Pairwise.nil
  | cons delivery rest ih =>
      obtain ⟨-, hrest⟩ := hchained
      have hothers : ∀ other ∈ rest, Ordered other := fun other hother =>
        hordered other (mem_cons_of_mem _ hother)
      exact pairwise_cons.mpr ⟨hrest.cursor_le hothers, ih hrest hothers⟩

/-! ## Every run -/

theorem readPoints_append (stream : Text) (front back : List Access) :
    readPoints stream (front ++ back) =
      readPoints stream front ++ readPoints (stream ++ appended front) back := by
  induction front generalizing stream with
  | nil => rw [nil_append, readPoints, appended, map_nil, flatten_nil,
      append_nil, nil_append]
  | cons access rest ih =>
      cases access with
      | append text byteCount =>
          rw [cons_append, readPoints, readPoints, ih, append_assoc]
          rfl
      | read limit =>
          rw [cons_append, readPoints, readPoints]
          split
          · rw [ih, cons_append]
            rfl
          · rw [ih]
            rfl

theorem appended_append (front back : List Access) :
    appended (front ++ back) = appended front ++ appended back := by
  rw [appended, map_append, flatten_append]
  rfl

/-- What a run keeps of a follower. -/
structure Follows (maxBytes : ℕ) (accesses : List Access) (follower : Follower) : Prop where
  refines : follower.buffer.Refines (appended accesses)
  limit : follower.buffer.maxBytes = maxBytes
  inside : follower.cursor ≤ (appended accesses).length
  delivered : List.Forall₂ (fun point delivery => delivery.limit = point.2 ∧
    Exact maxBytes point.1 delivery) (readPoints [] accesses) follower.deliveries
  chained : Chained 0 follower.deliveries follower.cursor
  covers : (appended accesses).take follower.cursor =
    (follower.deliveries.map fun delivery =>
      slice (appended accesses) delivery.cursor delivery.start ++ delivery.read.text).flatten

namespace Follows

variable {maxBytes : ℕ} {accesses : List Access} {follower : Follower}

/-- A delivery is exact for what had been appended before its read. -/
theorem exact_of_mem (hfollows : Follows maxBytes accesses follower) {delivery : Delivery}
    (hmem : delivery ∈ follower.deliveries) : ∃ stream, Exact maxBytes stream delivery := by
  have hdelivered := hfollows.delivered
  generalize readPoints [] accesses = points at hdelivered
  generalize follower.deliveries = deliveries at hmem hdelivered
  induction hdelivered with
  | nil => cases hmem
  | cons hfirst _ ih =>
      rcases mem_cons.mp hmem with rfl | hlater
      · exact ⟨_, hfirst.2⟩
      · exact ih hlater

theorem ordered (hfollows : Follows maxBytes accesses follower) :
    ∀ delivery ∈ follower.deliveries, Ordered delivery := by
  intro delivery hmem
  obtain ⟨stream, hexact⟩ := hfollows.exact_of_mem hmem
  exact hexact.in_order

/-- The deliveries end at the cursor. -/
theorem nextOffset_le (hchained : Chained first deliveries last)
    (hordered : ∀ delivery ∈ deliveries, Ordered delivery) :
    first ≤ last ∧ ∀ delivery ∈ deliveries, delivery.read.nextOffset ≤ last := by
  induction deliveries generalizing first with
  | nil =>
      cases hchained
      exact ⟨le_rfl, fun _ hmem => absurd hmem not_mem_nil⟩
  | cons delivery rest ih =>
      obtain ⟨rfl, hrest⟩ := hchained
      obtain ⟨hle, hothers⟩ := ih hrest fun other hother =>
        hordered other (mem_cons_of_mem _ hother)
      obtain ⟨hstart, hnext⟩ := hordered delivery mem_cons_self
      refine ⟨(hstart.trans hnext).trans hle, fun other hmem => ?_⟩
      rcases mem_cons.mp hmem with rfl | hlater
      · exact hle
      · exact hothers other hlater

section

variable (hfollows : Follows maxBytes accesses follower)
include hfollows

theorem append (text : Text)
    (byteCount : Option ℤ) :
    Follows maxBytes (accesses ++ [.append text byteCount])
      (follower.step (.append text byteCount)) := by
  have hstream : appended (accesses ++ [.append text byteCount]) = appended accesses ++ text := by
    rw [appended_append]
    exact congrArg (appended accesses ++ ·) (append_nil text)
  constructor
  case refines =>
    rw [hstream]
    exact hfollows.refines.append text byteCount
  case limit => exact (follower.buffer.append_maxBytes text byteCount).trans hfollows.limit
  case inside =>
    rw [hstream, length_append]
    exact hfollows.inside.trans (Nat.le_add_right _ _)
  case delivered =>
    rw [readPoints_append, readPoints, readPoints, append_nil]
    exact hfollows.delivered
  case chained => exact hfollows.chained
  case covers =>
    change List.take follower.cursor _ = _
    rw [hstream, take_append_of_le_length hfollows.inside, hfollows.covers]
    congr 1
    refine map_congr_left fun delivery hmem => ?_
    obtain ⟨hstart, hnext⟩ := hfollows.ordered delivery hmem
    have hlast := (nextOffset_le hfollows.chained hfollows.ordered).2 delivery hmem
    rw [slice_append_of_le ((hnext.trans hlast).trans hfollows.inside)]

/-- A read with a limit delivers, exactly. -/
theorem exists_read (hlimit : 1 ≤ limit) :
    ∃ read, follower.buffer.readAfter follower.cursor limit = some read ∧
      Exact maxBytes (appended accesses) ⟨follower.cursor, limit, read⟩ := by
  have hplace := hfollows.refines.retainedStart_add
  have htrimmed := hfollows.refines.retainedStart_eq
  have hcursor := hfollows.inside
  rw [hfollows.limit] at htrimmed
  refine ⟨_, hfollows.refines.readAfter hcursor hlimit, ?_⟩
  generalize appended accesses = stream at *
  generalize hstart : max follower.cursor follower.buffer.retainedStart = start
  have hbegins : prefixWithin encodedWidth limit (stream.drop start) <+: stream.drop start :=
    prefixWithin_prefix limit (stream.drop start)
  have hlength := hbegins.length_le
  rw [length_drop] at hlength
  have hfirst : Delivery.start ⟨follower.cursor, limit,
      { text := prefixWithin encodedWidth limit (stream.drop start)
        nextOffset := start + (prefixWithin encodedWidth limit (stream.drop start)).length
        truncated := follower.cursor < follower.buffer.retainedStart ||
          (prefixWithin encodedWidth limit (stream.drop start)).length <
            (stream.drop start).length }⟩ = start := Nat.add_sub_cancel _ _
  constructor
  case start_eq => rw [hfirst, ← hstart, htrimmed]
  case ordered =>
    rw [hfirst]
    exact Nat.le_add_right _ _
  case inside =>
    dsimp only
    omega
  case text =>
    rw [hfirst, slice, drop_take, Nat.add_sub_cancel_left]
    exact prefix_iff_eq_take.mp hbegins
  case flagged =>
    intro hskipped
    rw [hfirst] at hskipped
    have hbehind : follower.cursor < follower.buffer.retainedStart := by
      dsimp only at hskipped
      omega
    simp [hbehind]
  case complete =>
    intro hnone
    simp only [Bool.or_eq_false_iff, decide_eq_false_iff_not, not_lt, length_drop] at hnone
    dsimp only
    omega
  case advances =>
    intro hlarge hunread
    rw [hfirst] at hunread
    have hsome : stream.drop start ≠ [] := by
      rw [← length_pos_iff, length_drop]
      exact Nat.sub_pos_of_lt hunread
    have htext := length_pos_iff.mpr (prefixWithin_ne_nil encodedWidth_le hlarge hsome)
    calc follower.cursor ≤ start := (le_max_left _ _).trans_eq hstart
      _ < start + (prefixWithin encodedWidth limit (stream.drop start)).length :=
        Nat.lt_add_of_pos_right htext

theorem read (limit : ℕ) :
    Follows maxBytes (accesses ++ [.read limit]) (follower.step (.read limit)) := by
  have hstream : appended (accesses ++ [.read limit]) = appended accesses := by
    rw [appended_append]
    exact append_nil _
  by_cases hlimit : 1 ≤ limit
  · obtain ⟨read, hread, hexact⟩ := hfollows.exists_read hlimit
    have hnext : Chained follower.cursor [⟨follower.cursor, limit, read⟩] read.nextOffset :=
      ⟨rfl, rfl⟩
    rw [Follower.step, hread]
    constructor
    case refines =>
      rw [hstream]
      exact hfollows.refines
    case limit => exact hfollows.limit
    case inside =>
      rw [hstream]
      exact hexact.inside
    case delivered =>
      rw [readPoints_append, readPoints, if_pos hlimit, readPoints, nil_append]
      exact rel_append hfollows.delivered (.cons ⟨rfl, hexact⟩ .nil)
    case chained => exact hfollows.chained.append hnext
    case covers =>
      obtain ⟨hstart, hordered⟩ := hexact.in_order
      have htext := hexact.text
      rw [hstream, map_append, flatten_append, ← hfollows.covers, map_singleton,
        flatten_singleton]
      dsimp only at hstart hordered htext ⊢
      rw [htext, ← append_assoc, take_append_slice _ hstart, take_append_slice _ hordered]
  · have hread : follower.buffer.readAfter follower.cursor limit = none := by
      rw [BoundedTextBuffer.readAfter, if_pos (not_le.mp hlimit)]
    rw [Follower.step, hread]
    constructor
    case refines =>
      rw [hstream]
      exact hfollows.refines
    case limit => exact hfollows.limit
    case inside =>
      rw [hstream]
      exact hfollows.inside
    case delivered =>
      rw [readPoints_append, readPoints, if_neg hlimit, readPoints, append_nil]
      exact hfollows.delivered
    case chained => exact hfollows.chained
    case covers =>
      rw [hstream]
      exact hfollows.covers

/-- A write or a read keeps the follower on its stream: what it was given and what its reads were
told is missing make up all that lies before its cursor. -/
theorem step (access : Access) :
    Follows maxBytes (accesses ++ [access]) (follower.step access) := by
  cases access with
  | append text byteCount => exact hfollows.append text byteCount
  | read limit => exact hfollows.read limit

theorem run (more : List Access) :
    Follows maxBytes (accesses ++ more) (follower.run more) := by
  induction more generalizing accesses follower with
  | nil =>
      rw [append_nil]
      exact hfollows
  | cons access rest ih =>
      rw [← singleton_append, ← append_assoc]
      exact ih (hfollows.step access)

/-- Reads that are not flagged skip nothing. -/
theorem texts_eq
    (hunflagged : ∀ delivery ∈ follower.deliveries, delivery.read.truncated = false) :
    (follower.deliveries.map fun delivery => delivery.read.text).flatten =
      (appended accesses).take follower.cursor := by
  rw [hfollows.covers]
  congr 1
  refine map_congr_left fun delivery hmem => ?_
  obtain ⟨stream, hexact⟩ := hfollows.exact_of_mem hmem
  have hsame : delivery.start ≤ delivery.cursor := by
    by_contra hskipped
    have hflagged := hexact.flagged (not_le.mp hskipped)
    rw [hunflagged delivery hmem] at hflagged
    cases hflagged
  have hnone : slice (appended accesses) delivery.cursor delivery.start = [] := by
    rw [slice, drop_eq_nil_iff, length_take]
    exact (min_le_left _ _).trans hsame
  rw [hnone, nil_append]

/-- A last read that is not flagged reaches the end. -/
theorem cursor_eq (hlimit : 1 ≤ limit)
    (hunflagged : ∀ delivery ∈ (follower.step (.read limit)).deliveries,
      delivery.read.truncated = false) :
    (follower.step (.read limit)).cursor = (appended accesses).length := by
  obtain ⟨read, hread, hexact⟩ := hfollows.exists_read hlimit
  rw [Follower.step, hread] at hunflagged ⊢
  exact hexact.complete (hunflagged _ (mem_append_right _ (mem_singleton_self _)))

end

end Follows

/-- By induction from the last access, since the stream grows at its end. -/
theorem follows_run {maxBytes : ℕ} {buffer : BoundedTextBuffer}
    (hcreate : BoundedTextBuffer.create maxBytes = some buffer) (accesses : List Access) :
    Follows maxBytes accesses (Follower.run { buffer } accesses) := by
  obtain ⟨hrefines, hlimit⟩ := BoundedTextBuffer.Refines.of_create hcreate
  have hfresh : Follows maxBytes [] { buffer } := ⟨hrefines, hlimit, le_rfl, .nil, rfl, rfl⟩
  exact hfresh.run accesses

/-- In every interleaving of appends and reads, each read of a reader that passes on its cursor
delivers a piece of the stream so far: the pieces follow each other, they skip only what had been
trimmed before, which is flagged, and reads without a flag give the whole stream. -/
theorem run_gapExact {maxBytes : ℕ} {buffer : BoundedTextBuffer}
    (hcreate : BoundedTextBuffer.create maxBytes = some buffer) (accesses : List Access) :
    GapExact maxBytes accesses (Follower.run { buffer } accesses) := by
  have hfollows := follows_run hcreate accesses
  refine ⟨hfollows.delivered, hfollows.chained, hfollows.chained.apart hfollows.ordered,
    hfollows.covers, ?_⟩
  intro before limit haccesses hlimit hunflagged
  have hend : (Follower.run { buffer } accesses).cursor = (appended accesses).length := by
    have hstream : appended accesses = appended before := by
      rw [haccesses, appended_append]
      exact append_nil _
    have hrun : Follower.run { buffer } accesses =
        (Follower.run { buffer } before).step (.read limit) := by
      rw [haccesses, Follower.run, foldl_append]
      rfl
    rw [hrun] at hunflagged ⊢
    rw [hstream]
    exact (follows_run hcreate before).cursor_eq hlimit hunflagged
  rw [hfollows.texts_eq hunflagged, hend, take_length]

/-- A reader of a four byte buffer that comes after two bytes were trimmed. -/
theorem run_gapExact_trimmed :
    let accesses := [.append (lit "abcdef") none, .read 4, .append (lit "g") none, .read 4]
    let follower := Follower.run { buffer := ⟨4, by decide, [], 0, 0, 0, false⟩ } accesses
    follower.deliveries.map (fun delivery => (delivery.read.text, delivery.read.truncated)) =
        [(lit "cdef", true), (lit "g", false)] ∧ GapExact 4 accesses follower := by
  have hcreate : BoundedTextBuffer.create 4 = some ⟨4, by decide, [], 0, 0, 0, false⟩ := rfl
  exact ⟨by decide, run_gapExact hcreate
    [.append (lit "abcdef") none, .read 4, .append (lit "g") none, .read 4]⟩

end ReuleauxCoder.Process
