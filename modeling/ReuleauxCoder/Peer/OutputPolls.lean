import ReuleauxCoder.Library.ByteLiterals
import ReuleauxCoder.Peer.OutputBuffer

/-!
# Polling a process stream

A reader passes to each poll the offset that the poll before it returned, while the stream is
written in pieces that can end inside a character.  As long as the process runs, a page ends
between two characters.  After it has exited a page ends where the limit says, and the pages
are exact where that is between two characters, too.
-/

namespace ReuleauxCoder.Peer

open PyText Runes List
open scoped ByteLiterals

theorem consumableUTF8Prefix_begun {front part : List Byte} (hfront : AllRunes front)
    (hpart : Begun part) : consumableUTF8Prefix (front ++ part) false = front.length := by
  induction hfront with
  | nil =>
      rw [nil_append, consumableUTF8Prefix, hpart.fullRune]
      split <;> rfl
  | cons hrune hrest ih =>
      rename_i rune rest
      rw [append_assoc, consumableUTF8Prefix, if_neg (by simp [hrune.ne_nil]),
        hrune.fullRune_append, hrune.runeWidth_append, drop_left, ih]
      simp only [Bool.not_true, Bool.false_eq_true, if_false, length_append]

theorem consumableUTF8Prefix_final (data : List Byte) :
    consumableUTF8Prefix data true = data.length := by
  fun_induction consumableUTF8Prefix data true with
  | case1 => rfl
  | case2 => rfl
  | case3 => contradiction
  | case4 data hsome hfull ih =>
      have hwidth := runeWidth_le data
      rw [ih, length_drop]
      omega

namespace BoundedBuffer

/-! ## What is retained -/

/-- The buffer retains an end of what was written, all of it or the most that it may. -/
structure Retains (buffer : BoundedBuffer) (written : List Byte) : Prop where
  data : buffer.data = written.drop buffer.startOffset
  inside : buffer.startOffset ≤ written.length
  nextOffset : buffer.nextOffset = written.length
  totalBytes : buffer.totalBytes = written.length
  truncated : buffer.truncated = true ↔ 0 < buffer.startOffset
  full : 0 < buffer.startOffset →
    written.length = buffer.startOffset + maxRetainedBytesPerStream

namespace Retains

variable {buffer : BoundedBuffer} {written : List Byte}

theorem empty : Retains {} [] where
  data := rfl
  inside := le_rfl
  nextOffset := rfl
  totalBytes := rfl
  truncated := by simp
  full := fun hpositive => absurd hpositive (Nat.lt_irrefl 0)

section

variable (hretains : Retains buffer written)
include hretains

theorem write (bytes : List Byte) :
    Retains (buffer.write bytes) (written ++ bytes) := by
  obtain ⟨hdata, hinside, hnext, htotal, htruncated, hfull⟩ := hretains
  have hwhole : buffer.data ++ bytes = (written ++ bytes).drop buffer.startOffset := by
    rw [hdata, drop_append_of_le_length hinside]
  have hlength : (buffer.data ++ bytes).length + buffer.startOffset =
      written.length + bytes.length := by
    rw [hwhole, length_drop, length_append]
    omega
  have hwritten : (written ++ bytes).length = written.length + bytes.length :=
    length_append
  rw [BoundedBuffer.write]
  split
  next hlong =>
    constructor
    · dsimp only
      rw [hwhole, drop_drop]
    · dsimp only
      omega
    · dsimp only
      omega
    · dsimp only
      omega
    · dsimp only
      exact iff_of_true rfl (by omega)
    · intro hpositive
      dsimp only
      omega
  next hshort =>
    constructor
    · exact hwhole
    · dsimp only
      omega
    · dsimp only
      omega
    · dsimp only
      omega
    · exact htruncated
    · intro hpositive
      have hmost := hfull hpositive
      dsimp only at hpositive ⊢
      omega

/-! ## Where a page starts -/

theorem requested_eq {cursor : ℕ}
    (hcursor : cursor ≤ written.length) :
    buffer.requested cursor = max cursor buffer.startOffset := by
  have hinside := hretains.inside
  rw [requested, hretains.nextOffset]
  omega

/-- A page starts at the cursor, or behind the rest of a rune that was trimmed. -/
theorem pageStart_eq {cursor : ℕ}
    (hcursor : cursor ≤ written.length) :
    buffer.pageStart cursor = max cursor buffer.startOffset +
      if 0 < buffer.startOffset then
        ((written.drop (max cursor buffer.startOffset)).takeWhile isTail).length
      else 0 := by
  have hinside := hretains.inside
  have hrequested := hretains.requested_eq hcursor
  have hdata : buffer.data.drop (buffer.requested cursor - buffer.startOffset) =
      written.drop (max cursor buffer.startOffset) := by
    rw [hretains.data, drop_drop, hrequested]
    congr 1
    omega
  have hskips : (buffer.truncated || decide ((cursor : ℤ) < buffer.startOffset)) = true ↔
      0 < buffer.startOffset := by
    rw [Bool.or_eq_true, hretains.truncated, decide_eq_true_iff]
    omega
  rw [pageStart, skipped, hdata, hrequested]
  simp only [hskips]

theorem available_eq {cursor : ℕ}
    (hcursor : cursor ≤ written.length) :
    buffer.available cursor = written.drop (buffer.pageStart cursor) := by
  have hinside := hretains.inside
  have hstart := hretains.pageStart_eq hcursor
  rw [available, hretains.data, drop_drop]
  congr 1
  omega

/-- A page starts between two runes, and skips only what was trimmed. -/
theorem pageStart_whole {unwritten : List Byte} {cursor : ℕ}
    (hstream : AllRunes (written ++ unwritten)) (hcursor : cursor ≤ written.length)
    (hwhole : AllRunes ((written ++ unwritten).take cursor)) :
    let start := buffer.pageStart cursor
    cursor ≤ start ∧ start ≤ written.length ∧ AllRunes ((written ++ unwritten).take start) ∧
      (start ≠ cursor → cursor < buffer.startOffset ∧ start < buffer.startOffset + 4) := by
  have hinside := hretains.inside
  have hstart := hretains.pageStart_eq hcursor
  dsimp only
  by_cases hpositive : 0 < buffer.startOffset
  · rw [if_pos hpositive] at hstart
    have hfull := hretains.full hpositive
    have hbehind (place : ℕ) (hplace : place ≤ written.length) :
        written.drop place ++ unwritten = (written ++ unwritten).drop place :=
      (drop_append_of_le_length hplace).symm
    have hsplit (place : ℕ) := (take_append_drop place (written ++ unwritten)).symm
    by_cases hretained : buffer.startOffset ≤ cursor
    · have hrunes : AllRunes ((written ++ unwritten).drop cursor) :=
        hwhole.of_append (hsplit cursor ▸ hstream)
      have hnone : (written.drop cursor).takeWhile isTail = [] := by
        rw [takeWhile_isTail_append, hbehind cursor hcursor]
        · exact hrunes.takeWhile_isTail
        · exact .inr (hbehind cursor hcursor ▸ hrunes.takeWhile_isTail)
      rw [max_eq_left hretained, hnone, length_nil, Nat.add_zero] at hstart
      rw [hstart]
      exact ⟨le_rfl, hcursor, hwhole, fun hne => absurd rfl hne⟩
    · obtain ⟨hshort, -, hbefore⟩ := (hstream.cut (hsplit buffer.startOffset)).skip
      have htails : (written.drop buffer.startOffset).takeWhile isTail =
          ((written ++ unwritten).drop buffer.startOffset).takeWhile isTail := by
        rw [takeWhile_isTail_append, hbehind _ hinside]
        apply Or.inl
        rw [hbehind _ hinside, length_drop, hfull, Nat.add_sub_cancel_left]
        exact Nat.lt_of_le_of_lt hshort (by decide)
      rw [max_eq_right (by omega), htails] at hstart
      have htake : (written ++ unwritten).take (buffer.pageStart cursor) =
          (written ++ unwritten).take buffer.startOffset ++
            ((written ++ unwritten).drop buffer.startOffset).takeWhile isTail := by
        rw [hstart, take_add]
        congr 1
        exact (prefix_iff_eq_take.mp (List.takeWhile_prefix isTail)).symm
      have hmost : 4 ≤ maxRetainedBytesPerStream := by decide
      rw [htake]
      refine ⟨by omega, by omega, hbefore, fun _ => by omega⟩
  · rw [if_neg hpositive] at hstart
    have hsame : buffer.pageStart cursor = cursor := by omega
    rw [hsame]
    exact ⟨le_rfl, hcursor, hwhole, fun hne => absurd rfl hne⟩

end

end Retains

end BoundedBuffer

/-! ## One poll -/

/-- The part of a stream between two offsets. -/
def between (stream : List Byte) (start stop : ℕ) : List Byte :=
  (stream.take stop).drop start

/-- A poll that was made: its cursor, the offsets of the buffer then, and its result. -/
structure Poll where
  cursor : ℕ
  retainedStart : ℕ
  start : ℕ
  final : Bool
  snapshot : BufferSnapshot

/-- A poll returns characters of the stream behind its cursor, and skips only what was trimmed
before, which it says. -/
structure Exact (stream : List Byte) (poll : Poll) : Prop where
  inside : poll.snapshot.nextOffset ≤ stream.length
  cursor_le : poll.cursor ≤ poll.start
  ordered : poll.start ≤ poll.snapshot.nextOffset
  data : poll.snapshot.data = between stream poll.start poll.snapshot.nextOffset
  valid : valid poll.snapshot.data = true
  kept : poll.snapshot.decodeReplaced = false
  dropped : poll.cursor < poll.start →
    poll.cursor < poll.retainedStart ∧ poll.start < poll.retainedStart + 4 ∧
      poll.snapshot.truncated = true

def BoundedBuffer.poll (buffer : BoundedBuffer) (cursor : ℕ) (final : Bool) : Poll where
  cursor := cursor
  retainedStart := buffer.startOffset
  start := buffer.pageStart cursor
  final := final
  snapshot := buffer.snapshot cursor maxPollBytesPerStream final

/-- A final page that the limit cuts is cut before a byte that begins a character. -/
def CutWhole (buffer : BoundedBuffer) (cursor : ℕ) (final : Bool) : Prop :=
  final = true →
    ∀ b ∈ (buffer.available cursor)[maxPollBytesPerStream]?, runeStart b = true

theorem cutWhole_of_short {buffer : BoundedBuffer}
    (hshort : buffer.data.length ≤ maxPollBytesPerStream) (cursor : ℕ) (final : Bool) :
    CutWhole buffer cursor final := by
  intro _ b hb
  have hnone : (buffer.available cursor)[maxPollBytesPerStream]? = none := by
    apply getElem?_eq_none
    rw [BoundedBuffer.available, length_drop]
    omega
  rw [hnone] at hb
  cases hb

section OnePoll

variable {buffer : BoundedBuffer} {written unwritten : List Byte} {cursor : ℕ}

/-- The bytes that a page returns: whole runes behind its start. -/
theorem exists_page (hretains : buffer.Retains written)
    (hstream : AllRunes (written ++ unwritten)) (hcursor : cursor ≤ written.length)
    (hwhole : AllRunes ((written ++ unwritten).take cursor)) {final : Bool}
    (hfinal : final = true → unwritten = []) (hcut : CutWhole buffer cursor final) :
    ∃ page, AllRunes page ∧
      page <+: written.drop (buffer.pageStart cursor) ∧
      (buffer.snapshot cursor maxPollBytesPerStream final).data = page := by
  obtain ⟨-, hinside, hbefore, -⟩ := hretains.pageStart_whole hstream hcursor hwhole
  have havailable := hretains.available_eq hcursor
  let rest := written.drop (buffer.pageStart cursor)
  have hrest : AllRunes (rest ++ unwritten) := by
    rw [← drop_append_of_le_length hinside]
    apply hbefore.of_append
    rwa [take_append_drop]
  have hlimited : Cut (rest.take maxPollBytesPerStream)
      (rest.drop maxPollBytesPerStream ++ unwritten) := by
    apply hrest.cut
    rw [← append_assoc, take_append_drop]
  cases final with
  | true =>
      have hends : ∀ b ∈ (rest.drop maxPollBytesPerStream ++ unwritten).head?,
          runeStart b = true := by
        have hpage := hcut rfl
        rw [havailable] at hpage
        rw [hfinal rfl, append_nil, head?_drop]
        exact hpage
      refine ⟨rest.take maxPollBytesPerStream, (hlimited.between hends).1, List.take_prefix _ _,
        ?_⟩
      rw [BoundedBuffer.snapshot, havailable, consumableUTF8Prefix_final]
      exact take_length
  | false =>
      obtain ⟨front, part, hsplit, hfront, hpart, -, -⟩ := hlimited.begun
      refine ⟨front, hfront, ?_, ?_⟩
      · exact (prefix_append front part).trans (hsplit ▸ List.take_prefix _ _)
      · rw [BoundedBuffer.snapshot, havailable]
        dsimp only
        rw [hsplit, consumableUTF8Prefix_begun hfront hpart, take_left]

/-- A poll at a cursor between two characters is exact, and leaves its cursor between two. -/
theorem exact_poll (hretains : buffer.Retains written)
    (hstream : AllRunes (written ++ unwritten)) (hcursor : cursor ≤ written.length)
    (hwhole : AllRunes ((written ++ unwritten).take cursor)) {final : Bool}
    (hfinal : final = true → unwritten = []) (hcut : CutWhole buffer cursor final) :
    Exact (written ++ unwritten) (buffer.poll cursor final) ∧
      (buffer.poll cursor final).snapshot.nextOffset ≤ written.length ∧
      AllRunes ((written ++ unwritten).take (buffer.poll cursor final).snapshot.nextOffset) := by
  obtain ⟨hle, hinside, hbefore, hdropped⟩ := hretains.pageStart_whole hstream hcursor hwhole
  obtain ⟨page, hpage, ⟨more, hmore⟩, hdata⟩ :=
    exists_page hretains hstream hcursor hwhole hfinal hcut
  have hnext : (buffer.poll cursor final).snapshot.nextOffset =
      buffer.pageStart cursor + page.length := by
    rw [← hdata]
    rfl
  have hlength := congrArg List.length hmore
  rw [length_append, length_drop] at hlength
  obtain ⟨before, hstart, hsplit⟩ : ∃ before : List Byte, before.length = buffer.pageStart cursor ∧
      written ++ unwritten = before ++ page ++ (more ++ unwritten) := by
    refine ⟨written.take (buffer.pageStart cursor), length_take_of_le hinside, ?_⟩
    rw [← append_assoc, append_assoc _ page more, hmore, take_append_drop]
  rw [hsplit, ← hstart, append_assoc, take_left] at hbefore
  have htake : (before ++ page ++ (more ++ unwritten)).take (before.length + page.length) =
      before ++ page := by
    rw [← length_append, take_left]
  refine ⟨⟨?_, hle, ?_, ?_, ?_, ?_, fun hskipped => ?_⟩, ?_, ?_⟩
  · rw [hnext, length_append]
    omega
  · rw [hnext]
    exact Nat.le_add_right _ _
  · rw [hnext, between]
    change (buffer.snapshot cursor maxPollBytesPerStream final).data = _
    rw [hdata, hsplit]
    change page = (List.take (buffer.pageStart cursor + page.length) _).drop
      (buffer.pageStart cursor)
    rw [← hstart, htake, drop_left]
  · change Runes.valid (buffer.snapshot cursor maxPollBytesPerStream final).data = true
    rw [hdata, valid_iff]
    exact hpage
  · change (!Runes.valid (buffer.snapshot cursor maxPollBytesPerStream final).data) = false
    rw [hdata, valid_iff.mpr hpage]
    rfl
  · obtain ⟨hbehind, hnear⟩ := hdropped (Nat.ne_of_gt hskipped)
    refine ⟨hbehind, hnear, ?_⟩
    change (buffer.truncated || decide ((cursor : ℤ) < buffer.startOffset) || _) = true
    rw [decide_eq_true (by omega : (cursor : ℤ) < buffer.startOffset), Bool.or_true,
      Bool.true_or]
  · rw [hnext]
    omega
  · rw [hnext, hsplit, ← hstart, htake]
    exact hbefore.append hpage

end OnePoll

/-! ## A reader -/

/-- A stream that is still being written, and its reader. -/
structure Reader where
  unwritten : List Byte
  buffer : BoundedBuffer := {}
  cursor : ℕ := 0
  exited : Bool := false
  polls : List Poll := []

/-- The next bytes are written, the process exits when all of them are, or it is polled. -/
inductive Event where
  | write (count : ℕ)
  | exit
  | poll
  deriving DecidableEq

namespace Reader

def step (reader : Reader) : Event → Reader
  | .write count =>
      { reader with
        unwritten := reader.unwritten.drop count
        buffer := reader.buffer.write (reader.unwritten.take count) }
  | .exit => if reader.unwritten = [] then { reader with exited := true } else reader
  | .poll =>
      let poll := reader.buffer.poll reader.cursor reader.exited
      { reader with
        cursor := poll.snapshot.nextOffset
        polls := reader.polls ++ [poll] }

def run (reader : Reader) (events : List Event) : Reader :=
  events.foldl step reader

def start (stream : List Byte) : Reader where
  unwritten := stream

/-- No poll after the exit is cut inside a character. -/
def CutsWhole : Reader → List Event → Prop
  | _, [] => True
  | reader, event :: rest =>
      (event = .poll → CutWhole reader.buffer reader.cursor reader.exited) ∧
        CutsWhole (reader.step event) rest

end Reader

/-- The polls that a reader made are exact, they return no byte twice, and with what had been
dropped before they came they make the stream up to the cursor. -/
structure Polled (stream : List Byte) (reader : Reader) : Prop where
  exact : ∀ poll ∈ reader.polls, Exact stream poll
  apart : reader.polls.Pairwise fun earlier later => earlier.snapshot.nextOffset ≤ later.start
  behind : ∀ poll ∈ reader.polls, poll.snapshot.nextOffset ≤ reader.cursor
  covers : stream.take reader.cursor =
    (reader.polls.map fun poll =>
      between stream poll.cursor poll.start ++ poll.snapshot.data).flatten

/-- What a run keeps of a reader. -/
structure Follows (stream : List Byte) (reader : Reader) : Prop where
  written : ∃ written, stream = written ++ reader.unwritten ∧ reader.buffer.Retains written ∧
    reader.cursor ≤ written.length
  whole : AllRunes (stream.take reader.cursor)
  exited : reader.exited = true → reader.unwritten = []
  polled : Polled stream reader

theorem take_append_between (stream : List Byte) {start stop : ℕ} (hle : start ≤ stop) :
    stream.take start ++ between stream start stop = stream.take stop := by
  have hsplit := take_append_drop start (stream.take stop)
  rwa [take_take, min_eq_left hle] at hsplit

namespace Polled

variable {stream : List Byte} {reader : Reader}

/-- One more exact poll from the cursor on. -/
theorem snoc (hpolled : Polled stream reader) {poll : Poll} (hexact : Exact stream poll)
    (hcursor : poll.cursor = reader.cursor) :
    Polled stream
      { reader with
        cursor := poll.snapshot.nextOffset
        polls := reader.polls ++ [poll] } := by
  obtain ⟨hall, hapart, hbehind, hcovers⟩ := hpolled
  have hle := hexact.cursor_le
  have hordered := hexact.ordered
  constructor
  case exact =>
    intro other hother
    cases mem_append.mp hother with
    | inl hearlier => exact hall other hearlier
    | inr hlast =>
        cases mem_singleton.mp hlast
        exact hexact
  case apart =>
    refine pairwise_append.mpr ⟨hapart, pairwise_singleton _ _, ?_⟩
    intro earlier hearlier later hlater
    cases mem_singleton.mp hlater
    exact (hbehind earlier hearlier).trans (hcursor ▸ hle)
  case behind =>
    intro other hother
    dsimp only
    cases mem_append.mp hother with
    | inl hearlier =>
        have hbefore := hbehind other hearlier
        omega
    | inr hlast =>
        cases mem_singleton.mp hlast
        exact le_rfl
  case covers =>
    dsimp only
    rw [map_append, flatten_append, ← hcovers, map_singleton,
      flatten_singleton, ← append_assoc, ← hcursor,
      take_append_between stream hle, hexact.data, take_append_between stream hordered]

end Polled

namespace Follows

variable {stream : List Byte} {reader : Reader}

theorem start (stream : List Byte) : Follows stream (Reader.start stream) where
  written := ⟨[], rfl, BoundedBuffer.Retains.empty, le_rfl⟩
  whole := .nil
  exited := fun hexited => by cases hexited
  polled := by
    constructor
    · exact fun poll hpoll => absurd hpoll not_mem_nil
    · exact List.Pairwise.nil
    · exact fun poll hpoll => absurd hpoll not_mem_nil
    · rfl

/-- A write, an exit or a poll that cuts no character keeps the reader on its stream. -/
theorem step (hstream : AllRunes stream) (hfollows : Follows stream reader) (event : Event)
    (hcut : event = .poll → CutWhole reader.buffer reader.cursor reader.exited) :
    Follows stream (reader.step event) := by
  obtain ⟨⟨written, hwritten, hretains, hcursor⟩, hwhole, hexited, hpolled⟩ := hfollows
  cases event with
  | write count =>
      refine ⟨⟨written ++ reader.unwritten.take count, ?_, hretains.write _, ?_⟩, hwhole, ?_,
        ⟨hpolled.exact, hpolled.apart, hpolled.behind, hpolled.covers⟩⟩
      · rw [hwritten, append_assoc]
        exact congrArg _ (take_append_drop count reader.unwritten).symm
      · rw [length_append]
        exact hcursor.trans (Nat.le_add_right _ _)
      · intro hdone
        change reader.unwritten.drop count = []
        rw [hexited hdone, drop_nil]
  | exit =>
      rw [Reader.step]
      split
      next hall =>
        exact ⟨⟨written, hwritten, hretains, hcursor⟩, hwhole, fun _ => hall,
          ⟨hpolled.exact, hpolled.apart, hpolled.behind, hpolled.covers⟩⟩
      next => exact ⟨⟨written, hwritten, hretains, hcursor⟩, hwhole, hexited, hpolled⟩
  | poll =>
      rw [hwritten] at hstream hwhole
      obtain ⟨hexact, hnext, hafter⟩ :=
        exact_poll hretains hstream hcursor hwhole hexited (hcut rfl)
      rw [← hwritten] at hexact hafter
      exact ⟨⟨written, hwritten, hretains, hnext⟩, hafter, hexited, hpolled.snoc hexact rfl⟩

/-- By induction on the events; each poll has to cut between characters. -/
theorem run (hstream : AllRunes stream) (hfollows : Follows stream reader) (events : List Event)
    (hcuts : reader.CutsWhole events) : Follows stream (reader.run events) := by
  induction events generalizing reader with
  | nil => exact hfollows
  | cons event rest ih => exact ih (hfollows.step hstream event hcuts.1) hcuts.2

end Follows

/-! ## Reaching the end -/

theorem data_final {buffer : BoundedBuffer} {stream : List Byte} {cursor : ℕ}
    (hretains : buffer.Retains stream) (hcursor : cursor ≤ stream.length) :
    (buffer.poll cursor true).snapshot.data =
      (stream.drop (buffer.pageStart cursor)).take maxPollBytesPerStream := by
  rw [BoundedBuffer.poll, BoundedBuffer.snapshot, hretains.available_eq hcursor,
    consumableUTF8Prefix_final]
  exact take_length

/-- A poll after the exit returns a whole page, or all that is left. -/
theorem nextOffset_final {buffer : BoundedBuffer} {stream : List Byte} {cursor : ℕ}
    (hretains : buffer.Retains stream) (hcursor : cursor ≤ stream.length) :
    min (cursor + maxPollBytesPerStream) stream.length ≤
        (buffer.poll cursor true).snapshot.nextOffset ∧
      (buffer.poll cursor true).snapshot.nextOffset ≤ stream.length := by
  have hinside := hretains.inside
  have hstart := hretains.pageStart_eq hcursor
  have hskip : ((stream.drop (max cursor buffer.startOffset)).takeWhile isTail).length ≤
      stream.length - max cursor buffer.startOffset := by
    rw [← length_drop]
    exact (List.takeWhile_prefix isTail).length_le
  have hpage : cursor ≤ buffer.pageStart cursor ∧ buffer.pageStart cursor ≤ stream.length := by
    rw [hstart]
    split <;> omega
  have hnext : (buffer.poll cursor true).snapshot.nextOffset = buffer.pageStart cursor +
      min maxPollBytesPerStream (stream.length - buffer.pageStart cursor) := by
    rw [← length_drop, ← length_take, ← data_final hretains hcursor]
    rfl
  omega

namespace Reader

/-- After the exit, enough polls reach the end of the stream. -/
theorem run_polls {reader : Reader} {stream : List Byte} (hretains : reader.buffer.Retains stream)
    (hexited : reader.exited = true) (hcursor : reader.cursor ≤ stream.length) {count : ℕ}
    (hcount : stream.length ≤ reader.cursor + count * maxPollBytesPerStream) :
    (reader.run (List.replicate count .poll)).cursor = stream.length := by
  induction count generalizing reader with
  | zero =>
      change reader.cursor = stream.length
      omega
  | succ count ih =>
      obtain ⟨hlow, hhigh⟩ := nextOffset_final hretains hcursor
      have hstep : (reader.step .poll).cursor =
          (reader.buffer.poll reader.cursor true).snapshot.nextOffset := by
        rw [← hexited]
        rfl
      have hstill : (reader.step .poll).buffer.Retains stream := hretains
      have hdone : (reader.step .poll).exited = true := hexited
      change ((reader.step .poll).run (List.replicate count .poll)).cursor = stream.length
      apply ih hstill hdone
      · rw [hstep]
        exact hhigh
      · rw [hstep]
        rw [Nat.succ_mul] at hcount
        omega

end Reader

/-- A stream of whole characters that is written in any pieces and polled at any times, before
and after the exit, is read exactly if no poll after the exit is cut inside a character.  After
the exit every run of enough polls reaches the end. -/
theorem polls_exact (stream : List Byte) (hvalid : valid stream = true) (events : List Event)
    (hcuts : (Reader.start stream).CutsWhole events) :
    let reader := (Reader.start stream).run events
    Polled stream reader ∧
      (reader.exited = true → ∀ count, stream.length ≤ count * maxPollBytesPerStream →
        (reader.run (List.replicate count .poll)).cursor = stream.length) := by
  have hfollows := (Follows.start stream).run (valid_iff.mp hvalid) events hcuts
  refine ⟨hfollows.polled, fun hexited count hcount => ?_⟩
  obtain ⟨written, hwritten, hretains, hcursor⟩ := hfollows.written
  rw [hfollows.exited hexited, append_nil] at hwritten
  rw [← hwritten] at hretains hcursor
  exact Reader.run_polls hretains hexited hcursor (by omega)

theorem polls_exact_split :
    valid [0xE4, 0xBD, 0xA0] = true ∧
      (Reader.start [0xE4, 0xBD, 0xA0]).CutsWhole [.write 2, .poll, .write 1, .exit, .poll] ∧
      Polled [0xE4, 0xBD, 0xA0] ((Reader.start [0xE4, 0xBD, 0xA0]).run
        [.write 2, .poll, .write 1, .exit, .poll]) := by
  have hcuts : (Reader.start [0xE4, 0xBD, 0xA0]).CutsWhole
      [.write 2, .poll, .write 1, .exit, .poll] := by
    refine ⟨fun hpoll => ?_, fun _ => ?_, fun hpoll => ?_, fun hpoll => ?_, fun _ => ?_, trivial⟩
    · cases hpoll
    · exact cutWhole_of_short (by decide) _ _
    · cases hpoll
    · cases hpoll
    · exact cutWhole_of_short (by decide) _ _
  exact ⟨by decide, hcuts, (polls_exact [0xE4, 0xBD, 0xA0] (by decide) _ hcuts).1⟩

/-- The poll of a process that wrote everything at once and exited. -/
theorem Reader.polls_whole {stream : List Byte} {count : ℕ} (hcount : stream.length ≤ count) :
    ((Reader.start stream).run [.write count, .exit, .poll]).polls =
      [(({} : BoundedBuffer).write stream).poll 0 true] := by
  simp [Reader.run, Reader.start, Reader.step, take_of_length_le hcount,
    drop_of_length_le hcount]

/-- One character over the limit, whose second byte is the first of the next page. -/
def cutStream : List Byte :=
  List.replicate 65535 0x78 ++ [0xC3, 0xA9]

theorem valid_replicate_append (count : ℕ) (rest : List Byte) :
    valid (List.replicate count 0x78 ++ rest) = valid rest := by
  induction count with
  | zero => rfl
  | succ count ih =>
      rw [replicate_succ, cons_append, valid, validFrom, if_pos (by decide)]
      exact ih

/-- A page after the exit is cut inside a character. -/
theorem poll_cuts_character :
    valid cutStream = true ∧
      ∃ poll ∈ ((Reader.start cutStream).run [.write 65537, .exit, .poll]).polls,
        poll.snapshot.decodeReplaced = true := by
  have hlength : cutStream.length = 65537 := by
    rw [cutStream, length_append, length_replicate]
    rfl
  have hretains : (({} : BoundedBuffer).write cutStream).Retains cutStream :=
    BoundedBuffer.Retains.empty.write cutStream
  have hnone : (({} : BoundedBuffer).write cutStream).startOffset = 0 := by
    by_contra hsome
    have hfull := hretains.full (Nat.pos_of_ne_zero hsome)
    rw [hlength, maxRetainedBytesPerStream] at hfull
    omega
  have hpage : (({} : BoundedBuffer).write cutStream).pageStart (0 : ℕ) = 0 := by
    rw [hretains.pageStart_eq (Nat.zero_le _), hnone]
    rfl
  have hdata := data_final hretains (Nat.zero_le _)
  have hcut : cutStream.take maxPollBytesPerStream =
      List.replicate 65535 0x78 ++ [0xC3] := by
    rw [cutStream, take_append, length_replicate, take_of_length_le]
    · rfl
    · rw [length_replicate]
      decide
  rw [hpage, drop_zero, hcut] at hdata
  have hreplaced : ((({} : BoundedBuffer).write cutStream).poll 0 true).snapshot.decodeReplaced =
      true := by
    change (!valid ((({} : BoundedBuffer).write cutStream).poll 0 true).snapshot.data) = true
    rw [hdata, valid_replicate_append]
    decide
  refine ⟨?_, (({} : BoundedBuffer).write cutStream).poll 0 true, ?_, hreplaced⟩
  · rw [cutStream, valid_replicate_append]
    decide
  · rw [Reader.polls_whole hlength.le]
    exact mem_singleton_self _

end ReuleauxCoder.Peer
