import ReuleauxCoder.Library.ByteLiterals
import ReuleauxCoder.Library.RuneText
import ReuleauxCoder.Peer.OutputPolls
import ReuleauxCoder.Process.Manager

/-!
# Running a command on the peer

`RemoteProcessPort.run` polls a process until a poll shows that it has exited, and returns what
the polls brought.  Each poll brings one page of each stream, so that a run returns the whole
output where the page of the last poll reaches the end of the stream.
-/

namespace ReuleauxCoder.Remote

open PyText Runes Peer List
open scoped ByteLiterals
open Process (ProcessState ProcessCursor)

/-! ## The peer -/

/-- A process of the peer: the output that is retained, and how the process ended. -/
structure PeerProcess where
  stdout : BoundedBuffer := {}
  stderr : BoundedBuffer := {}
  done : Bool := false
  exitCode : ℤ := 0
  terminationReason : Text := []

/-- The reply to `process.poll`. -/
structure PollReply where
  stdout : Text
  stderr : Text
  stdoutOffset : ℕ
  stderrOffset : ℕ
  outputTruncated : Bool
  outputDecodeReplaced : Bool
  done : Bool
  exitCode : ℤ
  terminationReason : Text
  timedOut : Bool
  cancelled : Bool

/-- `Manager.poll` behind its wait. -/
def PeerProcess.poll (process : PeerProcess) (cursor : ProcessCursor) : PollReply :=
  let stdout := process.stdout.snapshot cursor.stdoutOffset maxPollBytesPerStream process.done
  let stderr := process.stderr.snapshot cursor.stderrOffset maxPollBytesPerStream process.done
  { stdout := runeText stdout.data
    stderr := runeText stderr.data
    stdoutOffset := stdout.nextOffset
    stderrOffset := stderr.nextOffset
    outputTruncated := stdout.truncated || stderr.truncated
    outputDecodeReplaced := stdout.decodeReplaced || stderr.decodeReplaced
    done := process.done
    exitCode := process.exitCode
    terminationReason := process.terminationReason
    timedOut := process.terminationReason = lit "timeout"
    cancelled := process.terminationReason = lit "cancelled" }

/-! ## The host -/

/-- What `_RemoteProcessEntry` keeps of the polls. -/
structure PolledEntry where
  state : ProcessState := .running
  exitCode : Option ℤ := none
  terminationReason : Option Text := none
  outputTruncated : Bool := false
  outputDecodeReplaced : Bool := false

structure ProcessResult where
  stdout : Text := []
  stderr : Text := []
  exitCode : Option ℤ := none
  timedOut : Bool := false
  cancelled : Bool := false
  outputTruncated : Bool := false
  outputDecodeReplaced : Bool := false

/-- `_remote_termination_reason`. -/
def remoteTerminationReason (reply : PollReply) : Text :=
  if reply.terminationReason ≠ [] then reply.terminationReason
  else if reply.timedOut then lit "timeout"
  else if reply.cancelled then lit "cancelled"
  else lit "exit"

/-- `_poll_once` with the reply to its request. -/
def PolledEntry.take (entry : PolledEntry) (reply : PollReply) : PolledEntry :=
  let seen : PolledEntry :=
    { entry with
      outputTruncated := entry.outputTruncated || reply.outputTruncated
      outputDecodeReplaced := entry.outputDecodeReplaced || reply.outputDecodeReplaced }
  if entry.state = .exited then seen
  else if reply.done then
    { seen with
      state := .exited
      exitCode := some reply.exitCode
      terminationReason := some (remoteTerminationReason reply) }
  else { seen with state := .running, exitCode := none, terminationReason := none }

/-- A process that writes its output, and the `run` that polls it; `stdout` and `stderr` are
what `run` has collected. -/
structure RemoteRun where
  stdoutUnwritten : List Byte
  stderrUnwritten : List Byte
  process : PeerProcess := {}
  entry : PolledEntry := {}
  cursor : ProcessCursor := {}
  stdout : List Text := []
  stderr : List Text := []
  result : Option ProcessResult := none

/-- The next bytes are written, the process exits when all of them are, or `run` polls;
`late` is whether the time of `poll` is up when the reply is there. -/
inductive RunEvent where
  | writeStdout (count : ℕ)
  | writeStderr (count : ℕ)
  | exit (exitCode : ℤ) (terminationReason : Text)
  | poll (late : Bool)
  deriving DecidableEq

namespace RemoteRun

def start (stdout stderr : List Byte) : RemoteRun where
  stdoutUnwritten := stdout
  stderrUnwritten := stderr

/-- What `run` returns after the snapshot of an exited process. -/
def finish (stdout stderr : List Text) (entry : PolledEntry) : ProcessResult where
  stdout := stdout.flatten
  stderr := stderr.flatten
  exitCode := entry.exitCode
  timedOut := entry.terminationReason = some (lit "timeout")
  cancelled := entry.terminationReason = some (lit "cancelled")
  outputTruncated := entry.outputTruncated
  outputDecodeReplaced := entry.outputDecodeReplaced

/-- One poll of the loop in `poll`, and what `run` does with a snapshot that ends the loop. -/
def poll (run : RemoteRun) (late : Bool) : RemoteRun :=
  let reply := run.process.poll run.cursor
  let entry := run.entry.take reply
  if reply.stdout ≠ [] ∨ reply.stderr ≠ [] ∨ entry.state ≠ .running ∨ late then
    let stdout := run.stdout ++ [reply.stdout]
    let stderr := run.stderr ++ [reply.stderr]
    { run with
      entry, stdout, stderr
      cursor := ⟨reply.stdoutOffset, reply.stderrOffset⟩
      result := if entry.state = .running then none else some (finish stdout stderr entry) }
  else { run with entry }

def step (run : RemoteRun) : RunEvent → RemoteRun
  | .writeStdout count =>
      { run with
        stdoutUnwritten := run.stdoutUnwritten.drop count
        process :=
          { run.process with
            stdout := run.process.stdout.write (run.stdoutUnwritten.take count) } }
  | .writeStderr count =>
      { run with
        stderrUnwritten := run.stderrUnwritten.drop count
        process :=
          { run.process with
            stderr := run.process.stderr.write (run.stderrUnwritten.take count) } }
  | .exit exitCode terminationReason =>
      if run.stdoutUnwritten = [] ∧ run.stderrUnwritten = [] ∧ run.process.done = false then
        { run with process := { run.process with done := true, exitCode, terminationReason } }
      else run
  | .poll late => if run.result.isSome then run else run.poll late

def runAll (run : RemoteRun) (events : List RunEvent) : RemoteRun :=
  events.foldl step run

end RemoteRun

/-- The bytes that a page of a running process takes are whole, or the beginning of a rune
stands behind them. -/
theorem consumableUTF8Prefix_whole (data : List Byte) :
    let front := data.take (consumableUTF8Prefix data false)
    Whole front ∧ front = data ∨
      ∃ part, data = front ++ part ∧ part ≠ [] ∧ fullRune part = false := by
  fun_induction consumableUTF8Prefix data false with
  | case1 => exact .inl ⟨.nil, rfl⟩
  | case2 data hdata hfull => contradiction
  | case3 data hdata hfull hfinal =>
      rw [Bool.not_eq_true'] at hfull
      exact .inr ⟨data, rfl, hdata, hfull⟩
  | case4 data hdata hfull ih =>
      rw [Bool.not_eq_true', Bool.not_eq_false] at hfull
      rw [take_add]
      cases ih with
      | inl hwhole =>
          obtain ⟨hrest, hall⟩ := hwhole
          rw [hall] at hrest ⊢
          rw [take_append_drop]
          exact .inl ⟨.of_first hfull hrest, rfl⟩
      | inr hbegun =>
          obtain ⟨part, hsplit, hpart⟩ := hbegun
          refine .inr ⟨part, ?_, hpart⟩
          rw [append_assoc, ← hsplit, take_append_drop]

/-! ## What a run keeps -/

/-- What a run keeps of one stream: with the text of what no poll has brought, the collected
text is that of the stream. -/
structure Collects (stream unwritten : List Byte) (buffer : BoundedBuffer) (cursor : ℕ)
    (collected : List Text) : Prop where
  written : ∃ written, stream = written ++ unwritten ∧ buffer.Retains written ∧
    cursor ≤ written.length
  text : collected.flatten ++ runeText (stream.drop cursor) = runeText stream

section Stream

variable {stream unwritten : List Byte} {buffer : BoundedBuffer} {cursor : ℕ}
  {collected : List Text}

theorem Collects.start (stream : List Byte) : Collects stream stream {} 0 [] where
  written := ⟨[], rfl, BoundedBuffer.Retains.empty, le_rfl⟩
  text := rfl

theorem Collects.write (hcollects : Collects stream unwritten buffer cursor collected)
    (count : ℕ) :
    Collects stream (unwritten.drop count) (buffer.write (unwritten.take count)) cursor
      collected := by
  obtain ⟨⟨written, hwritten, hretains, hcursor⟩, htext⟩ := hcollects
  refine ⟨⟨written ++ unwritten.take count, ?_, hretains.write _, ?_⟩, htext⟩
  · rw [hwritten, append_assoc, take_append_drop]
  · rw [length_append]
    exact hcursor.trans (Nat.le_add_right _ _)

/-- Nothing that fits is trimmed, and a page starts at its cursor. -/
theorem pageStart_of_fits {written : List Byte} (hretains : buffer.Retains written)
    (hcursor : cursor ≤ written.length) (hfits : written.length ≤ maxRetainedBytesPerStream) :
    buffer.pageStart cursor = cursor := by
  have hnone : buffer.startOffset = 0 := by
    by_contra hsome
    have hfull := hretains.full (Nat.pos_of_ne_zero hsome)
    omega
  rw [hretains.pageStart_eq hcursor, hnone, if_neg (Nat.lt_irrefl 0)]
  omega

/-- A poll of a running process. -/
theorem Collects.poll_running (hcollects : Collects stream unwritten buffer cursor collected)
    (hfits : stream.length ≤ maxRetainedBytesPerStream) :
    let snapshot := buffer.snapshot cursor maxPollBytesPerStream false
    Collects stream unwritten buffer snapshot.nextOffset
      (collected ++ [runeText snapshot.data]) := by
  obtain ⟨⟨written, hwritten, hretains, hcursor⟩, htext⟩ := hcollects
  have hlength := congrArg List.length hwritten
  rw [length_append] at hlength
  have hstart := pageStart_of_fits hretains hcursor (by omega)
  let limited := (written.drop cursor).take maxPollBytesPerStream
  have hdata : (buffer.snapshot cursor maxPollBytesPerStream false).data =
      limited.take (consumableUTF8Prefix limited false) := by
    rw [BoundedBuffer.snapshot, hretains.available_eq hcursor, hstart]
  have hnext : (buffer.snapshot cursor maxPollBytesPerStream false).nextOffset =
      cursor + (limited.take (consumableUTF8Prefix limited false)).length := by
    rw [← hdata]
    change buffer.pageStart cursor +
      (buffer.snapshot cursor maxPollBytesPerStream false).data.length = _
    rw [hstart]
  have hpage := consumableUTF8Prefix_whole limited
  generalize limited.take (consumableUTF8Prefix limited false) = page at hdata hnext hpage
  have hbehind : stream.drop cursor =
      limited ++ ((written.drop cursor).drop maxPollBytesPerStream ++ unwritten) := by
    rw [hwritten, drop_append_of_le_length hcursor, ← append_assoc,
      take_append_drop]
  obtain ⟨rest, hrest, hcut⟩ : ∃ rest, limited = page ++ rest ∧
      ∀ more, runeText (page ++ (rest ++ more)) = runeText page ++ runeText (rest ++ more) := by
    cases hpage with
    | inl hwhole =>
        refine ⟨[], ?_, fun more => hwhole.1 _⟩
        rw [append_nil, hwhole.2]
    | inr hbegun =>
        obtain ⟨part, hsplit, hpart, hfull⟩ := hbegun
        exact ⟨part, hsplit, fun more =>
          runeText_append_start page (runeStart_of_not_fullRune hpart hfull more)⟩
  rw [hrest, append_assoc] at hbehind
  have hinside : page.length ≤ (written.drop cursor).length := by
    have hprefix : limited.length ≤ (written.drop cursor).length :=
      (List.take_prefix maxPollBytesPerStream (written.drop cursor)).length_le
    have hlimited := congrArg List.length hrest
    rw [length_append] at hlimited
    omega
  rw [length_drop] at hinside
  dsimp only
  rw [hdata, hnext]
  refine ⟨⟨written, hwritten, hretains, by omega⟩, ?_⟩
  rw [flatten_append, flatten_singleton, append_assoc, ← drop_drop, hbehind,
    drop_left, ← hcut, ← hbehind]
  exact htext

/-- A poll of an exited process brings the text of the next page of bytes. -/
theorem Collects.poll_exited (hcollects : Collects stream [] buffer cursor collected)
    (hfits : stream.length ≤ maxRetainedBytesPerStream) :
    runeText (buffer.snapshot cursor maxPollBytesPerStream true).data =
      runeText ((stream.drop cursor).take maxPollBytesPerStream) := by
  obtain ⟨⟨written, hwritten, hretains, hcursor⟩, -⟩ := hcollects
  rw [append_nil] at hwritten
  rw [← hwritten] at hretains hcursor
  have hdata := data_final hretains hcursor
  rw [pageStart_of_fits hretains hcursor hfits] at hdata
  exact congrArg runeText hdata

/-- The last page completes the text of a stream where the page reaches its end. -/
theorem Collects.complete_iff (hcollects : Collects stream [] buffer cursor collected)
    (hfits : stream.length ≤ maxRetainedBytesPerStream) :
    (collected ++ [runeText (buffer.snapshot cursor maxPollBytesPerStream true).data]).flatten =
        runeText stream ↔
      (stream.drop cursor).length ≤ maxPollBytesPerStream ∨
        CutsReplacement maxPollBytesPerStream (stream.drop cursor) := by
  rw [flatten_append, flatten_singleton, hcollects.poll_exited hfits,
    ← hcollects.text, append_cancel_left_eq]
  exact runeText_take_eq_iff _ _

end Stream

/-- What a run keeps until it returns. -/
structure Running (stdout stderr : List Byte) (run : RemoteRun) : Prop where
  stdout : Collects stdout run.stdoutUnwritten run.process.stdout run.cursor.stdoutOffset
    run.stdout
  stderr : Collects stderr run.stderrUnwritten run.process.stderr run.cursor.stderrOffset
    run.stderr
  exited : run.process.done = true → run.stdoutUnwritten = [] ∧ run.stderrUnwritten = []
  state : run.entry.state = .running

namespace Running

variable {stdout stderr : List Byte} {run : RemoteRun}

theorem start (stdout stderr : List Byte) :
    Running stdout stderr (RemoteRun.start stdout stderr) where
  stdout := .start stdout
  stderr := .start stderr
  exited := fun hdone => by cases hdone
  state := rfl

theorem take_state (entry : PolledEntry) (reply : PollReply) (hstate : entry.state = .running) :
    (entry.take reply).state = if reply.done then .exited else .running := by
  rw [PolledEntry.take, hstate]
  cases reply.done <;> rfl

section

variable (hrunning : Running stdout stderr run)
include hrunning

theorem write_stdout (count : ℕ) :
    Running stdout stderr (run.step (.writeStdout count)) where
  stdout := hrunning.stdout.write count
  stderr := hrunning.stderr
  exited := by
    intro hdone
    obtain ⟨hout, herr⟩ := hrunning.exited hdone
    refine ⟨?_, herr⟩
    change run.stdoutUnwritten.drop count = []
    rw [hout, drop_nil]
  state := hrunning.state

theorem write_stderr (count : ℕ) :
    Running stdout stderr (run.step (.writeStderr count)) where
  stdout := hrunning.stdout
  stderr := hrunning.stderr.write count
  exited := by
    intro hdone
    obtain ⟨hout, herr⟩ := hrunning.exited hdone
    refine ⟨hout, ?_⟩
    change run.stderrUnwritten.drop count = []
    rw [herr, drop_nil]
  state := hrunning.state

theorem exit (exitCode : ℤ) (reason : Text) :
    Running stdout stderr (run.step (.exit exitCode reason)) := by
  rw [RemoteRun.step]
  split
  next hall =>
    exact ⟨hrunning.stdout, hrunning.stderr, fun _ => ⟨hall.1, hall.2.1⟩, hrunning.state⟩
  next => exact hrunning

/-- A poll of a running process: `run` goes on with what the poll has brought. -/
theorem poll
    (hstdout : stdout.length ≤ maxRetainedBytesPerStream)
    (hstderr : stderr.length ≤ maxRetainedBytesPerStream) (hnone : run.result = none)
    (hdone : run.process.done = false) (late : Bool) :
    (run.poll late).result = none ∧ Running stdout stderr (run.poll late) := by
  have hstate := take_state run.entry (run.process.poll run.cursor) hrunning.state
  have hreply : (run.process.poll run.cursor).done = false := hdone
  rw [hreply, if_neg Bool.false_ne_true] at hstate
  have hout := hrunning.stdout.poll_running hstdout
  have herr := hrunning.stderr.poll_running hstderr
  rw [← hdone] at hout herr
  rw [RemoteRun.poll]
  dsimp only
  rw [if_pos hstate]
  split
  · exact ⟨rfl, hout, herr, hrunning.exited, hstate⟩
  · exact ⟨hnone, hrunning.stdout, hrunning.stderr, hrunning.exited, hstate⟩

end

end Running

/-! ## Runs -/

/-- The bytes behind a cursor fit in one page, or the page cuts nothing but replacement
characters. -/
def FitsPage (stream : List Byte) (cursor : ℕ) : Prop :=
  (stream.drop cursor).length ≤ maxPollBytesPerStream ∨
    CutsReplacement maxPollBytesPerStream (stream.drop cursor)

def ProcessResult.Complete (result : ProcessResult) (stdout stderr : List Byte) : Prop :=
  result.stdout = runeText stdout ∧ result.stderr = runeText stderr

namespace RemoteRun

variable {stdout stderr : List Byte} {run : RemoteRun}

theorem step_poll (hnone : run.result = none) (late : Bool) :
    run.step (.poll late) = run.poll late := by
  rw [step, hnone]
  rfl

/-- The poll that shows the exit ends the run. -/
theorem poll_exited (hrunning : Running stdout stderr run)
    (hstdout : stdout.length ≤ maxRetainedBytesPerStream)
    (hstderr : stderr.length ≤ maxRetainedBytesPerStream)
    (hdone : run.process.done = true) (late : Bool) :
    ∃ result, (run.poll late).result = some result ∧
      (result.Complete stdout stderr ↔
        FitsPage stdout run.cursor.stdoutOffset ∧ FitsPage stderr run.cursor.stderrOffset) := by
  have hstate := Running.take_state run.entry (run.process.poll run.cursor) hrunning.state
  have hreply : (run.process.poll run.cursor).done = true := hdone
  rw [hreply, if_pos rfl] at hstate
  obtain ⟨hout, herr⟩ := hrunning.exited hdone
  have hcollects := hrunning.stdout
  have hcollectsErr := hrunning.stderr
  rw [hout] at hcollects
  rw [herr] at hcollectsErr
  have hstopped : (run.entry.take (run.process.poll run.cursor)).state ≠ .running := by
    rw [hstate]
    exact fun hsame => by cases hsame
  rw [RemoteRun.poll]
  dsimp only
  rw [if_pos (.inr (.inr (.inl hstopped)))]
  dsimp only
  rw [if_neg hstopped]
  refine ⟨_, rfl, and_congr ?_ ?_⟩
  · have hcomplete := hcollects.complete_iff hstdout
    rw [← hdone] at hcomplete
    exact hcomplete
  · have hcomplete := hcollectsErr.complete_iff hstderr
    rw [← hdone] at hcomplete
    exact hcomplete

theorem runAll_result {result : ProcessResult} (hresult : run.result = some result)
    (events : List RunEvent) : (run.runAll events).result = some result := by
  induction events generalizing run with
  | nil => exact hresult
  | cons event rest ih =>
      apply ih
      cases event with
      | writeStdout count => exact hresult
      | writeStderr count => exact hresult
      | exit exitCode reason =>
          rw [step]
          split
          · exact hresult
          · exact hresult
      | poll late =>
          rw [step, if_pos (by rw [hresult]; rfl)]
          exact hresult

/-- A step of a run goes on, or it is the poll that shows the exit. -/
theorem step_cases (hrunning : Running stdout stderr run)
    (hstdout : stdout.length ≤ maxRetainedBytesPerStream)
    (hstderr : stderr.length ≤ maxRetainedBytesPerStream) (hnone : run.result = none)
    (event : RunEvent) :
    ((run.step event).result = none ∧ Running stdout stderr (run.step event)) ∨
      ∃ late, event = .poll late ∧ run.process.done = true := by
  cases event with
  | writeStdout count => exact .inl ⟨hnone, hrunning.write_stdout count⟩
  | writeStderr count => exact .inl ⟨hnone, hrunning.write_stderr count⟩
  | exit exitCode reason =>
      refine .inl ⟨?_, hrunning.exit exitCode reason⟩
      rw [step]
      split
      · exact hnone
      · exact hnone
  | poll late =>
      cases hdone : run.process.done with
      | true => exact .inr ⟨late, rfl, rfl⟩
      | false =>
          rw [step_poll hnone]
          exact .inl (hrunning.poll hstdout hstderr hnone hdone late)

/-- What a run returned, it returned at its first poll after the exit. -/
theorem exists_lastPoll (hrunning : Running stdout stderr run)
    (hstdout : stdout.length ≤ maxRetainedBytesPerStream)
    (hstderr : stderr.length ≤ maxRetainedBytesPerStream) (hnone : run.result = none)
    (events : List RunEvent) :
    Running stdout stderr (run.runAll events) ∧ (run.runAll events).result = none ∨
      ∃ before late after, events = before ++ .poll late :: after ∧
        Running stdout stderr (run.runAll before) ∧
        (run.runAll before).process.done = true ∧
        (run.runAll before).result = none := by
  induction events generalizing run with
  | nil => exact .inl ⟨hrunning, hnone⟩
  | cons event rest ih =>
      cases step_cases hrunning hstdout hstderr hnone event with
      | inl hgoes =>
          cases ih hgoes.2 hgoes.1 with
          | inl hstill => exact .inl hstill
          | inr hlast =>
              obtain ⟨before, late, after, rfl, hbefore⟩ := hlast
              exact .inr ⟨event :: before, late, after, rfl, hbefore⟩
      | inr hends =>
          obtain ⟨late, rfl, hdone⟩ := hends
          exact .inr ⟨[], late, rest, rfl, hrunning, hdone, hnone⟩

end RemoteRun

/-- A run returns at the first poll after the exit, and what it returns is complete exactly if
at that poll what it has not read of each stream fits in one page. -/
theorem run_output (stdout stderr : List Byte)
    (hstdout : stdout.length ≤ maxRetainedBytesPerStream)
    (hstderr : stderr.length ≤ maxRetainedBytesPerStream) (events : List RunEvent) :
    let run := (RemoteRun.start stdout stderr).runAll events
    (∀ result, run.result = some result →
      ∃ before late after, events = before ++ .poll late :: after ∧
        let last := (RemoteRun.start stdout stderr).runAll before
        last.process.done = true ∧
          (result.Complete stdout stderr ↔
            FitsPage stdout last.cursor.stdoutOffset ∧
              FitsPage stderr last.cursor.stderrOffset)) ∧
      (run.result = none → run.process.done = true →
        ∀ late, ((run.step (.poll late)).result).isSome = true) := by
  have hstart := Running.start stdout stderr
  have hcases := RemoteRun.exists_lastPoll hstart hstdout hstderr rfl events
  refine ⟨fun result hresult => ?_, fun hnone hdone late => ?_⟩
  · cases hcases with
    | inl hstill =>
        rw [hresult] at hstill
        cases hstill.2
    | inr hlast =>
        obtain ⟨before, late, after, rfl, hrunning, hdone, hnone⟩ := hlast
        obtain ⟨returned, hreturned, hcomplete⟩ :=
          RemoteRun.poll_exited hrunning hstdout hstderr hdone late
        have hpolled : (((RemoteRun.start stdout stderr).runAll before).step (.poll late)).result =
            some returned := by
          rw [RemoteRun.step_poll hnone, hreturned]
        have hkept := RemoteRun.runAll_result hpolled after
        have hsame : (RemoteRun.start stdout stderr).runAll (before ++ .poll late :: after) =
            (((RemoteRun.start stdout stderr).runAll before).step (.poll late)).runAll after := by
          rw [RemoteRun.runAll, foldl_append]
          rfl
        rw [hsame, hkept] at hresult
        cases hresult
        exact ⟨before, late, after, rfl, hdone, hcomplete⟩
  · cases hcases with
    | inl hstill =>
        obtain ⟨result, hresult, -⟩ :=
          RemoteRun.poll_exited hstill.1 hstdout hstderr hdone late
        rw [RemoteRun.step_poll hnone, hresult]
        rfl
    | inr hlast =>
        obtain ⟨before, late, after, rfl, hrunning, hended, hgoing⟩ := hlast
        obtain ⟨returned, hreturned, -⟩ :=
          RemoteRun.poll_exited hrunning hstdout hstderr hended late
        have hpolled : (((RemoteRun.start stdout stderr).runAll before).step (.poll late)).result =
            some returned := by
          rw [RemoteRun.step_poll hgoing, hreturned]
        have hsame : (RemoteRun.start stdout stderr).runAll (before ++ .poll late :: after) =
            (((RemoteRun.start stdout stderr).runAll before).step (.poll late)).runAll after := by
          rw [RemoteRun.runAll, foldl_append]
          rfl
        rw [hsame, RemoteRun.runAll_result hpolled after] at hnone
        cases hnone

/-- The first poll behind the exit returns both letters. -/
theorem run_output_hello :
    let run := (RemoteRun.start [0x68, 0x69] []).runAll [.writeStdout 2, .exit 0 []]
    ∃ result, (run.step (.poll false)).result = some result ∧
      result.Complete [0x68, 0x69] [] := by
  intro run
  have hreturned := (run_output [0x68, 0x69] [] (by decide) (by decide)
    [.writeStdout 2, .exit 0 []]).2 rfl rfl false
  obtain ⟨result, hresult⟩ := Option.isSome_iff_exists.mp hreturned
  obtain ⟨before, late, after, hsplit, -, hcomplete⟩ := (run_output [0x68, 0x69] [] (by decide)
    (by decide) [.writeStdout 2, .exit 0 [], .poll false]).1 result hresult
  have hbefore : before = [.writeStdout 2, .exit 0 []] := by
    rcases before with _ | ⟨first, _ | ⟨second, _ | ⟨third, rest⟩⟩⟩
    all_goals simp_all
  subst hbefore
  exact ⟨result, hresult, hcomplete.mpr ⟨.inl (by decide), .inl (by decide)⟩⟩

/-- One byte more than a page. -/
def pageAndOne : List Byte :=
  List.replicate 65537 0x78

theorem not_fitsPage_pageAndOne : ¬ FitsPage pageAndOne 0 := by
  intro hfits
  cases hfits with
  | inl hshort =>
      rw [drop_zero, pageAndOne, length_replicate] at hshort
      exact absurd hshort (by decide)
  | inr hcuts =>
      obtain ⟨front, behind, hsplit, -⟩ := hcuts
      have hmem : (0xEF : Byte) ∈ pageAndOne.drop 0 := by
        rw [hsplit]
        exact mem_append_right _ mem_cons_self
      have hsame : (0xEF : Byte) = 0x78 := eq_of_mem_replicate hmem
      exact absurd hsame (by decide)

/-- The run of a process that writes everything at once and exits. -/
theorem run_once {stdout : List Byte} (hstdout : stdout.length ≤ maxRetainedBytesPerStream)
    {count : ℕ} (hcount : stdout.length ≤ count) :
    ∃ result, ((RemoteRun.start stdout []).runAll
        [.writeStdout count, .exit 0 [], .poll false]).result = some result ∧
      (result.Complete stdout [] ↔ FitsPage stdout 0 ∧ FitsPage [] 0) := by
  let written := (RemoteRun.start stdout []).step (.writeStdout count)
  have hwritten : written.stdoutUnwritten = [] := drop_eq_nil_iff.mpr hcount
  have hrunning : Running stdout [] (written.step (.exit 0 [])) :=
    ((Running.start stdout []).write_stdout count).exit 0 []
  have hexit : written.step (.exit 0 []) =
      { written with process := { written.process with done := true } } :=
    if_pos ⟨hwritten, rfl, rfl⟩
  have hdone : (written.step (.exit 0 [])).process.done = true := by rw [hexit]
  have hnone : (written.step (.exit 0 [])).result = none := by
    rw [hexit]
    rfl
  have hcursor : (written.step (.exit 0 [])).cursor = {} := by
    rw [hexit]
    rfl
  obtain ⟨result, hresult, hcomplete⟩ :=
    RemoteRun.poll_exited hrunning hstdout (Nat.zero_le _) hdone false
  rw [hcursor] at hcomplete
  refine ⟨result, ?_, hcomplete⟩
  change ((written.step (.exit 0 [])).step (.poll false)).result = some result
  rw [RemoteRun.step_poll hnone, hresult]

/-- A process that writes one byte more than a page before the first poll, and exits, is
returned without that byte. -/
theorem run_output_cut :
    ¬ ∀ stdout stderr : List Byte, stdout.length ≤ maxRetainedBytesPerStream →
      stderr.length ≤ maxRetainedBytesPerStream → ∀ (events : List RunEvent) result,
        ((RemoteRun.start stdout stderr).runAll events).result = some result →
          result.Complete stdout stderr := by
  intro hall
  have hlength : pageAndOne.length = 65537 := length_replicate
  have hfits : pageAndOne.length ≤ maxRetainedBytesPerStream := by
    rw [hlength]
    decide
  obtain ⟨result, hresult, hcomplete⟩ := run_once hfits hlength.le
  have hwhole := hall pageAndOne [] hfits (Nat.zero_le _) _ result hresult
  exact not_fitsPage_pageAndOne (hcomplete.mp hwhole).1

end ReuleauxCoder.Remote
