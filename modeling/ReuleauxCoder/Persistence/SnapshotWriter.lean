import ReuleauxCoder.Library.Transition

/-!
# The snapshot writer

`SessionSnapshotWriter` coalesces snapshot requests: a deferred request starts a
timer and retires the timer before it, and a flush retires the timer and writes
itself.  A generation counter tells a timer whether it is still the latest
request.  A step is one region under the writer's lock, the taking of the write
lock with the check behind it, or the start or the end of a `persist`.  The
context lock, which other code may share, only takes interleavings away and is
left out.
-/

namespace ReuleauxCoder.Persistence

open Transition

/-- The callers of `write_scope`. -/
inductive Scope where
  | flush
  | close
  deriving DecidableEq

inductive Purpose where
  | scope (scope : Scope)
  | deferred (generation : ℕ)
  deriving DecidableEq

/-- A caller's thread, or the thread of the timer of a generation. -/
inductive Party where
  | caller (number : ℕ)
  | timer (generation : ℕ)
  deriving DecidableEq

inductive Phase where
  | idle
  /-- `__call__` in front of its locked region. -/
  | scheduling
  /-- `timer.start()` raised, and the failure is not recorded yet. -/
  | reporting (generation : ℕ)
  /-- A timer that waits for its delay. -/
  | pending (generation : ℕ)
  /-- `_run_deferred` in front of its first check. -/
  | checking (generation : ℕ)
  /-- `write_scope` in front of its locked region. -/
  | entering (scope : Scope)
  /-- Waiting for the write lock. -/
  | waiting (purpose : Purpose)
  /-- Holding the write lock, and allowed to write. -/
  | writable (purpose : Purpose)
  | persisting (purpose : Purpose)
  /-- `close` behind its persist, in front of `_closed = True`. -/
  | marking
  deriving DecidableEq

inductive Failure where
  | scheduling (generation : ℕ)
  | persist
  deriving DecidableEq

/-- What happened, in order. -/
inductive Mark where
  | requested (generation : ℕ)
  | startFailed (generation : ℕ)
  | persistStarted
  | failureRecorded (failure : Failure)
  | closed
  deriving DecidableEq

structure SnapshotWriter where
  timer : Option ℕ := none
  closed : Bool := false
  generation : ℕ := 0
  hasSnapshot : Bool := false
  writeLock : Option Party := none
  phase : Party → Phase := fun _ => .idle
  history : List Mark := []

namespace SnapshotWriter

def advance (writer : SnapshotWriter) (party : Party) (phase : Phase) : SnapshotWriter :=
  { writer with phase := Function.update writer.phase party phase }

def note (writer : SnapshotWriter) (mark : Mark) : SnapshotWriter :=
  { writer with history := writer.history ++ [mark] }

/-- A timer that has fired is not stopped any more. -/
def cancelTimer (writer : SnapshotWriter) : SnapshotWriter :=
  match writer.timer with
  | some generation =>
      if writer.phase (.timer generation) = .pending generation then
        writer.advance (.timer generation) .idle
      else writer
  | none => writer

/-! ## The locked regions -/

def call (writer : SnapshotWriter) (party : Party) (deferred : Bool) : SnapshotWriter :=
  if !deferred || !writer.hasSnapshot then writer.advance party (.entering .flush)
  else writer.advance party .scheduling

def schedule (writer : SnapshotWriter) (party : Party) (started : Bool) : SnapshotWriter :=
  if writer.closed then writer.advance party .idle
  else
    let generation := writer.generation + 1
    let requested := { writer.cancelTimer with generation }.note (.requested generation)
    if started then
      ({ requested with timer := some generation }.advance party .idle).advance
        (.timer generation) (.pending generation)
    else
      ({ requested with timer := none }.note (.startFailed generation)).advance party
        (.reporting generation)

def report (writer : SnapshotWriter) (party : Party) (generation : ℕ) : SnapshotWriter :=
  (writer.note (.failureRecorded (.scheduling generation))).advance party .idle

/-- The first check of `_run_deferred`. -/
def checkDeferred (writer : SnapshotWriter) (party : Party) (generation : ℕ) : SnapshotWriter :=
  if writer.closed || generation ≠ writer.generation then writer.advance party .idle
  else { writer with timer := none }.advance party (.waiting (.deferred generation))

/-- The locked region of `write_scope`; a flush is a request. -/
def writeScope (writer : SnapshotWriter) (party : Party) (scope : Scope) : SnapshotWriter :=
  let generation := writer.generation + 1
  let entered := { writer.cancelTimer with timer := none, generation }
  match scope with
  | .flush => (entered.note (.requested generation)).advance party (.waiting (.scope scope))
  | .close => entered.advance party (.waiting (.scope scope))

def admits (writer : SnapshotWriter) : Purpose → Bool
  | .scope _ => !writer.closed
  | .deferred generation => !(writer.closed || generation ≠ writer.generation)

/-- Only a holder of the write lock closes the writer, so the check belongs to
the taking of the lock. -/
def acquire (writer : SnapshotWriter) (party : Party) (purpose : Purpose) : SnapshotWriter :=
  match writer.writeLock with
  | some _ => writer
  | none =>
      if writer.admits purpose then
        { writer with writeLock := some party }.advance party (.writable purpose)
      else writer.advance party .idle

def startPersist (writer : SnapshotWriter) (party : Party) (purpose : Purpose) :
    SnapshotWriter :=
  (writer.note .persistStarted).advance party (.persisting purpose)

def finishPersist (writer : SnapshotWriter) (party : Party) (purpose : Purpose)
    (succeeded : Bool) : SnapshotWriter :=
  if succeeded then
    let persisted := { writer with hasSnapshot := true }
    if purpose = .scope .close then persisted.advance party .marking
    else { persisted with writeLock := none }.advance party .idle
  else
    ({ writer with writeLock := none }.note (.failureRecorded .persist)).advance party .idle

def markClosed (writer : SnapshotWriter) (party : Party) : SnapshotWriter :=
  ({ writer with closed := true, writeLock := none }.note .closed).advance party .idle

/-! ## Runs -/

/-- `call` is `writer(deferred=…)`, or `writer.flush()` when nothing is deferred.
`proceed` takes a party to its next region; the flag is the outcome of
`timer.start()` or of the persist, where there is one. -/
inductive Action where
  | call (number : ℕ) (deferred : Bool)
  | close (number : ℕ)
  | proceed (party : Party) (succeeds : Bool)
  deriving DecidableEq

def proceed (writer : SnapshotWriter) (party : Party) (succeeds : Bool) : SnapshotWriter :=
  match writer.phase party with
  | .idle => writer
  | .scheduling => writer.schedule party succeeds
  | .reporting generation => writer.report party generation
  | .pending generation => writer.advance party (.checking generation)
  | .checking generation => writer.checkDeferred party generation
  | .entering scope => writer.writeScope party scope
  | .waiting purpose => writer.acquire party purpose
  | .writable purpose => writer.startPersist party purpose
  | .persisting purpose => writer.finishPersist party purpose succeeds
  | .marking => writer.markClosed party

def step (writer : SnapshotWriter) : Action → SnapshotWriter
  | .call number deferred =>
      if writer.phase (.caller number) = .idle then writer.call (.caller number) deferred
      else writer
  | .close number =>
      if writer.phase (.caller number) = .idle then
        writer.advance (.caller number) (.entering .close)
      else writer
  | .proceed party succeeds => writer.proceed party succeeds

/-- No timer is pending and nobody is inside the writer. -/
def Quiescent (writer : SnapshotWriter) : Prop :=
  ∀ party, writer.phase party = .idle

end SnapshotWriter

end ReuleauxCoder.Persistence
