import ReuleauxCoder.Tools.FailureSummary

/-!
# Publishing runtime failures

Failures around a batch of tools are facts for the sink of the agent.  A fact that the
sink does not take is kept with all later ones, and the failure of the sink becomes a fact
itself; before the next request to the model the executor drains what it keeps and tries
twice.  The sink, the observer of events and the stop request answer as they like.
-/

namespace ReuleauxCoder.Tools

open PyText SmallestKeys

/-! ## Replies -/

abbrev RuntimeFact := Text × Text × ℕ

/-- What `stop_requested` and `request_stop` do when they are called. -/
structure StopReplies where
  stopRequested : Except PyError Bool
  requestStop : Except PyError Unit

/-- What the agent does with a fact. -/
inductive SinkReply where
  | accepted
  /-- It returns `False`. -/
  | refused
  /-- It has no `record_runtime_issue` to call. -/
  | missing
  | raised (error : PyError)

def SinkReply.error? : SinkReply → Option PyError
  | .accepted => none
  | .refused | .missing => some (runtimeError "MissingRuntimeIssueSink")
  | .raised error => some error

/-- The replies during one `_publish_runtime_failures`: of the sink to the fact at an
index, and to a request to stop. -/
structure PublishReplies where
  sink : ℕ → SinkReply
  stop : StopReplies

/-- The replies during one `_queue_batch_runtime_failure`. -/
structure QueueReplies where
  captureStop : StopReplies
  /-- What the observer raises, if anything. -/
  emit : Option PyError
  emitStop : StopReplies
  publish : PublishReplies

/-- The replies during one `flush_pending_runtime_issues`. -/
structure FlushReplies where
  publish : ℕ → PublishReplies
  stop : StopReplies

/-! ## The executor -/

def pendingRuntimeFailureLimit : ℤ := 8

def runtimeFailurePublishAttempts : ℕ := 2

/-- What the executor keeps, and the facts that the sink has taken so far. -/
structure RuntimeIssues where
  pending : Failures := {}
  published : List RuntimeFact := []

/-- `_request_stop_safely`. -/
def requestStopSafely (replies : StopReplies) (failures : Failures) : Failures :=
  let (failures, alreadyRequested) :=
    match replies.stopRequested with
    | .error error => (failures.record (lit "post_effect") (safeExceptionType error), false)
    | .ok requested => (failures, requested)
  if alreadyRequested then failures
  else
    match replies.requestStop with
    | .error error => failures.record (lit "post_effect") (safeExceptionType error)
    | .ok _ => failures

/-- `_capture_post_effect_failure`. -/
def capturePostEffectFailure (replies : StopReplies) (failures : Failures) (phase : Text)
    (error : PyError) : Failures :=
  let failures := failures.record phase (safeExceptionType error)
  if error.isException then failures else requestStopSafely replies failures

def retainFact (pending : Failures) (fact : RuntimeFact) : Failures :=
  if fact.2.1 = lit "AdditionalFailuresOmitted" then pending.omitObject (some fact.2.2)
  else pending.recordWithin pendingRuntimeFailureLimit (some fact.1) (some fact.2.1)
    (some fact.2.2)

namespace RuntimeIssues

/-- `_retain_runtime_failures`. -/
def retain (issues : RuntimeIssues) (facts : List RuntimeFact) : RuntimeIssues :=
  { issues with pending := facts.foldl retainFact issues.pending }

def accept (issues : RuntimeIssues) (fact : RuntimeFact) : RuntimeIssues :=
  { issues with published := issues.published ++ [fact] }

/-- `_publish_runtime_failures`, from the fact at an index on: the number of facts that
were published, and whether the sink failed. -/
def publish (replies : PublishReplies) :
    ℕ → RuntimeIssues → List RuntimeFact → RuntimeIssues × ℕ × Bool
  | _, issues, [] => (issues, 0, false)
  | index, issues, fact :: rest =>
      match (replies.sink index).error? with
      | none =>
          let (later, published, failed) := publish replies (index + 1) (issues.accept fact) rest
          (later, published + 1, failed)
      | some error =>
          let retained := issues.retain (fact :: rest)
          let sinkFailures := capturePostEffectFailure replies.stop {}
            (lit "runtime_issue_publish") error
          (retained.retain sinkFailures.snapshot, 0, true)

/-- `_queue_batch_runtime_failure`. -/
def queueBatchRuntimeFailure (issues : RuntimeIssues) (phase : Text) (error : PyError)
    (replies : QueueReplies) : RuntimeIssues :=
  let failures := capturePostEffectFailure replies.captureStop {} phase error
  match replies.emit with
  | none => (publish replies.publish 0 issues failures.snapshot).1
  | some emitError =>
      let failures := capturePostEffectFailure replies.emitStop failures
        (lit "post_effect_diagnostic") emitError
      (publish replies.publish 0 issues failures.snapshot).1

/-- `self._pending_runtime_failures.drain()`. -/
def drain (issues : RuntimeIssues) : List RuntimeFact × RuntimeIssues :=
  (issues.pending.drain.1, { issues with pending := issues.pending.drain.2 })

/-- The attempts to publish; `none` when all of them failed. -/
def flushAttempts (replies : ℕ → PublishReplies) : ℕ → ℕ → RuntimeIssues → RuntimeIssues × Option ℕ
  | 0, _, issues => (issues, none)
  | attempts + 1, published, issues =>
      let (facts, drained) := issues.drain
      if facts = [] then (drained, some published)
      else
        let (later, delivered, failed) := publish (replies attempts) 0 drained facts
        if failed then flushAttempts replies attempts (published + delivered) later
        else (later, some (published + delivered))

/-- `flush_pending_runtime_issues`. -/
def flushPendingRuntimeIssues (issues : RuntimeIssues) (replies : FlushReplies) :
    RuntimeIssues × Option ℕ :=
  match flushAttempts replies.publish runtimeFailurePublishAttempts 0 issues with
  | (flushed, some published) => (flushed, some published)
  | (flushed, none) =>
      let stopFailures := requestStopSafely replies.stop {}
      (flushed.retain stopFailures.snapshot, none)

end RuntimeIssues

inductive RuntimeCall where
  | queue (phase : Text) (error : PyError) (replies : QueueReplies)
  | flush (replies : FlushReplies)

def RuntimeIssues.call (issues : RuntimeIssues) : RuntimeCall → RuntimeIssues
  | .queue phase error replies => issues.queueBatchRuntimeFailure phase error replies
  | .flush replies => (issues.flushPendingRuntimeIssues replies).1

def runRuntimeCalls (calls : List RuntimeCall) : RuntimeIssues :=
  calls.foldl RuntimeIssues.call {}

/-! ## What calls record

The failures are told from the calls and the replies to them: which errors are caught, and
which of the facts that are offered the sink does not take. -/

/-- The errors that `_request_stop_safely` catches. -/
def StopReplies.errors (replies : StopReplies) : List PyError :=
  let requestErrors :=
    match replies.requestStop with
    | .error error => [error]
    | .ok _ => []
  match replies.stopRequested with
  | .error error => error :: requestErrors
  | .ok true => []
  | .ok false => requestErrors

/-- The key under which an error is recorded. -/
def reportKey (phase : Text) (error : PyError) : FailureKey :=
  toLex (safeFailurePhase phase, safeFailureErrorType (safeExceptionType error))

/-- What `_capture_post_effect_failure` records. -/
def capturedKeys (replies : StopReplies) (phase : Text) (error : PyError) : List FailureKey :=
  reportKey phase error ::
    if error.isException then [] else replies.errors.map (reportKey (lit "post_effect"))

/-- What one `_publish_runtime_failures` records when it offers a number of facts, from an
index on: the first reply that is no acceptance ends it. -/
def PublishReplies.reports (replies : PublishReplies) : ℕ → ℕ → List FailureKey
  | _, 0 => []
  | index, count + 1 =>
      match (replies.sink index).error? with
      | none => replies.reports (index + 1) count
      | some error => capturedKeys replies.stop (lit "runtime_issue_publish") error

/-- What one `_queue_batch_runtime_failure` records before it publishes. -/
def QueueReplies.captured (replies : QueueReplies) (phase : Text) (error : PyError) :
    List FailureKey :=
  capturedKeys replies.captureStop phase error ++
    match replies.emit with
    | none => []
    | some emitError => capturedKeys replies.emitStop (lit "post_effect_diagnostic") emitError

/-- Each key that was captured is one fact for the sink. -/
def QueueReplies.reports (replies : QueueReplies) (phase : Text) (error : PyError) :
    List FailureKey :=
  replies.captured phase error ++
    replies.publish.reports 0 (replies.captured phase error).dedup.length

namespace RuntimeIssues

/-- The executor behind one attempt of a flush. -/
def attempted (issues : RuntimeIssues) (replies : PublishReplies) : RuntimeIssues :=
  (publish replies 0 issues.drain.2 issues.drain.1).1

/-- What the attempts of a flush record; when all of them fail, the stop request follows. -/
def flushReports (replies : FlushReplies) : ℕ → RuntimeIssues → List FailureKey
  | 0, _ => replies.stop.errors.map (reportKey (lit "post_effect"))
  | attempts + 1, issues =>
      match (replies.publish attempts).reports 0 issues.pending.snapshot.length with
      | [] => []
      | key :: keys =>
          key :: keys ++ flushReports replies attempts
            (issues.attempted (replies.publish attempts))

def reports (issues : RuntimeIssues) : RuntimeCall → List FailureKey
  | .queue phase error replies => replies.reports phase error
  | .flush replies => flushReports replies runtimeFailurePublishAttempts issues

/-- The collectors that the attempts of a flush drain. -/
def flushDrains (replies : FlushReplies) : ℕ → RuntimeIssues → List Failures
  | 0, _ => []
  | attempts + 1, issues =>
      issues.pending ::
        match (replies.publish attempts).reports 0 issues.pending.snapshot.length with
        | [] => []
        | _ :: _ => flushDrains replies attempts (issues.attempted (replies.publish attempts))

def drains (issues : RuntimeIssues) : RuntimeCall → List Failures
  | .queue _ _ _ => []
  | .flush replies => flushDrains replies runtimeFailurePublishAttempts issues

/-- The failures that calls record, in order. -/
def reportedBy : RuntimeIssues → List RuntimeCall → List FailureKey
  | _, [] => []
  | issues, call :: rest => issues.reports call ++ reportedBy (issues.call call) rest

/-- The collectors that calls drain, in order. -/
def drainedBy : RuntimeIssues → List RuntimeCall → List Failures
  | _, [] => []
  | issues, call :: rest => issues.drains call ++ drainedBy (issues.call call) rest

end RuntimeIssues

end ReuleauxCoder.Tools
