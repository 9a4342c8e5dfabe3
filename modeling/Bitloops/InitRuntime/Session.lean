import Bitloops.Daemon.Task

/-!
# Init sessions

An init session follows the tasks that `bitloops init` has put into the daemon's queue: a sync, an
ingest, two bootstraps, and the *follow-up syncs* that pick up what a bootstrap has made possible.
Its record holds the ids of the tasks, and numbers the completions that are reported to it.  This
file models the record and the functions that read and update it.

* `recordTaskCompletionSeq`, `recordTaskTerminalSnapshot`: what a report leaves in the record.
* `semanticFollowUpPending`: a completed bootstrap waits for a sync, or a sync is on its way.
* `sessionCompleted`: the test under which a session is reported as completed.
-/

namespace Bitloops
namespace InitRuntime

open Daemon

structure StartInitSessionSelections where
  runSync : Bool
  runIngest : Bool
  ingestBackfill : Option ℕ
  embeddingsBootstrap : Option EmbeddingsBootstrapTaskSpec
  summariesBootstrap : Option SummaryBootstrapRequest
  deriving DecidableEq, Repr

/-- How a task of the session ended. -/
structure InitSessionTaskTerminalSnapshot where
  taskId : String
  status : DevqlTaskStatus
  deriving DecidableEq, Repr

structure InitSessionRecord where
  initSessionId : String
  repoId : String
  selections : StartInitSessionSelections
  initialSyncTaskId : Option String
  initialSyncTerminal : Option InitSessionTaskTerminalSnapshot
  ingestTaskId : Option String
  ingestTerminal : Option InitSessionTaskTerminalSnapshot
  embeddingsBootstrapTaskId : Option String
  embeddingsBootstrapTerminal : Option InitSessionTaskTerminalSnapshot
  summaryBootstrapTaskId : Option String
  summaryBootstrapTerminal : Option InitSessionTaskTerminalSnapshot
  followUpSyncRequired : Bool
  followUpSyncTaskId : Option String
  followUpSyncTerminal : Option InitSessionTaskTerminalSnapshot
  nextCompletionSeq : ℕ
  initialSyncCompletionSeq : Option ℕ
  embeddingsBootstrapCompletionSeq : Option ℕ
  summaryBootstrapCompletionSeq : Option ℕ
  followUpSyncCompletionSeq : Option ℕ
  deriving DecidableEq, Repr

/-- The record at the beginning of `start_session`. -/
def newSession (initSessionId repoId : String) (selections : StartInitSessionSelections) :
    InitSessionRecord where
  initSessionId := initSessionId
  repoId := repoId
  selections := selections
  initialSyncTaskId := none
  initialSyncTerminal := none
  ingestTaskId := none
  ingestTerminal := none
  embeddingsBootstrapTaskId := none
  embeddingsBootstrapTerminal := none
  summaryBootstrapTaskId := none
  summaryBootstrapTerminal := none
  followUpSyncRequired := false
  followUpSyncTaskId := none
  followUpSyncTerminal := none
  nextCompletionSeq := 0
  initialSyncCompletionSeq := none
  embeddingsBootstrapCompletionSeq := none
  summaryBootstrapCompletionSeq := none
  followUpSyncCompletionSeq := none

/-- The two bootstraps of a session. -/
inductive Bootstrap where
  | embeddings
  | summaries
  deriving DecidableEq, Repr

namespace Bootstrap

variable (session : InitSessionRecord)

def kind : Bootstrap → DevqlTaskKind
  | embeddings => .embeddingsBootstrap
  | summaries => .summaryBootstrap

def selected : Bootstrap → Bool
  | embeddings => session.selections.embeddingsBootstrap.isSome
  | summaries => session.selections.summariesBootstrap.isSome

def taskId : Bootstrap → Option String
  | embeddings => session.embeddingsBootstrapTaskId
  | summaries => session.summaryBootstrapTaskId

def completionSeq : Bootstrap → Option ℕ
  | embeddings => session.embeddingsBootstrapCompletionSeq
  | summaries => session.summaryBootstrapCompletionSeq

instance decidableForall {p : Bootstrap → Prop} [DecidablePred p] : Decidable (∀ b, p b) :=
  decidable_of_iff (p embeddings ∧ p summaries)
    ⟨fun h b => match b with | embeddings => h.1 | summaries => h.2, fun h => ⟨h _, h _⟩⟩

instance decidableExists {p : Bootstrap → Prop} [DecidablePred p] : Decidable (∃ b, p b) :=
  decidable_of_iff (p embeddings ∨ p summaries)
    ⟨fun h => h.elim (fun h => ⟨_, h⟩) fun h => ⟨_, h⟩,
      fun ⟨b, h⟩ => match b, h with
        | embeddings, h => .inl h
        | summaries, h => .inr h⟩

end Bootstrap

/-! ## Recording a report -/

/-- The next number and the number of the task, which is assigned once. -/
def assignCompletionSeq (nextCompletionSeq : ℕ) (target : Option ℕ) : ℕ × Option ℕ :=
  if target.isSome then (nextCompletionSeq, target)
  else (nextCompletionSeq + 1, some (nextCompletionSeq + 1))

/-- A task that can be completed again gets a new number. -/
def assignCompletionSeqForRepeatableTask (nextCompletionSeq : ℕ) (target : Option ℕ)
    (completionAlreadyRecorded : Bool) : ℕ × Option ℕ :=
  if completionAlreadyRecorded then (nextCompletionSeq, target)
  else (nextCompletionSeq + 1, some (nextCompletionSeq + 1))

def recordTaskCompletionSeq (session : InitSessionRecord) (task : DevqlTaskRecord) :
    InitSessionRecord :=
  let next := session.nextCompletionSeq
  if task.status ≠ .completed then session
  else if session.initialSyncTaskId = some task.taskId then
    let assigned := assignCompletionSeq next session.initialSyncCompletionSeq
    { session with nextCompletionSeq := assigned.1, initialSyncCompletionSeq := assigned.2 }
  else if session.followUpSyncTaskId = some task.taskId then
    let completionAlreadyRecorded :=
      session.followUpSyncTerminal.any fun terminal =>
        terminal.taskId = task.taskId && terminal.status = .completed
    let assigned :=
      assignCompletionSeqForRepeatableTask next session.followUpSyncCompletionSeq
        completionAlreadyRecorded
    { session with nextCompletionSeq := assigned.1, followUpSyncCompletionSeq := assigned.2 }
  else if session.embeddingsBootstrapTaskId = some task.taskId then
    let assigned := assignCompletionSeq next session.embeddingsBootstrapCompletionSeq
    { session with
      nextCompletionSeq := assigned.1, embeddingsBootstrapCompletionSeq := assigned.2 }
  else if session.summaryBootstrapTaskId = some task.taskId then
    let assigned := assignCompletionSeq next session.summaryBootstrapCompletionSeq
    { session with nextCompletionSeq := assigned.1, summaryBootstrapCompletionSeq := assigned.2 }
  else session

def taskTerminalSnapshot (task : DevqlTaskRecord) : Option InitSessionTaskTerminalSnapshot :=
  if task.status = .completed ∨ task.status = .failed ∨ task.status = .cancelled then
    some { taskId := task.taskId, status := task.status }
  else none

def recordTaskTerminalSnapshot (session : InitSessionRecord) (task : DevqlTaskRecord) :
    InitSessionRecord :=
  match taskTerminalSnapshot task with
  | none => session
  | some snapshot =>
    if session.initialSyncTaskId = some task.taskId then
      { session with initialSyncTerminal := some snapshot }
    else if session.ingestTaskId = some task.taskId then
      { session with ingestTerminal := some snapshot }
    else if session.embeddingsBootstrapTaskId = some task.taskId then
      { session with embeddingsBootstrapTerminal := some snapshot }
    else if session.summaryBootstrapTaskId = some task.taskId then
      { session with summaryBootstrapTerminal := some snapshot }
    else if session.followUpSyncTaskId = some task.taskId then
      { session with followUpSyncTerminal := some snapshot }
    else session

/-! ## Statuses -/

inductive SummaryBootstrapStatus where
  | queued
  | running
  | completed
  | failed
  deriving DecidableEq, Repr

structure SummaryBootstrapRunRecord where
  runId : String
  initSessionId : String
  request : SummaryBootstrapRequest
  status : SummaryBootstrapStatus
  error : Option String
  deriving DecidableEq, Repr

def summaryStatusFromTaskStatus : DevqlTaskStatus → SummaryBootstrapStatus
  | .queued => .queued
  | .running => .running
  | .completed => .completed
  | .failed | .cancelled => .failed

/-- `summary_run_from_task_ref`. -/
def summaryRunFromTask (task : DevqlTaskRecord) : Option SummaryBootstrapRunRecord :=
  match task.spec, task.initSessionId with
  | .summaryBootstrap request, some initSessionId =>
    some
      { runId := task.taskId, initSessionId, request,
        status := summaryStatusFromTaskStatus task.status, error := task.error }
  | _, _ => none

def taskStatusIsFailed (status : DevqlTaskStatus) : Bool :=
  status = .failed || status = .cancelled

def taskStatusIsTerminal (status : DevqlTaskStatus) : Bool :=
  status = .completed || status = .failed || status = .cancelled

def summaryStatusIsTerminal (status : SummaryBootstrapStatus) : Bool :=
  status = .completed || status = .failed

/-- The tasks of a session, as a reader of the queue has found them. -/
structure LoadedTasks where
  initialSync : Option DevqlTaskRecord
  ingest : Option DevqlTaskRecord
  followUpSync : Option DevqlTaskRecord
  embeddings : Option DevqlTaskRecord
  summaryRun : Option SummaryBootstrapRunRecord
  deriving DecidableEq, Repr

def effectiveTaskStatus (task : Option DevqlTaskRecord)
    (terminal : Option InitSessionTaskTerminalSnapshot) : Option DevqlTaskStatus :=
  (task.map (·.status)).or (terminal.map (·.status))

def initialSyncStatus (session : InitSessionRecord) (task : Option DevqlTaskRecord) :
    Option DevqlTaskStatus :=
  (effectiveTaskStatus task session.initialSyncTerminal).or
    (session.initialSyncCompletionSeq.map fun _ => .completed)

def ingestStatus (session : InitSessionRecord) (task : Option DevqlTaskRecord) :
    Option DevqlTaskStatus :=
  effectiveTaskStatus task session.ingestTerminal

def embeddingsBootstrapStatus (session : InitSessionRecord) (task : Option DevqlTaskRecord) :
    Option DevqlTaskStatus :=
  (effectiveTaskStatus task session.embeddingsBootstrapTerminal).or
    (session.embeddingsBootstrapCompletionSeq.map fun _ => .completed)

def followUpSyncStatus (session : InitSessionRecord) (task : Option DevqlTaskRecord) :
    Option DevqlTaskStatus :=
  (effectiveTaskStatus task session.followUpSyncTerminal).or
    (session.followUpSyncCompletionSeq.map fun _ => .completed)

def summaryBootstrapStatus (session : InitSessionRecord)
    (run : Option SummaryBootstrapRunRecord) : Option SummaryBootstrapStatus :=
  ((run.map (·.status)).or
    (session.summaryBootstrapTerminal.map fun terminal =>
      summaryStatusFromTaskStatus terminal.status)).or
    (session.summaryBootstrapCompletionSeq.map fun _ => .completed)

def activeTask (task : Option DevqlTaskRecord) : Option DevqlTaskRecord :=
  task.filter fun task => task.status = .queued || task.status = .running

def runningTask (task : Option DevqlTaskRecord) : Option DevqlTaskRecord :=
  task.filter fun task => task.status = .running

/-! ## Bootstraps and follow-up syncs -/

def sessionRequiresSemanticFollowUp (session : InitSessionRecord) : Bool :=
  session.selections.embeddingsBootstrap.isSome || session.selections.summariesBootstrap.isSome

section Loaded

variable (session : InitSessionRecord) (loaded : LoadedTasks)

def semanticBootstrapsTerminal : Bool :=
  (!session.selections.embeddingsBootstrap.isSome ||
      (embeddingsBootstrapStatus session loaded.embeddings).any taskStatusIsTerminal) &&
    (!session.selections.summariesBootstrap.isSome ||
      (summaryBootstrapStatus session loaded.summaryRun).any summaryStatusIsTerminal)

def semanticBootstrapsReady : Bool :=
  (!session.selections.embeddingsBootstrap.isSome ||
      (embeddingsBootstrapStatus session loaded.embeddings).any (· = .completed)) &&
    (!session.selections.summariesBootstrap.isSome ||
      (summaryBootstrapStatus session loaded.summaryRun).any (· = .completed))

/-- The embeddings bootstrap has failed. -/
def embeddingsFailed : Bool :=
  (embeddingsBootstrapStatus session loaded.embeddings).any taskStatusIsFailed

/-- The summary bootstrap has failed. -/
def summariesFailed : Bool :=
  (summaryBootstrapStatus session loaded.summaryRun).any (· = .failed)

def embeddingsBootstrapOutstandingAfterInitialSync : Bool :=
  session.selections.embeddingsBootstrap.isSome && session.initialSyncCompletionSeq.isSome &&
    session.embeddingsBootstrapCompletionSeq.isNone && !embeddingsFailed session loaded

def summaryBootstrapOutstandingAfterInitialSync : Bool :=
  session.selections.summariesBootstrap.isSome && session.initialSyncCompletionSeq.isSome &&
    session.summaryBootstrapCompletionSeq.isNone && !summariesFailed session loaded

/-- `Option::max`: no number is less than every number. -/
def latestCompletedSyncSeq : Option ℕ :=
  match session.initialSyncCompletionSeq, session.followUpSyncCompletionSeq with
  | some initial, some followUp => some (max initial followUp)
  | some initial, none => some initial
  | none, followUp => followUp

/-- The bootstrap was completed after the last completion of a sync. -/
def completedAfterSyncs (bootstrapCompletedSeq : Option ℕ) : Bool :=
  match bootstrapCompletedSeq, latestCompletedSyncSeq session with
  | some bootstrapCompletedSeq, some syncCompletedSeq => bootstrapCompletedSeq > syncCompletedSeq
  | _, _ => false

def embeddingsFollowUpPending : Bool :=
  session.followUpSyncRequired && session.selections.embeddingsBootstrap.isSome &&
    !embeddingsFailed session loaded &&
    completedAfterSyncs session session.embeddingsBootstrapCompletionSeq

def summariesFollowUpPending : Bool :=
  session.followUpSyncRequired && session.selections.summariesBootstrap.isSome &&
    !summariesFailed session loaded &&
    completedAfterSyncs session session.summaryBootstrapCompletionSeq

def semanticBootstrapStillOutstandingAfterInitialSync : Bool :=
  embeddingsBootstrapOutstandingAfterInitialSync session loaded ||
    summaryBootstrapOutstandingAfterInitialSync session loaded

def semanticFollowUpReadyForSync : Bool :=
  embeddingsFollowUpPending session loaded || summariesFollowUpPending session loaded

def semanticFollowUpPending : Bool :=
  (runningTask loaded.followUpSync).isSome ||
    semanticBootstrapStillOutstandingAfterInitialSync session loaded ||
    semanticFollowUpReadyForSync session loaded

def selectedSyncTerminal : Bool :=
  !session.selections.runSync ||
    (initialSyncStatus session loaded.initialSync).any taskStatusIsTerminal

def selectedTopLevelTerminal : Bool :=
  selectedSyncTerminal session loaded &&
    (!session.selections.runIngest ||
      (ingestStatus session loaded.ingest).any taskStatusIsTerminal)

/-- A task of the session has failed, as `maybe_enqueue_follow_up_sync` sees it. -/
def someTaskFailed : Bool :=
  (initialSyncStatus session loaded.initialSync).any taskStatusIsFailed ||
    (ingestStatus session loaded.ingest).any taskStatusIsFailed ||
    (followUpSyncStatus session loaded.followUpSync).any taskStatusIsFailed ||
    embeddingsFailed session loaded || summariesFailed session loaded

/-- The tests of `maybe_enqueue_follow_up_sync` after it has loaded the tasks. -/
def followUpSyncDue : Bool :=
  selectedSyncTerminal session loaded && !someTaskFailed session loaded &&
    (runningTask loaded.followUpSync).isNone && semanticFollowUpReadyForSync session loaded

/-! ## The session as it is reported -/

/-- What the view of a session takes from the workplane and from the lanes. -/
structure SessionStats where
  failedCurrentStateDetail : Option String
  currentStateHasPendingOrRunning : Bool
  embeddingJobsPendingOrRunning : Bool
  summaryJobsPendingOrRunning : Bool
  blockedEmbeddingReason : Option String
  blockedSummaryReason : Option String
  selectedLaneBlockingReason : Option String
  deriving DecidableEq, Repr

def taskFailed (task : Option DevqlTaskRecord) : Bool :=
  task.any fun task => task.status = .failed || task.status = .cancelled

/-- `session_fatal_failure_detail` returns a detail. -/
def hasFatalFailure (stats : SessionStats) : Bool :=
  taskFailed loaded.initialSync || taskFailed loaded.ingest || taskFailed loaded.followUpSync ||
    taskFailed loaded.embeddings || (loaded.summaryRun.any fun run => run.status = .failed) ||
    stats.failedCurrentStateDetail.isSome

/-- The session is reported as completed, with or without warnings. -/
def sessionCompleted (stats : SessionStats) : Bool :=
  let followUpPending := session.followUpSyncRequired && semanticFollowUpPending session loaded
  !hasFatalFailure loaded stats && selectedTopLevelTerminal session loaded &&
    semanticBootstrapsTerminal session loaded && !followUpPending &&
    !stats.currentStateHasPendingOrRunning && !stats.embeddingJobsPendingOrRunning &&
    !stats.summaryJobsPendingOrRunning && stats.blockedEmbeddingReason.isNone &&
    stats.blockedSummaryReason.isNone && stats.selectedLaneBlockingReason.isNone

end Loaded

end InitRuntime
end Bitloops
