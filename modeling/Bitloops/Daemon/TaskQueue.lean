import Mathlib.Data.List.AList
import Mathlib.Data.List.Infix
import Mathlib.Data.Prod.Lex
import Bitloops.Daemon.SyncMode
import Bitloops.Foundation.Coverage
import Bitloops.Foundation.Run
import Bitloops.Foundation.UpdateFirst

/-!
# The daemon's task queue

Requests are merged into a live task where the rules of `queue.rs` allow it, and become a task
of their own otherwise.  The scheduler starts at most one task for each repository and kind;
an execution works on a copy of its task, and finishes, fails or is requeued.  A restart
requeues the running tasks.

The world also keeps two records that no operation reads: the sync executions that were
started, and the sync requests that were accepted.
-/

namespace Bitloops
namespace Daemon

def maxTerminalTasks : ℕ := 64

/-! ## Merging -/

def isBackgroundProducerSource : DevqlTaskSource → Bool
  | .watcher | .postCheckout | .postCommit | .postMerge => true
  | _ => false

def shouldKeepDistinctProducerSources (existing incoming : DevqlTaskSource)
    (existingMode incomingMode : SyncTaskMode) : Bool :=
  if existing = incoming then false
  else if existing = .repoPolicyChange ∨ incoming = .repoPolicyChange then false
  else if ¬ isBackgroundProducerSource existing ∨ ¬ isBackgroundProducerSource incoming then false
  else if existing = .postCheckout ∧ incoming = .watcher ∧ isFullLike existingMode then false
  else if existing = .watcher ∧ incoming = .postCheckout ∧ existingMode.isPaths ∧
      isStrongerThanPaths incomingMode then
    false
  else true

def syncSpecsHaveCompatibleSnapshots (existing incoming : SyncTaskSpec) : Bool :=
  match existing.postCommitSnapshot, incoming.postCommitSnapshot with
  | none, none => true
  | some existing, some incoming => existing.commitSha = incoming.commitSha
  | _, _ => false

/-- `extend`, `sort` and `dedup`. -/
def extendPaths (paths incoming : List String) : List String := sortDedup (paths ++ incoming)

/-- The snapshot of the task with the changed paths of the request. -/
def extendSnapshot (existing incoming : PostCommitSnapshotSpec) : PostCommitSnapshotSpec :=
  { existing with changedPaths := extendPaths existing.changedPaths incoming.changedPaths }

def mergeSyncSnapshotMetadata (existing incoming : Option PostCommitSnapshotSpec) :
    Option PostCommitSnapshotSpec :=
  match existing, incoming with
  | none, some incoming => some incoming
  | some existing, some incoming =>
    if existing.commitSha = incoming.commitSha then some (extendSnapshot existing incoming)
    else some existing
  | existing, none => existing

/-- A sync request, as `merge_existing_task` sees it. -/
structure SyncRequestSpec where
  repoId : String
  source : DevqlTaskSource
  spec : SyncTaskSpec
  initSessionId : Option String
  deriving DecidableEq, Repr

/-- A live sync task of the repository and the init session whose spec satisfies `accepts`. -/
def matchesSyncTask (request : SyncRequestSpec) (accepts : SyncTaskSpec → Bool)
    (task : DevqlTaskRecord) : Bool :=
  task.repoId = request.repoId && task.kind = .sync && task.status.isLive &&
    task.initSessionId = request.initSessionId &&
    match task.spec.syncSpec? with
    | some existing =>
      !shouldKeepDistinctProducerSources task.source request.source existing.mode
          request.spec.mode &&
        syncSpecsHaveCompatibleSnapshots existing request.spec && accepts existing
    | none => false

/-- The task absorbs the request into its mode. -/
def absorbsRequest (request : SyncRequestSpec) (task : DevqlTaskRecord) : Bool :=
  (request.source ≠ .repoPolicyChange || task.status = .queued) &&
    matchesSyncTask request
      (fun existing => absorbsMode task.status existing.mode request.spec.mode) task

/-- A task after it has absorbed a request. -/
def absorbRequest (request : SyncRequestSpec) (now : ℕ) (task : DevqlTaskRecord) :
    DevqlTaskRecord :=
  match task.spec with
  | .sync existing =>
    let useIncomingSource :=
      request.source = .repoPolicyChange ||
        (task.source ≠ .repoPolicyChange && existing.mode.isPaths &&
          isStrongerThanPaths request.spec.mode)
    { task with
      spec := .sync
        { mode := mergeSyncModes existing.mode request.spec.mode
          postCommitSnapshot :=
            mergeSyncSnapshotMetadata existing.postCommitSnapshot
              request.spec.postCommitSnapshot }
      source := if useIncomingSource then request.source else task.source
      updatedAtUnix := now
      error := none }
  | _ => { task with updatedAtUnix := now, error := none }

/-- The task is queued for paths, and a path request can be added to it. -/
def takesPaths (request : SyncRequestSpec) (task : DevqlTaskRecord) : Bool :=
  task.status = .queued && matchesSyncTask request (fun existing => existing.mode.isPaths) task

/-- A path task after the paths of a request were added to it. -/
def addPaths (request : SyncRequestSpec) (paths : List String) (now : ℕ)
    (task : DevqlTaskRecord) : DevqlTaskRecord :=
  match task.spec with
  | .sync { mode := .paths existing, postCommitSnapshot } =>
    { task with
      spec := .sync
        { mode := .paths (extendPaths existing paths)
          postCommitSnapshot :=
            match postCommitSnapshot, request.spec.postCommitSnapshot with
            | some existing, some incoming => some (extendSnapshot existing incoming)
            | existing, _ => existing }
      updatedAtUnix := now
      error := none }
  | _ => { task with updatedAtUnix := now, error := none }

/-- The sync part of `merge_existing_task`. -/
def mergeSyncTask (request : SyncRequestSpec) (now : ℕ) (tasks : List DevqlTaskRecord) :
    Option (List DevqlTaskRecord × DevqlTaskRecord) :=
  let absorbed :=
    if request.spec.mode ≠ .validate then
      updateFirst? (absorbsRequest request) (absorbRequest request now) tasks
    else none
  match absorbed, request.spec.mode with
  | some merged, _ => some merged
  | none, .paths paths => updateFirst? (takesPaths request) (addPaths request paths now) tasks
  | none, _ => none

/-- The task into which a request is merged, and the tasks with it. -/
def mergeExistingTask (repoId : String) (source : DevqlTaskSource) (kind : DevqlTaskKind)
    (spec : DevqlTaskSpec) (initSessionId : Option String) (now : ℕ)
    (tasks : List DevqlTaskRecord) : Option (List DevqlTaskRecord × DevqlTaskRecord) :=
  match kind, spec with
  | .embeddingsBootstrap, _ | .summaryBootstrap, _ => none
  | .ingest, spec =>
    updateFirst?
      (fun task =>
        task.repoId = repoId && task.kind = .ingest && task.status.isLive &&
          task.initSessionId = initSessionId && task.spec = spec)
      (fun task => { task with updatedAtUnix := now, error := none }) tasks
  | .sync, .sync spec => mergeSyncTask { repoId, source, spec, initSessionId } now tasks
  | .sync, _ => none

/-! ## Scheduling -/

structure TaskLaneKey where
  repoId : String
  kind : DevqlTaskKind
  deriving DecidableEq, Repr

def taskLane (task : DevqlTaskRecord) : TaskLaneKey := ⟨task.repoId, task.kind⟩

def DevqlTaskRecord.isValidateSync (task : DevqlTaskRecord) : Bool :=
  match task.spec.syncSpec? with
  | some spec => spec.mode = .validate
  | none => false

def isGitHookSyncTask (task : DevqlTaskRecord) : Bool :=
  task.kind = .sync &&
    (task.source = .postCheckout || task.source = .postCommit || task.source = .postMerge) &&
    !task.isValidateSync

def DevqlTaskRecord.isRepoPolicyChangeSync (task : DevqlTaskRecord) : Bool :=
  task.kind = .sync && task.source = .repoPolicyChange

/-- The first component of `pending_sort_key`. -/
def pendingPriority (task : DevqlTaskRecord) : ℕ :=
  if task.isRepoPolicyChangeSync then 0
  else if isGitHookSyncTask task then 1
  else if task.kind = .embeddingsBootstrap ∨ task.kind = .summaryBootstrap then 3
  else if task.kind = .sync ∧ task.isValidateSync then 4
  else 2

def pendingSortKey (index : ℕ) (task : DevqlTaskRecord) : ℕ ×ₗ ℕ ×ₗ ℕ :=
  toLex (pendingPriority task, toLex (task.submittedAtUnix, index))

/-- The tests of the scheduling loop before it looks at the order. -/
def isRunnable (tasks : List DevqlTaskRecord) (pausedRepoIds blockedRepoIds : List String)
    (task : DevqlTaskRecord) : Bool :=
  let sameRepo (other : DevqlTaskRecord) : Bool := other.repoId = task.repoId
  let policyChangeBlocked :=
    tasks.any fun other => sameRepo other && other.isRepoPolicyChangeSync && other.status.isLive
  let syncBlocked :=
    tasks.any fun other => sameRepo other && other.kind = .sync && other.status.isLive
  let repoRunning := tasks.any fun other => sameRepo other && other.status = .running
  let laneRunning :=
    tasks.any fun other => other.status = .running && taskLane other = taskLane task
  task.status = .queued && task.repoId ∉ pausedRepoIds && task.repoId ∉ blockedRepoIds &&
    !(policyChangeBlocked && !task.isRepoPolicyChangeSync) &&
    !(task.kind = .ingest && syncBlocked) &&
    !(task.isRepoPolicyChangeSync && repoRunning) && !laneRunning

/-- The loop over the candidates: each lane keeps the one with the least key. -/
def selectForLane (selected : AList fun _ : TaskLaneKey => ℕ × DevqlTaskRecord)
    (candidate : ℕ × DevqlTaskRecord) : AList fun _ : TaskLaneKey => ℕ × DevqlTaskRecord :=
  match selected.lookup (taskLane candidate.2) with
  | some existing =>
    if pendingSortKey candidate.1 candidate.2 < pendingSortKey existing.1 existing.2 then
      selected.insert (taskLane candidate.2) candidate
    else selected
  | none => selected.insert (taskLane candidate.2) candidate

/-- The indexes of the tasks to start, in the order of their keys. -/
def nextRunnableTaskIndexesBlockingRepoIds (tasks : List DevqlTaskRecord)
    (pausedRepoIds blockedRepoIds : List String) : List ℕ :=
  let candidates :=
    (tasks.zipIdx.map fun entry => (entry.2, entry.1)).filter fun candidate =>
      isRunnable tasks pausedRepoIds blockedRepoIds candidate.2
  let selected := (candidates.foldl selectForLane ∅).entries.map fun entry => entry.2
  (orderBy (fun entry => pendingSortKey entry.1 entry.2) selected).map fun entry => entry.1

/-- A task that starts. -/
def startTask (now : ℕ) (task : DevqlTaskRecord) : DevqlTaskRecord :=
  { task with
    status := .running
    startedAtUnix := some (task.startedAtUnix.getD now)
    updatedAtUnix := now
    error := none
    completedAtUnix := none }

/-- The loop of `schedule_pending_tasks`: start the tasks at the indexes; the second component
lists the copies that are executed. -/
def startTasks (now : ℕ) : List ℕ → List DevqlTaskRecord →
    List DevqlTaskRecord × List DevqlTaskRecord
  | [], tasks => (tasks, [])
  | index :: rest, tasks =>
    match tasks[index]? with
    | some task =>
      let started := startTasks now rest (tasks.set index (startTask now task))
      (started.1, startTask now task :: started.2)
    | none => startTasks now rest tasks

/-! ## Finishing and recovering -/

/-- `is_cancelled_join_error`. -/
def isCancelledJoinError (error : String) : Bool :=
  let lower := (error.map Char.toLower).toList
  "joining ".toList <:+: lower && " task: task ".toList <:+: lower &&
    (" was cancelled".toList <:+: lower || " was canceled".toList <:+: lower)

/-- A running task that goes back to the queue. -/
def requeueTask (now : ℕ) (task : DevqlTaskRecord) : DevqlTaskRecord :=
  { task with
    status := .queued
    startedAtUnix := none
    completedAtUnix := none
    updatedAtUnix := now
    error := none }

/-- What `finish_…_completed` or `finish_task_failed` writes. -/
def finishedTask (result : Except String Unit) (now : ℕ) (task : DevqlTaskRecord) :
    DevqlTaskRecord :=
  match result with
  | .ok () =>
    { task with
      status := .completed, updatedAtUnix := now, completedAtUnix := some now, error := none }
  | .error error =>
    if isCancelledJoinError error then requeueTask now task
    else
      { task with
        status := .failed
        updatedAtUnix := now
        completedAtUnix := some now
        error := some error }

/-- `update_sync_mode`. -/
def withSyncMode (mode : SyncTaskMode) (now : ℕ) (task : DevqlTaskRecord) : DevqlTaskRecord :=
  { task with
    spec :=
      match task.spec with
      | .sync spec => .sync { spec with mode }
      | spec => spec
    updatedAtUnix := now }

/-- The task with the id, rewritten; nothing happens without one. -/
def updateTask (taskId : String) (f : DevqlTaskRecord → DevqlTaskRecord)
    (tasks : List DevqlTaskRecord) : List DevqlTaskRecord :=
  match updateFirst? (fun task => task.taskId = taskId) f tasks with
  | some updated => updated.1
  | none => tasks

def recoverTask (now : ℕ) (task : DevqlTaskRecord) : DevqlTaskRecord :=
  if task.status = .running then requeueTask now task else task

/-- Keep the live tasks, the protected ones and the newest terminal ones. -/
def pruneTerminalTasks (protectedTaskIds : List String) (tasks : List DevqlTaskRecord) :
    List DevqlTaskRecord :=
  let terminal := tasks.filter fun task => !task.status.isLive && task.taskId ∉ protectedTaskIds
  let newest :=
    (orderBy (fun task => OrderDual.toDual task.updatedAtUnix) terminal).take maxTerminalTasks
  tasks.filter fun task =>
    task.status.isLive || task.taskId ∈ newest.map (·.taskId) || task.taskId ∈ protectedTaskIds

/-! ## The world -/

/-- What an execution works on, and what a request asks for. -/
structure SyncWork where
  repoId : String
  mode : SyncTaskMode
  deriving DecidableEq, Repr

structure World where
  tasks : List DevqlTaskRecord
  pausedRepoIds : List String
  /-- The copies on which executions work. -/
  inFlight : List DevqlTaskRecord
  executions : List SyncWork
  requests : List (Accepted SyncWork)

def World.empty : World := ⟨[], [], [], [], []⟩

/-- The sync work of a task. -/
def DevqlTaskRecord.syncWork? (task : DevqlTaskRecord) : Option SyncWork :=
  task.spec.syncSpec?.map fun spec => { repoId := task.repoId, mode := spec.mode }

/-- The sync work that waits in the queue. -/
def queuedWork (tasks : List DevqlTaskRecord) : List SyncWork :=
  (tasks.filter fun task => task.status = .queued).filterMap DevqlTaskRecord.syncWork?

structure EnqueueRequest where
  repoId : String
  source : DevqlTaskSource
  spec : DevqlTaskSpec
  initSessionId : Option String
  deriving DecidableEq, Repr

/-- `task_kind_from_spec`. -/
def taskKindFromSpec : DevqlTaskSpec → DevqlTaskKind
  | .sync _ => .sync
  | .ingest _ => .ingest
  | .embeddingsBootstrap _ => .embeddingsBootstrap
  | .summaryBootstrap _ => .summaryBootstrap

/-- A sync request other than a validation. -/
def EnqueueRequest.syncRequest? (request : EnqueueRequest) : Option SyncRequestSpec :=
  match request.spec with
  | .sync spec =>
    if spec.mode = .validate then none
    else
      some
        { repoId := request.repoId, source := request.source, spec,
          initSessionId := request.initSessionId }
  | _ => none

/-- The sync work that a request asks for. -/
def SyncRequestSpec.work (request : SyncRequestSpec) : SyncWork :=
  { repoId := request.repoId, mode := request.spec.mode }

inductive Action where
  /-- `taskId` is the identifier of the new task, if one is created. -/
  | enqueue (request : EnqueueRequest) (taskId : String) (now : ℕ)
  | schedulePendingTasks (blockedRepoIds : List String) (now : ℕ)
  /-- The part of `run_sync_task` that adapts the mode of the task. -/
  | prepareSync (taskId : String) (remoteCurrentStateRebuilt : Bool) (now : ℕ)
  | finishTask (taskId : String) (result : Except String Unit) (now : ℕ)
  /-- The execution ends without persisting a result. -/
  | loseExecution (taskId : String)
  | restart (now : ℕ)
  | pauseRepo (repoId : String)
  | resumeRepo (repoId : String)

/-- An operation; `protectedTaskIds` are the tasks of the active init sessions. -/
structure Op where
  action : Action
  protectedTaskIds : List String

def newTask (request : EnqueueRequest) (taskId : String) (now : ℕ) : DevqlTaskRecord where
  taskId := taskId
  repoId := request.repoId
  initSessionId := request.initSessionId
  kind := taskKindFromSpec request.spec
  source := request.source
  spec := request.spec
  status := .queued
  submittedAtUnix := now
  startedAtUnix := none
  updatedAtUnix := now
  completedAtUnix := none
  error := none

/-- `enqueue_with_init_session`: the tasks afterwards, the task that stands for the request,
and whether the request was merged into it. -/
def enqueueTask (request : EnqueueRequest) (taskId : String) (now : ℕ)
    (tasks : List DevqlTaskRecord) : List DevqlTaskRecord × DevqlTaskRecord × Bool :=
  match mergeExistingTask request.repoId request.source (taskKindFromSpec request.spec)
      request.spec request.initSessionId now tasks with
  | some (tasks, task) => (tasks, task, true)
  | none => (tasks ++ [newTask request taskId now], newTask request taskId now, false)

/-- The action without the pruning that follows each mutation.  `Uuid::new_v4` draws no
identifier that is in use. -/
def act (w : World) : Action → Option World
  | .enqueue request taskId now =>
    if taskId ∈ w.tasks.map (·.taskId) ∨ taskId ∈ w.inFlight.map (·.taskId) then none
    else
      some
        { w with
          tasks := (enqueueTask request taskId now w.tasks).1
          requests :=
            w.requests ++
              request.syncRequest?.toList.map fun request => ⟨request.work, w.executions.length⟩ }
  | .schedulePendingTasks blockedRepoIds now =>
    let started :=
      startTasks now
        (nextRunnableTaskIndexesBlockingRepoIds w.tasks w.pausedRepoIds blockedRepoIds) w.tasks
    some
      { w with
        tasks := started.1
        inFlight := w.inFlight ++ started.2
        executions := w.executions ++ started.2.filterMap DevqlTaskRecord.syncWork? }
  | .prepareSync taskId rebuilt now => do
    let task ← w.inFlight.find? fun task => task.taskId = taskId
    let spec ← task.spec.syncSpec?
    let mode := syncTaskModeFromHost (effectiveSyncMode spec.mode rebuilt)
    if spec.mode = mode then some w
    else some { w with tasks := updateTask taskId (withSyncMode mode now) w.tasks }
  | .finishTask taskId result now => do
    let task ← w.inFlight.find? fun task => task.taskId = taskId
    some
      { w with
        tasks := updateTask task.taskId (finishedTask result now) w.tasks
        inFlight := w.inFlight.filter fun other => other.taskId ≠ taskId }
  | .loseExecution taskId =>
    some { w with inFlight := w.inFlight.filter fun other => other.taskId ≠ taskId }
  | .restart now => some { w with tasks := w.tasks.map (recoverTask now), inFlight := [] }
  | .pauseRepo repoId => some { w with pausedRepoIds := repoId :: w.pausedRepoIds }
  | .resumeRepo repoId =>
    some { w with pausedRepoIds := w.pausedRepoIds.filter fun paused => paused ≠ repoId }

/-- One mutation of the persisted state. -/
def step (w : World) (op : Op) : Option World :=
  (act w op.action).map fun w' =>
    { w' with tasks := pruneTerminalTasks op.protectedTaskIds w'.tasks }

end Daemon
end Bitloops
