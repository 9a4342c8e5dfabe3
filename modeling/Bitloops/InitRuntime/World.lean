import Bitloops.Daemon.TaskQueue
import Bitloops.Foundation.KeyedTable
import Bitloops.InitRuntime.Session

/-!
# The coordinator of an init session

`start_session` enqueues the tasks of the session one after the other and stores the record only
then.  Every mutation of the queue publishes the tasks that it has changed, and each publication
runs `handle_task_update`: it records the task, enqueues the staged ingest and stores its id, and
enqueues a follow-up sync and stores its id.  All of these are steps of their own, and tasks start
and end in between.

The world holds one session and its tasks; a request is merged only into a task of its own
session.  It also keeps a clock that no step reads, with the last start and the completion of each
task.
-/

namespace Bitloops
namespace InitRuntime

open Daemon

/-! ## Reading the queue -/

def loadTaskById (tasks : List DevqlTaskRecord) (taskId : Option String) :
    Option DevqlTaskRecord :=
  taskId.bind fun taskId => findRow DevqlTaskRecord.taskId taskId tasks

def loadSummaryTaskById (tasks : List DevqlTaskRecord) (taskId : Option String) :
    Option DevqlTaskRecord :=
  (loadTaskById tasks taskId).filter fun task => task.kind = .summaryBootstrap

/-- The tasks of a session. -/
def loadTasks (tasks : List DevqlTaskRecord) (session : InitSessionRecord) : LoadedTasks where
  initialSync := loadTaskById tasks session.initialSyncTaskId
  ingest := loadTaskById tasks session.ingestTaskId
  followUpSync := loadTaskById tasks session.followUpSyncTaskId
  embeddings := loadTaskById tasks session.embeddingsBootstrapTaskId
  summaryRun :=
    (loadSummaryTaskById tasks session.summaryBootstrapTaskId).bind summaryRunFromTask

/-! ## The steps of a handler -/

/-- Where a run of `handle_task_update` stands. -/
inductive Handler where
  /-- The task was published, and nothing is recorded yet. -/
  | report (task : DevqlTaskRecord)
  | enqueueIngest
  | storeIngest (taskId : String)
  /-- `maybe_enqueue_follow_up_sync` begins. -/
  | loadSession
  | loadTasks (session : InitSessionRecord)
  | enqueueFollowUp
  | storeFollowUp (taskId : String)
  deriving DecidableEq, Repr

/-- The closure of the first `mutate_init_session_state`; the second component says whether the
staged ingest is to be enqueued. -/
def recordTaskUpdate (tasks : List DevqlTaskRecord) (session : InitSessionRecord)
    (task : DevqlTaskRecord) : InitSessionRecord × Bool :=
  let session := recordTaskTerminalSnapshot (recordTaskCompletionSeq session task) task
  if task.taskId = session.initialSyncTaskId.getD "" ∧ task.status = .completed then
    let enqueueIngest := session.selections.runIngest && session.ingestTaskId.isNone
    if !session.followUpSyncRequired && sessionRequiresSemanticFollowUp session &&
        !semanticBootstrapsReady session (loadTasks tasks session) then
      ({ session with followUpSyncRequired := true }, enqueueIngest)
    else (session, enqueueIngest)
  else (session, false)

/-! ## The world -/

structure World where
  /-- The tasks of the session. -/
  tasks : List DevqlTaskRecord
  /-- The record of the session. -/
  record : InitSessionRecord
  /-- What `start_session` has still to enqueue; `none` when the record is stored. -/
  starting : Option (List DevqlTaskSpec)
  handlers : List Handler
  clock : ℕ
  startedAt : String → ℕ
  completedAt : String → Option ℕ

def autoSyncSpec : DevqlTaskSpec := .sync { mode := .auto, postCommitSnapshot := none }

def ingestSpec (selections : StartInitSessionSelections) : DevqlTaskSpec :=
  .ingest { commits := [], backfill := selections.ingestBackfill }

/-- The tasks that `start_session` enqueues, in order. -/
def startSpecs (selections : StartInitSessionSelections) : List DevqlTaskSpec :=
  (if selections.runSync then [autoSyncSpec]
    else if selections.runIngest then [ingestSpec selections] else []) ++
    (selections.embeddingsBootstrap.map .embeddingsBootstrap).toList ++
    (selections.summariesBootstrap.map .summaryBootstrap).toList

/-- The record with the id of a task that `start_session` has enqueued. -/
def withStartedTask (spec : DevqlTaskSpec) (taskId : String) (session : InitSessionRecord) :
    InitSessionRecord :=
  match spec with
  | .sync _ => { session with initialSyncTaskId := some taskId }
  | .ingest _ => { session with ingestTaskId := some taskId }
  | .embeddingsBootstrap _ => { session with embeddingsBootstrapTaskId := some taskId }
  | .summaryBootstrap _ => { session with summaryBootstrapTaskId := some taskId }

def World.initial (initSessionId repoId : String) (selections : StartInitSessionSelections) :
    World where
  tasks := []
  record := newSession initSessionId repoId selections
  starting := some (startSpecs selections)
  handlers := []
  clock := 0
  startedAt := fun _ => 0
  completedAt := fun _ => none

/-- The record, once it is stored. -/
def World.session (w : World) : Option InitSessionRecord :=
  if w.starting = none then some w.record else none

/-- The task whose report is handled next. -/
def World.nextReport (w : World) : Option DevqlTaskRecord :=
  match w.handlers with
  | .report task :: _ => some task
  | _ => none

inductive Op where
  /-- `start_session` enqueues its next task; `taskId` is drawn for it. -/
  | startEnqueue (taskId : String) (now : ℕ)
  | startStore
  | startTask (taskId : String) (now : ℕ)
  | finishTask (taskId : String) (result : Except String Unit) (now : ℕ)
  | cancelTask (taskId : String) (now : ℕ)
  /-- A running task goes back to the queue. -/
  | requeueTask (taskId : String) (now : ℕ)
  /-- A running sync finds out its mode. -/
  | updateSyncMode (taskId : String) (mode : SyncTaskMode) (now : ℕ)
  /-- A task that has not ended is published again, with other progress. -/
  | touchTask (taskId : String) (now : ℕ)
  /-- Another handler moves next. -/
  | switchHandler
  /-- The first handler takes a step; `taskId` is drawn for the task that it may enqueue. -/
  | handle (taskId : String) (now : ℕ)

/-- `enqueue_with_init_session`, and the publication of the task. -/
def enqueue (spec : DevqlTaskSpec) (taskId : String) (now : ℕ) (w : World) :
    Option (World × DevqlTaskRecord) :=
  if taskId = "" ∨ taskId ∈ w.tasks.map (·.taskId) then none
  else
    let enqueued :=
      enqueueTask
        { repoId := w.record.repoId, source := .init, spec,
          initSessionId := some w.record.initSessionId }
        taskId now w.tasks
    some
      ({ w with tasks := enqueued.1, handlers := w.handlers ++ [.report enqueued.2.1] },
        enqueued.2.1)

/-- A mutation of the task with the id, if it is in a state that allows it. -/
def mutateTask (taskId : String) (allowed : DevqlTaskRecord → Bool)
    (f : DevqlTaskRecord → DevqlTaskRecord) (w : World) : Option World := do
  let task ← findRow DevqlTaskRecord.taskId taskId w.tasks
  if allowed task then
    some
      { w with
        tasks := updateAt DevqlTaskRecord.taskId taskId f w.tasks
        handlers := w.handlers ++ [.report (f task)] }
  else none

/-- A queued task that is cancelled. -/
def cancelledTask (now : ℕ) (task : DevqlTaskRecord) : DevqlTaskRecord :=
  { task with
    status := .cancelled, updatedAtUnix := now, completedAtUnix := some now, error := none }

/-- A task with other progress. -/
def touchedTask (now : ℕ) (task : DevqlTaskRecord) : DevqlTaskRecord :=
  { task with updatedAtUnix := now }

/-- The next step of a handler that is not in `w.handlers` any more. -/
def handlerStep (taskId : String) (now : ℕ) (w : World) : Handler → Option World
  | .report task =>
    if w.starting = none then
      let recorded := recordTaskUpdate w.tasks w.record task
      some
        { w with
          record := recorded.1
          handlers := (if recorded.2 then .enqueueIngest else .loadSession) :: w.handlers }
    else some { w with handlers := .loadSession :: w.handlers }
  | .enqueueIngest => do
    let (w, task) ← enqueue (ingestSpec w.record.selections) taskId now w
    some { w with handlers := .storeIngest task.taskId :: w.handlers }
  | .storeIngest ingestTaskId =>
    some
      { w with
        record := { w.record with ingestTaskId := some ingestTaskId, ingestTerminal := none }
        handlers := .loadSession :: w.handlers }
  | .loadSession =>
    if w.starting = none ∧ w.record.followUpSyncRequired then
      some { w with handlers := .loadTasks w.record :: w.handlers }
    else some w
  | .loadTasks session =>
    if followUpSyncDue session (loadTasks w.tasks session) then
      some { w with handlers := .enqueueFollowUp :: w.handlers }
    else some w
  | .enqueueFollowUp => do
    let (w, task) ← enqueue autoSyncSpec taskId now w
    some { w with handlers := .storeFollowUp task.taskId :: w.handlers }
  | .storeFollowUp followUpTaskId =>
    some
      { w with
        record :=
          { w.record with
            followUpSyncTaskId := some followUpTaskId, followUpSyncTerminal := none } }

def step (w : World) : Op → Option World
  | .startEnqueue taskId now =>
    match w.starting with
    | some (spec :: specs) => do
      let (w, task) ← enqueue spec taskId now w
      some { w with record := withStartedTask spec task.taskId w.record, starting := some specs }
    | _ => none
  | .startStore => if w.starting = some [] then some { w with starting := none } else none
  | .startTask taskId now =>
    (mutateTask taskId (fun task => task.status = .queued) (Daemon.startTask now) w).map fun w =>
      { w with
        clock := w.clock + 1
        startedAt := Function.update w.startedAt taskId (w.clock + 1) }
  | .finishTask taskId result now =>
    (mutateTask taskId (fun task => task.status = .running) (finishedTask result now) w).map
      fun w =>
        match result with
        | .ok () =>
          { w with
            clock := w.clock + 1
            completedAt := Function.update w.completedAt taskId (some (w.clock + 1)) }
        | .error _ => w
  | .cancelTask taskId now =>
    mutateTask taskId (fun task => task.status = .queued) (cancelledTask now) w
  | .requeueTask taskId now =>
    mutateTask taskId (fun task => task.status = .running) (Daemon.requeueTask now) w
  | .updateSyncMode taskId mode now =>
    mutateTask taskId (fun task => task.status = .running) (withSyncMode mode now) w
  | .touchTask taskId now =>
    mutateTask taskId (fun task => task.status.isLive) (touchedTask now) w
  | .switchHandler =>
    match w.handlers with
    | h :: rest => some { w with handlers := rest ++ [h] }
    | [] => none
  | .handle taskId now =>
    match w.handlers with
    | h :: rest => handlerStep taskId now { w with handlers := rest } h
    | [] => none

end InitRuntime
end Bitloops
