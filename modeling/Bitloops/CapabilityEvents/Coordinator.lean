import Bitloops.Foundation.Run
import Bitloops.CapabilityEvents.Plan

/-!
# The capability event coordinator

The coordinator records the generations of successful syncs, launches queued runs, executes
them and applies their completions.  Each of these is one transaction on the store, and they
interleave freely: `step` takes one of them, and a run of the coordinator is a list of
operations.

Besides the store, the state of the world holds the runs in flight, and two records that no
operation reads: the requests that were completed, and the mailboxes whose last run failed
or was cleared.
-/

namespace Bitloops
namespace CapabilityEvents

open CapabilityHost

def maxRunAttempts : ℕ := 5
def maxConcurrentCurrentStateRuns : ℕ := 1

/-! ## Recording a generation -/

/-- The fields of a sync summary that the coordinator reads. -/
structure SyncSummary where
  success : Bool
  mode : String
  activeBranch : Option String
  headCommitSha : Option String
  deriving DecidableEq, Repr

structure SyncGenerationInput where
  fileDiff : SyncFileDiff
  artefactDiff : SyncArtefactDiff
  sourceTaskId : Option String
  initSessionId : Option String
  deriving DecidableEq, Repr

/-- The repository of a sync and the mailboxes that the host registers for it. -/
structure SyncTarget where
  repoId : String
  repoRoot : String
  registrations : List CapabilityMailboxRegistration
  deriving DecidableEq, Repr

/-- A sync whose diff is not recorded. -/
def SyncSummary.skipped (summary : SyncSummary) : Prop :=
  summary.success = false ∨ summary.mode = "validate"

instance : DecidablePred SyncSummary.skipped := fun _ => inferInstanceAs (Decidable (_ ∨ _))

/-- The generation of a sync. -/
def newGeneration (target : SyncTarget) (summary : SyncSummary) (input : SyncGenerationInput)
    (now generationSeq : ℕ) : GenerationRow where
  repoId := target.repoId
  generationSeq := generationSeq
  sourceTaskId := input.sourceTaskId
  syncMode := summary.mode
  activeBranch := summary.activeBranch
  headCommitSha := summary.headCommitSha
  requiresFullReconcile := summary.mode = "full" ∨ summary.mode = "repair"
  createdAtUnix := now

/-- Insert the generation of a sync with the changes of its diff. -/
def insertGeneration (target : SyncTarget) (summary : SyncSummary) (input : SyncGenerationInput)
    (now : ℕ) (s : Store) : Store :=
  let generationSeq := nextGenerationSeq s target.repoId
  let generation := newGeneration target summary input now generationSeq
  insertArtefactChanges target.repoId generationSeq input.artefactDiff
    (insertFileChanges target.repoId generationSeq input.fileDiff
      { s with generations := s.generations ++ [generation] })

theorem latestGenerationSeq_insertGeneration (target : SyncTarget) (summary : SyncSummary)
    (input : SyncGenerationInput) (now : ℕ) (s : Store) (repoId : String) :
    latestGenerationSeq (insertGeneration target summary input now s) repoId =
      if repoId = target.repoId then some (nextGenerationSeq s repoId)
      else latestGenerationSeq s repoId :=
  latestGenerationSeq_append
    (g := newGeneration target summary input now (nextGenerationSeq s target.repoId)) rfl rfl repoId

/-- The cursor mailbox of a registration: the cursor policy and a current-state consumer. -/
def registeredMailbox? (repoId : String)
    (registration : CapabilityMailboxRegistration) : Option CursorMailbox :=
  match registration.policy, registration.handler with
  | .cursor, .currentStateConsumer _ =>
    some
      { repoId
        capabilityId := registration.capabilityId
        mailboxName := registration.mailboxName }
  | _, _ => none

/-- One iteration of the loop over the registrations. -/
def scheduleRegistration (target : SyncTarget) (input : SyncGenerationInput) (now : ℕ)
    (acc : Store × List StoredRunRecord) (registration : CapabilityMailboxRegistration) :
    Store × List StoredRunRecord :=
  match registeredMailbox? target.repoId registration with
  | none => acc
  | some mailbox =>
    let initSessionId :=
      if registration.initPolicy = .blocksInitCompletion then input.initSessionId else none
    let (s, run) :=
      ensureConsumerRun { mailbox, repoRoot := target.repoRoot, initSessionId, now }
        (upsertConsumerRow mailbox now acc.1)
    (s, acc.2 ++ run.toList)

/-- Insert the generation with its changes, and schedule a run for every cursor mailbox.  The
second component lists the runs that were scheduled. -/
def recordSyncGeneration (target : SyncTarget) (summary : SyncSummary)
    (input : SyncGenerationInput) (now : ℕ) (s : Store) : Store × List StoredRunRecord :=
  if summary.skipped then (s, [])
  else
    let (s, runs) :=
      target.registrations.foldl (scheduleRegistration target input now)
        (insertGeneration target summary input now s, [])
    (pruneTerminalRuns s, runs)

/-! ## Launching -/

def retryBackoffSeconds : ℕ → ℕ
  | 0 | 1 => 0
  | 2 => 5
  | 3 => 15
  | 4 => 30
  | _ => 60

/-- The loop of `load_claimable_runs` over the queued runs: skip the busy lanes and the runs in
backoff, and stop after `slots` runs. -/
def takeClaimable (now : ℕ) : ℕ → List String → List StoredRunRecord → List StoredRunRecord
  | 0, _, _ => []
  | _, _, [] => []
  | slots + 1, lanes, run :: rest =>
    if run.record.laneKey ∈ lanes then takeClaimable now (slots + 1) lanes rest
    else if run.record.updatedAtUnix + retryBackoffSeconds run.record.attempts > now then
      takeClaimable now (slots + 1) lanes rest
    else run :: takeClaimable now slots (run.record.laneKey :: lanes) rest

def loadClaimableRuns (now : ℕ) (s : Store) : List StoredRunRecord :=
  let candidates :=
    orderBy (fun run => run.record.submittedAtUnix)
      (s.runs.rows.filter fun run => run.record.status = .queued)
  let running := s.runs.rows.filter fun run => run.record.status = .running
  takeClaimable now (maxConcurrentCurrentStateRuns - running.length)
    (running.map fun run => run.record.laneKey) candidates

/-- A claimed run. -/
def claimRecord (now attempts : ℕ) (record : CapabilityEventRunRecord) :
    CapabilityEventRunRecord :=
  { record with
    status := .running
    attempts := attempts + 1
    startedAtUnix := some now
    updatedAtUnix := now }

/-- The update of one claimed run. -/
def claimRun (now : ℕ) (s : Store) (run : StoredRunRecord) : Store :=
  updateRun run.record.runId (claimRecord now run.record.attempts) (fun _ => rfl) s

/-- Mark the claimable runs as running; the second component is what is spawned. -/
def launchRunnableRuns (now : ℕ) (s : Store) : Store × List StoredRunRecord :=
  let claimable := loadClaimableRuns now s
  (claimable.foldl (claimRun now) s,
    claimable.map fun run =>
      { run with record := claimRecord now run.record.attempts run.record })

/-! ## Completion -/

inductive RunCompletion where
  | noopCompleted (run : CapabilityEventRunRecord)
  | completed (run : CapabilityEventRunRecord) (appliedToGenerationSeq : ℕ)
  | retryableFailure (run : CapabilityEventRunRecord) (error : String)
  | failed (run : CapabilityEventRunRecord) (error : String)
  deriving DecidableEq, Repr

def RunCompletion.run : RunCompletion → CapabilityEventRunRecord
  | .noopCompleted run | .completed run _ | .retryableFailure run _ | .failed run _ => run

def terminalOrRetry (run : CapabilityEventRunRecord) (error : String) : RunCompletion :=
  if run.attempts ≥ maxRunAttempts then .failed run error else .retryableFailure run error

/-- What `apply_completion` writes to the cursor row of the run's mailbox. -/
def completeCursor (completion : RunCompletion) (now : ℕ) (row : ConsumerCursorRow) :
    ConsumerCursorRow :=
  match completion with
  | .noopCompleted _ => { row with lastError := none, updatedAtUnix := now }
  | .completed _ applied =>
    { row with lastAppliedGenerationSeq := some applied, lastError := none, updatedAtUnix := now }
  | .retryableFailure _ error | .failed _ error =>
    { row with lastError := some error, updatedAtUnix := now }

/-- What `apply_completion` writes to the row of the run. -/
def completeRun (completion : RunCompletion) (now : ℕ) (row : CapabilityEventRunRecord) :
    CapabilityEventRunRecord :=
  match completion with
  | .noopCompleted run | .completed run _ =>
    { withBounds run.fromGenerationSeq run.toGenerationSeq run.reconcileMode row with
      status := .completed
      updatedAtUnix := now
      completedAtUnix := some now
      error := none }
  | .retryableFailure _ error =>
    { row with
      status := .queued
      startedAtUnix := none
      updatedAtUnix := now
      completedAtUnix := none
      error := some error }
  | .failed _ error =>
    { row with
      status := .failed
      updatedAtUnix := now
      completedAtUnix := some now
      error := some error }

theorem completeRun_runId (completion : RunCompletion) (now : ℕ)
    (row : CapabilityEventRunRecord) : (completeRun completion now row).runId = row.runId := by
  cases completion <;> rfl

def applyCompletion (completion : RunCompletion) (now : ℕ) (s : Store) : Store :=
  pruneTerminalRuns
    (updateRun completion.run.runId (completeRun completion now) (completeRun_runId completion now)
      (updateCursorRow completion.run.mailbox (completeCursor completion now) s))

/-! ## Recovery and clearing -/

/-- Requeue the runs that a previous process left running. -/
def recoverRunningRuns (now : ℕ) (s : Store) : Store :=
  { s with
    runs := s.runs.modify
      (fun run =>
        if run.record.status = .running then
          { run with
            record :=
              { run.record with status := .queued, startedAtUnix := none, updatedAtUnix := now } }
        else run)
      (by intro run; split <;> rfl) }

def queuedOfRepo (repoId : String) (run : StoredRunRecord) : Prop :=
  run.record.mailbox.repoId = repoId ∧ run.record.status = .queued

instance (repoId : String) : DecidablePred (queuedOfRepo repoId) :=
  fun _ => inferInstanceAs (Decidable (_ ∧ _))

def clearQueuedRunsForRepo (repoId : String) (s : Store) : Store :=
  { s with runs := s.runs.delete fun run => ¬ queuedOfRepo repoId run }

/-! ## The world -/

/-- Where the execution of a launched run stands. -/
inductive ExecutionStage where
  | claimed
  | noop
  | planned (plan : ExecutionPlan)
  deriving DecidableEq, Repr

/-- A spawned execution: the run as it was claimed, and its stage. -/
structure InFlightRun where
  run : StoredRunRecord
  stage : ExecutionStage
  deriving DecidableEq, Repr

def InFlightRun.runId (execution : InFlightRun) : ℕ := execution.run.record.runId

def InFlightRun.mailbox (execution : InFlightRun) : CursorMailbox := execution.run.record.mailbox

/-- A request that was completed, with the generation that the consumer applied. -/
structure CompletedRequest where
  mailbox : CursorMailbox
  request : CurrentStateConsumerRequest
  appliedToGenerationSeq : ℕ
  deriving DecidableEq, Repr

structure World where
  store : Store
  inFlight : List InFlightRun
  completed : List CompletedRequest
  excused : List CursorMailbox

def World.empty : World := ⟨Store.empty, [], [], []⟩

/-- The mailbox has a queued or running run. -/
def hasActiveRun (s : Store) (mailbox : CursorMailbox) : Prop :=
  ∃ run ∈ s.runs.rows, run.record.mailbox = mailbox ∧ run.active

instance (s : Store) (mailbox : CursorMailbox) : Decidable (hasActiveRun s mailbox) :=
  inferInstanceAs (Decidable (∃ run ∈ s.runs.rows, _))

/-- Continue with the store `s`.  The mailboxes in `lost` have just lost their run; a mailbox
with an active run is not excused any more. -/
def World.withStore (w : World) (s : Store) (lost : List CursorMailbox) : World :=
  { w with
    store := s
    excused := (w.excused ++ lost).filter fun mailbox => ¬ hasActiveRun s mailbox }

/-- What the execution of a run ends with.  `outcome` is the result of the consumer, or the
error of the step that failed. -/
def InFlightRun.completion? (execution : InFlightRun)
    (outcome : Except String CurrentStateConsumerResult) : Option RunCompletion :=
  match execution.stage, outcome with
  | .noop, _ => some (.noopCompleted execution.run.record)
  | .claimed, .error error => some (terminalOrRetry execution.run.record error)
  | .claimed, .ok _ => none
  | .planned plan, .error error => some (terminalOrRetry plan.record error)
  | .planned plan, .ok result =>
    match validateConsumerResult plan.request result with
    | .ok () => some (.completed plan.record result.appliedToGenerationSeq)
    | .error error => some (terminalOrRetry plan.record error)

/-- The request that a completion completes. -/
def InFlightRun.completedRequest? (execution : InFlightRun) (completion : RunCompletion) :
    Option CompletedRequest :=
  match execution.stage, completion with
  | .planned plan, .completed run applied =>
    some { mailbox := run.mailbox, request := plan.request, appliedToGenerationSeq := applied }
  | _, _ => none

/-- The mailbox of a run that failed terminally. -/
def RunCompletion.failedMailbox? : RunCompletion → Option CursorMailbox
  | .failed run _ => some run.mailbox
  | _ => none

inductive Op where
  | recordSyncGeneration (target : SyncTarget) (summary : SyncSummary)
      (input : SyncGenerationInput) (now : ℕ)
  | forceConsumerRun (request : ConsumerRunRequest)
  | launchRunnableRuns (now : ℕ)
  /-- `execute_run` up to the plan. -/
  | buildExecutionPlan (runId now : ℕ)
  /-- The rest of `execute_run`, and `apply_completion`. -/
  | finishRun (runId : ℕ) (outcome : Except String CurrentStateConsumerResult) (now : ℕ)
  /-- The execution ends without persisting a completion. -/
  | loseRun (runId : ℕ)
  /-- The process ends, and the next one recovers. -/
  | restart (now : ℕ)
  | clearQueuedRunsForRepo (repoId : String)

/-- The plan of an execution, and the store it leaves. -/
def planExecution (execution : InFlightRun) (now : ℕ) (s : Store) : Store × ExecutionStage :=
  match buildExecutionPlan execution.run.record execution.run.repoRoot now s with
  | some (s, plan) => (s, .planned plan)
  | none => (s, .noop)

/-- One transaction. -/
def step (w : World) : Op → Option World
  | .recordSyncGeneration target summary input now =>
    some (w.withStore (recordSyncGeneration target summary input now w.store).1 [])
  | .forceConsumerRun request =>
    match forceConsumerRun request w.store with
    | .ok (s, _) => some (w.withStore s [])
    | .error _ => some w
  | .launchRunnableRuns now =>
    let (s, runs) := launchRunnableRuns now w.store
    some
      { w.withStore s [] with
        inFlight := w.inFlight ++ runs.map fun run => { run, stage := .claimed } }
  | .buildExecutionPlan runId now => do
    let execution ← findRow InFlightRun.runId runId w.inFlight
    if execution.stage = .claimed then
      let (s, stage) := planExecution execution now w.store
      some
        { w.withStore s [] with
          inFlight :=
            updateAt InFlightRun.runId runId (fun execution => { execution with stage })
              w.inFlight }
    else none
  | .finishRun runId outcome now => do
    let execution ← findRow InFlightRun.runId runId w.inFlight
    let completion ← execution.completion? outcome
    some
      { w.withStore (applyCompletion completion now w.store)
          completion.failedMailbox?.toList with
        inFlight := w.inFlight.filter fun execution => execution.runId ≠ runId
        completed := w.completed ++ (execution.completedRequest? completion).toList }
  | .loseRun runId =>
    some { w with inFlight := w.inFlight.filter fun execution => execution.runId ≠ runId }
  | .restart now =>
    some { w.withStore (recoverRunningRuns now w.store) [] with inFlight := [] }
  | .clearQueuedRunsForRepo repoId =>
    some
      (w.withStore (clearQueuedRunsForRepo repoId w.store)
        ((w.store.runs.rows.filter fun run => queuedOfRepo repoId run).map
          fun run => run.record.mailbox))

/-! ## A repository for the runs on fixed inputs -/

def sampleMailbox : CursorMailbox :=
  { repoId := "repo-1", capabilityId := "codecity", mailboxName := "codecity.snapshot" }

def sampleTarget : SyncTarget :=
  { repoId := "repo-1"
    repoRoot := "/tmp/repo"
    registrations :=
      [{ capabilityId := "codecity", mailboxName := "codecity.snapshot", policy := .cursor,
         handler := .currentStateConsumer "codecity.snapshot", initPolicy := .background }] }

/-- A successful sync that changed one file. -/
def sampleSync (mode contentId : String) (now : ℕ) : Op :=
  .recordSyncGeneration sampleTarget
    { success := true, mode, activeBranch := some "main", headCommitSha := none }
    { fileDiff :=
        { added := [], changed := [{ path := "src/a.rs", language := "rust", contentId }],
          removed := [] }
      artefactDiff := { added := [], changed := [], removed := [] }
      sourceTaskId := none
      initSessionId := none }
    now

end CapabilityEvents
end Bitloops
