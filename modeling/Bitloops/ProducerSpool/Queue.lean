import Bitloops.ProducerSpool.Payload

/-!
# The DevQL producer spool queue

Jobs are rows of `devql_producer_spool_jobs`.  This file models the operations on the table:
the enqueue with its merge into a pending job of the same dedupe key, the exclusion pruning,
the claim with its guards, and the requeue, delete and recovery of claimed jobs.

The clock, the identifiers that `Uuid::new_v4` draws and the exclusion matchers that are
loaded from the repositories are parameters.
-/

namespace Bitloops
namespace ProducerSpool

open Daemon

def claimBatchLimit : ℕ := 16

def requeueBackoffSecs : ℕ := 5

inductive ProducerSpoolJobStatus where
  | pending
  | running
  deriving DecidableEq, Repr

structure ProducerSpoolJobRecord where
  jobId : String
  repoId : String
  repoRoot : String
  configRoot : String
  repoName : String
  repoProvider : String
  repoOrganisation : String
  repoIdentity : String
  dedupeKey : Option String
  payload : ProducerSpoolJobPayload
  status : ProducerSpoolJobStatus
  attempts : ℕ
  availableAtUnix : ℕ
  submittedAtUnix : ℕ
  updatedAtUnix : ℕ
  lastError : Option String
  deriving DecidableEq, Repr

/-- The repository columns of a job, as the runtime store and the repo identity give them. -/
structure SpoolRepo where
  repoId : String
  repoRoot : String
  configRoot : String
  name : String
  provider : String
  organization : String
  identity : String
  deriving DecidableEq, Repr

/-- A repository for the runs on fixed inputs. -/
def sampleRepo : SpoolRepo where
  repoId := "repo-1"
  repoRoot := "/tmp/repo"
  configRoot := "/tmp/config"
  name := "repo"
  provider := "local"
  organization := "local"
  identity := "repo"

structure ProducerSpoolJobInsert where
  dedupeKey : Option String
  payload : ProducerSpoolJobPayload
  deriving DecidableEq, Repr

/-- The rows of the spool. -/
abbrev Spool := List ProducerSpoolJobRecord

/-- `UPDATE … WHERE job_id = …`. -/
def updateJob (jobId : String) (f : ProducerSpoolJobRecord → ProducerSpoolJobRecord)
    (spool : Spool) : Spool :=
  spool.map fun job => if job.jobId = jobId then f job else job

/-- `delete_producer_spool_job`. -/
def deleteProducerSpoolJob (jobId : String) (spool : Spool) : Spool :=
  spool.filter fun job => job.jobId != jobId

theorem mem_updateJob {jobId : String} {f : ProducerSpoolJobRecord → ProducerSpoolJobRecord}
    {spool : Spool} {job' : ProducerSpoolJobRecord} :
    job' ∈ updateJob jobId f spool ↔
      ∃ job ∈ spool, (if job.jobId = jobId then f job else job) = job' := by
  simp [updateJob]

theorem mem_deleteProducerSpoolJob {jobId : String} {spool : Spool}
    {job : ProducerSpoolJobRecord} :
    job ∈ deleteProducerSpoolJob jobId spool ↔ job ∈ spool ∧ job.jobId ≠ jobId := by
  simp [deleteProducerSpoolJob]

/-! ## Enqueue -/

/-- `load_pending_deduped_job`: the oldest pending job of the repo with the dedupe key. -/
def loadPendingDedupedJob (repoId : String) (dedupeKey : Option String) (spool : Spool) :
    Option ProducerSpoolJobRecord :=
  match dedupeKey with
  | none => none
  | some key =>
    (orderBy (fun job => toLex (job.submittedAtUnix, job.jobId))
      (spool.filter fun job =>
        job.repoId = repoId ∧ job.dedupeKey = some key ∧ job.status = .pending)).head?

/-- `enqueue_job`: merge into the pending job with the same dedupe key, or insert. -/
def enqueueJob (now : ℕ) (jobId : String) (repo : SpoolRepo) (job : ProducerSpoolJobInsert)
    (spool : Spool) : Spool :=
  match loadPendingDedupedJob repo.repoId job.dedupeKey spool with
  | some existing =>
    updateJob existing.jobId
      (fun row =>
        { row with
          payload := mergePendingPayload existing.payload job.payload
          updatedAtUnix := now
          availableAtUnix := now
          lastError := none })
      spool
  | none =>
    spool ++
      [{ jobId
         repoId := repo.repoId
         repoRoot := repo.repoRoot
         configRoot := repo.configRoot
         repoName := repo.name
         repoProvider := repo.provider
         repoOrganisation := repo.organization
         repoIdentity := repo.identity
         dedupeKey := job.dedupeKey
         payload := job.payload
         status := .pending
         attempts := 0
         availableAtUnix := now
         submittedAtUnix := now
         updatedAtUnix := now
         lastError := none }]

/-! ## Pruning -/

/-- The row with its pruned payload; a row whose payload is unchanged is left alone. -/
def storePruned (now : ℕ) (job : ProducerSpoolJobRecord) (payload : ProducerSpoolJobPayload) :
    ProducerSpoolJobRecord :=
  if payload ≠ job.payload then { job with payload, updatedAtUnix := now, lastError := none }
  else job

/-- What the pruning does to one row: pending jobs lose their excluded paths, and a job
without paths left is deleted. -/
def pruneJob (now : ℕ) (matcherAt : String → RepoExclusionMatcher)
    (job : ProducerSpoolJobRecord) : Option ProducerSpoolJobRecord :=
  if job.status = .pending then
    (pruneExcludedPathsFromPayload (matcherAt job.repoRoot) job.payload).map (storePruned now job)
  else some job

section storePruned

variable (now : ℕ) (job : ProducerSpoolJobRecord) (payload : ProducerSpoolJobPayload)

@[simp] theorem storePruned_payload : (storePruned now job payload).payload = payload := by
  unfold storePruned
  split
  · rfl
  · rename_i heq
    exact (not_ne_iff.mp heq).symm

@[simp] theorem storePruned_jobId : (storePruned now job payload).jobId = job.jobId := by
  unfold storePruned
  split <;> rfl

@[simp] theorem storePruned_repoId : (storePruned now job payload).repoId = job.repoId := by
  unfold storePruned
  split <;> rfl

@[simp] theorem storePruned_repoRoot : (storePruned now job payload).repoRoot = job.repoRoot := by
  unfold storePruned
  split <;> rfl

@[simp] theorem storePruned_dedupeKey :
    (storePruned now job payload).dedupeKey = job.dedupeKey := by
  unfold storePruned
  split <;> rfl

@[simp] theorem storePruned_status : (storePruned now job payload).status = job.status := by
  unfold storePruned
  split <;> rfl

@[simp] theorem storePruned_availableAtUnix :
    (storePruned now job payload).availableAtUnix = job.availableAtUnix := by
  unfold storePruned
  split <;> rfl

@[simp] theorem storePruned_submittedAtUnix :
    (storePruned now job payload).submittedAtUnix = job.submittedAtUnix := by
  unfold storePruned
  split <;> rfl

end storePruned

/-- `prune_excluded_pending_producer_spool_jobs`, with the exclusion matcher of each repo
root. -/
def pruneExcludedPendingProducerSpoolJobs (now : ℕ)
    (matcherAt : String → RepoExclusionMatcher) (spool : Spool) : Spool :=
  spool.filterMap (pruneJob now matcherAt)

/-! ## Claim -/

structure ProducerSpoolRunningTask where
  repoId : String
  kind : DevqlTaskKind
  source : DevqlTaskSource
  deriving DecidableEq, Repr

inductive ProducerSpoolAdmissionClass where
  | promoteVisibleTask (kind : DevqlTaskKind)
  | expandVisibleTask (kind : DevqlTaskKind)
  | expandVisibleTasks (kinds : List DevqlTaskKind)
  | inlineRepoExclusive
  deriving DecidableEq, Repr

/-- `task_kind_from_spec`. -/
def taskKindFromSpec : DevqlTaskSpec → DevqlTaskKind
  | .sync _ => .sync
  | .ingest _ => .ingest
  | .embeddingsBootstrap _ => .embeddingsBootstrap
  | .summaryBootstrap _ => .summaryBootstrap

/-- `producer_spool_admission_class`. -/
def producerSpoolAdmissionClass : ProducerSpoolJobPayload → ProducerSpoolAdmissionClass
  | .task _ spec => .promoteVisibleTask (taskKindFromSpec spec)
  | .postCommitRefresh _ _ | .postMergeSyncRefresh _ _ _ => .expandVisibleTask .sync
  | .postMergeIngestBackfill _ _ => .expandVisibleTask .ingest
  | .postMergeRefresh _ _ => .expandVisibleTasks [.sync, .ingest]
  | .postCommitDerivation _ _ _ | .prePushSync _ _ => .inlineRepoExclusive

/-- `producer_spool_payload_conflicts_with_running_task`. -/
def producerSpoolPayloadConflictsWithRunningTask (payload : ProducerSpoolJobPayload)
    (jobRepoId : String) (runningTask : ProducerSpoolRunningTask) : Bool :=
  if runningTask.repoId ≠ jobRepoId then false
  else if runningTask.kind = .sync ∧ runningTask.source = .repoPolicyChange then true
  else
    match producerSpoolAdmissionClass payload with
    | .promoteVisibleTask kind | .expandVisibleTask kind => runningTask.kind = kind
    | .expandVisibleTasks kinds => kinds.contains runningTask.kind
    | .inlineRepoExclusive => true

/-- Pairs of a repo and a commit whose derivation must wait, or is given up. -/
structure PostCommitDerivationClaimGuards where
  blocked : List (String × String) := []
  abandoned : List (String × String) := []
  deriving DecidableEq, Repr

/-- `producer_spool_payload_priority`. -/
def producerSpoolPayloadPriority : ProducerSpoolJobPayload → ℕ
  | .postCommitRefresh _ _ => 0
  | .postCommitDerivation _ _ _ => 1
  | _ => 0

/-- `producer_spool_claim_sort_key`. -/
def producerSpoolClaimSortKey (job : ProducerSpoolJobRecord) : ℕ ×ₗ ℕ ×ₗ ℕ ×ₗ String :=
  toLex (job.availableAtUnix, toLex (job.submittedAtUnix,
    toLex (producerSpoolPayloadPriority job.payload, job.jobId)))

/-- The repo and the commit of a derivation job. -/
def derivationKey (job : ProducerSpoolJobRecord) : Option (String × String) :=
  match job.payload with
  | .postCommitDerivation commitSha _ _ => some (job.repoId, commitSha)
  | _ => none

/-- `post_commit_derivation_is_blocked`. -/
def postCommitDerivationIsBlocked (guards : PostCommitDerivationClaimGuards)
    (job : ProducerSpoolJobRecord) : Bool :=
  (derivationKey job).any guards.blocked.contains

/-- `post_commit_derivation_is_abandoned`. -/
def postCommitDerivationIsAbandoned (guards : PostCommitDerivationClaimGuards)
    (job : ProducerSpoolJobRecord) : Bool :=
  (derivationKey job).any guards.abandoned.contains

/-- `load_running_repo_ids`. -/
def loadRunningRepoIds (spool : Spool) : List String :=
  (spool.filter fun job => job.status = .running).map ProducerSpoolJobRecord.repoId

/-- What a claim reads besides the spool. -/
structure ClaimRequest where
  blockedRepoIds : List String := []
  runningTasks : List ProducerSpoolRunningTask := []
  guards : PostCommitDerivationClaimGuards := {}
  deriving DecidableEq, Repr

/-- The outcome of the scan over the available jobs: what is claimed and what is given up. -/
structure ClaimScan where
  selected : List ProducerSpoolJobRecord := []
  claimedRepoIds : List String := []
  abandonedJobIds : List String := []

/-- A claimed job as it is handed to the worker. -/
def claimedJob (now : ℕ) (job : ProducerSpoolJobRecord) : ProducerSpoolJobRecord :=
  { job with status := .running, attempts := job.attempts + 1, updatedAtUnix := now }

/-- The row of a claimed job. -/
def markRunning (now : ℕ) (job : ProducerSpoolJobRecord) : ProducerSpoolJobRecord :=
  { claimedJob now job with lastError := none }

/-- One turn of the loop of `claim_next_producer_spool_jobs_excluding`: the scan leaves the
jobs alone once the batch is full. -/
def claimScanStep (request : ClaimRequest) (runningRepoIds : List String) (scan : ClaimScan)
    (job : ProducerSpoolJobRecord) : ClaimScan :=
  if claimBatchLimit ≤ scan.selected.length then scan
  else if request.blockedRepoIds.contains job.repoId then scan
  else if request.runningTasks.any
      (producerSpoolPayloadConflictsWithRunningTask job.payload job.repoId) then scan
  else if postCommitDerivationIsAbandoned request.guards job then
    { scan with abandonedJobIds := scan.abandonedJobIds ++ [job.jobId] }
  else if postCommitDerivationIsBlocked request.guards job then scan
  else if runningRepoIds.contains job.repoId || scan.claimedRepoIds.contains job.repoId then scan
  else
    { scan with
      selected := scan.selected ++ [job]
      claimedRepoIds := job.repoId :: scan.claimedRepoIds }

/-- The available pending jobs in the order of the claim. -/
def claimableJobs (now : ℕ) (spool : Spool) : List ProducerSpoolJobRecord :=
  orderBy producerSpoolClaimSortKey
    (spool.filter fun job => job.status = .pending ∧ job.availableAtUnix ≤ now)

def claimScan (now : ℕ) (request : ClaimRequest) (spool : Spool) : ClaimScan :=
  (claimableJobs now spool).foldl (claimScanStep request (loadRunningRepoIds spool)) {}

/-- `claim_next_producer_spool_jobs_excluding`: prune, scan the available jobs, delete the
abandoned derivations and mark the selected jobs running. -/
def claimNextProducerSpoolJobsExcluding (now : ℕ) (matcherAt : String → RepoExclusionMatcher)
    (request : ClaimRequest) (spool : Spool) : Spool × List ProducerSpoolJobRecord :=
  let pruned := pruneExcludedPendingProducerSpoolJobs now matcherAt spool
  let scan := claimScan now request pruned
  let kept := pruned.filter fun job => !scan.abandonedJobIds.contains job.jobId
  let selectedIds := scan.selected.map ProducerSpoolJobRecord.jobId
  (kept.map fun job => if job.jobId ∈ selectedIds then markRunning now job else job,
    scan.selected.map (claimedJob now))

/-! ## After the claim -/

/-- `requeue_producer_spool_job`. -/
def requeueProducerSpoolJob (now : ℕ) (jobId err : String) (spool : Spool) : Spool :=
  updateJob jobId
    (fun job =>
      { job with
        status := .pending
        availableAtUnix := now + requeueBackoffSecs
        updatedAtUnix := now
        lastError := some err })
    spool

/-- `recover_running_producer_spool_jobs`. -/
def recoverRunningProducerSpoolJobs (now : ℕ) (matcherAt : String → RepoExclusionMatcher)
    (spool : Spool) : Spool :=
  pruneExcludedPendingProducerSpoolJobs now matcherAt
    (spool.map fun job =>
      if job.status = .running then
        { job with status := .pending, availableAtUnix := now, updatedAtUnix := now }
      else job)

end ProducerSpool
end Bitloops
