import Bitloops.Foundation.SeqTable

/-!
# The agent lifecycle hook spool

Agent hooks append lifecycle jobs to the SQLite table `agent_lifecycle_spool_jobs`, and one
daemon worker claims them in the order of their `sequence`.  An older release kept the
jobs in `agent_lifecycle_stop_spool_jobs`; whenever the store is opened, every row of that
legacy table is copied into the spool with `INSERT OR IGNORE`, and the legacy table itself
is left as it is.

This file models the two tables and the operations on them.  Timestamps are parameters of
the operations, as is the identifier that `Uuid::new_v4` draws for a new job.  The JSON
columns are represented by the values they decode to.
-/

namespace Bitloops
namespace Lifecycle

def requeueBackoffSecs : ℕ := 5

def maxLifecycleJobAttempts : ℕ := 5

inductive LifecycleJobStatus where
  | pending
  | running
  | failed
  deriving DecidableEq, Repr

structure LifecycleWorkspaceSnapshot where
  modifiedFiles : List String := []
  newFiles : List String := []
  deletedFiles : List String := []
  deriving DecidableEq, Repr

structure LifecycleBoundarySnapshot where
  workspace : Option LifecycleWorkspaceSnapshot := none
  preUntrackedFiles : List String := []
  transcriptOffset : Option ℤ := none
  branchName : Option String := none
  isDefaultBranch : Option Bool := none
  deriving DecidableEq, Repr

structure LifecycleJobInsert where
  repoId : String
  repoRoot : String
  configRoot : String
  agentName : String
  hookName : String
  rawStdin : String
  workspaceSnapshot : Option LifecycleWorkspaceSnapshot
  boundarySnapshot : Option LifecycleBoundarySnapshot
  cwd : String
  receivedAtUnix : ℕ
  deriving DecidableEq, Repr

/-- A row of `agent_lifecycle_spool_jobs`. -/
structure LifecycleJobRecord where
  sequence : ℕ
  jobId : String
  repoId : String
  repoRoot : String
  configRoot : String
  agentName : String
  hookName : String
  rawStdin : String
  workspaceSnapshot : Option LifecycleWorkspaceSnapshot
  boundarySnapshot : Option LifecycleBoundarySnapshot
  cwd : String
  status : LifecycleJobStatus
  attempts : ℕ
  availableAtUnix : ℕ
  receivedAtUnix : ℕ
  updatedAtUnix : ℕ
  lastError : Option String
  deriving DecidableEq, Repr

/-- A row of the legacy table `agent_lifecycle_stop_spool_jobs`, in which the workspace
snapshot is not optional and there is no boundary snapshot. -/
structure LifecycleStopJob where
  jobId : String
  repoId : String
  repoRoot : String
  configRoot : String
  agentName : String
  hookName : String
  rawStdin : String
  workspaceSnapshot : LifecycleWorkspaceSnapshot
  cwd : String
  status : LifecycleJobStatus
  attempts : ℕ
  availableAtUnix : ℕ
  receivedAtUnix : ℕ
  updatedAtUnix : ℕ
  lastError : Option String
  deriving DecidableEq, Repr

/-- The spool table: rows in the order of their `AUTOINCREMENT` sequence, with the `UNIQUE`
constraint on `job_id`. -/
structure LifecycleSpool where
  table : SeqTable LifecycleJobRecord LifecycleJobRecord.sequence
  unique : (table.rows.map LifecycleJobRecord.jobId).Nodup

namespace LifecycleSpool

/-- The rows of the spool, in ascending sequence. -/
def jobs (s : LifecycleSpool) : List LifecycleJobRecord := s.table.rows

def empty : LifecycleSpool := ⟨SeqTable.empty, List.nodup_nil⟩

/-- Whether `job_id` occurs in the spool. -/
def hasJob (s : LifecycleSpool) (jobId : String) : Bool :=
  s.jobs.any fun r => r.jobId == jobId

theorem hasJob_eq_false {s : LifecycleSpool} {jobId : String} :
    s.hasJob jobId = false ↔ ∀ r ∈ s.jobs, r.jobId ≠ jobId := by
  simp [hasJob]

/-- `INSERT` of a row under the next sequence number; `none` when the `UNIQUE` constraint on
`job_id` rejects it. -/
def insertRow (s : LifecycleSpool) (mk : ℕ → LifecycleJobRecord) (jobId : String)
    (hseq : ∀ n, (mk n).sequence = n) (hid : ∀ n, (mk n).jobId = jobId) :
    Option LifecycleSpool :=
  if h : s.hasJob jobId = false then
    some
      { table := s.table.insert mk hseq
        unique := by
          simp only [SeqTable.rows_insert, List.map_append, List.map_cons, List.map_nil, hid]
          refine List.Nodup.append s.unique (List.nodup_singleton _) ?_
          intro x hx hx'
          obtain ⟨r, hr, rfl⟩ := List.mem_map.mp hx
          exact hasJob_eq_false.mp h r hr (List.mem_singleton.mp hx') }
  else none

/-- `UPDATE … SET …` on the rows, keeping `sequence` and `job_id`. -/
def update (s : LifecycleSpool) (f : LifecycleJobRecord → LifecycleJobRecord)
    (hseq : ∀ r, (f r).sequence = r.sequence) (hid : ∀ r, (f r).jobId = r.jobId) :
    LifecycleSpool where
  table := s.table.modify f hseq
  unique := by
    have h : (s.table.rows.map f).map LifecycleJobRecord.jobId
        = s.table.rows.map LifecycleJobRecord.jobId := by
      rw [List.map_map]
      exact List.map_congr_left fun r _ => hid r
    rw [SeqTable.rows_modify, h]
    exact s.unique

theorem jobs_insertRow {s s' : LifecycleSpool} {mk : ℕ → LifecycleJobRecord} {jobId : String}
    {hseq : ∀ n, (mk n).sequence = n} {hid : ∀ n, (mk n).jobId = jobId}
    (h : s.insertRow mk jobId hseq hid = some s') :
    s.hasJob jobId = false ∧ s'.jobs = s.jobs ++ [mk (s.table.last + 1)] := by
  unfold insertRow at h
  split at h
  · rename_i hnew
    cases h
    exact ⟨hnew, rfl⟩
  · cases h

@[simp] theorem jobs_update (s : LifecycleSpool) (f : LifecycleJobRecord → LifecycleJobRecord)
    (hseq : ∀ r, (f r).sequence = r.sequence) (hid : ∀ r, (f r).jobId = r.jobId) :
    (s.update f hseq hid).jobs = s.jobs.map f := rfl

end LifecycleSpool

/-! ## Operations of the store -/

/-- `insert_lifecycle_job`: the job enters as pending, available at once. -/
def insertLifecycleJob (now : ℕ) (jobId : String) (insert : LifecycleJobInsert)
    (s : LifecycleSpool) : Option LifecycleSpool :=
  s.insertRow
    (fun sequence =>
      { sequence
        jobId
        repoId := insert.repoId
        repoRoot := insert.repoRoot
        configRoot := insert.configRoot
        agentName := insert.agentName
        hookName := insert.hookName
        rawStdin := insert.rawStdin
        workspaceSnapshot := insert.workspaceSnapshot
        boundarySnapshot := insert.boundarySnapshot
        cwd := insert.cwd
        status := .pending
        attempts := 0
        availableAtUnix := now
        receivedAtUnix := if insert.receivedAtUnix = 0 then now else insert.receivedAtUnix
        updatedAtUnix := now
        lastError := none })
    jobId (fun _ => rfl) (fun _ => rfl)

/-- The spool row that the migration builds from a legacy row: status, attempts and
timestamps are copied, the boundary snapshot is `NULL`. -/
def LifecycleStopJob.toRecord (r : LifecycleStopJob) (sequence : ℕ) : LifecycleJobRecord where
  sequence := sequence
  jobId := r.jobId
  repoId := r.repoId
  repoRoot := r.repoRoot
  configRoot := r.configRoot
  agentName := r.agentName
  hookName := r.hookName
  rawStdin := r.rawStdin
  workspaceSnapshot := some r.workspaceSnapshot
  boundarySnapshot := none
  cwd := r.cwd
  status := r.status
  attempts := r.attempts
  availableAtUnix := r.availableAtUnix
  receivedAtUnix := r.receivedAtUnix
  updatedAtUnix := r.updatedAtUnix
  lastError := r.lastError

/-- `INSERT OR IGNORE` of one legacy row. -/
def insertOrIgnore (s : LifecycleSpool) (r : LifecycleStopJob) : LifecycleSpool :=
  (s.insertRow r.toRecord r.jobId (fun _ => rfl) (fun _ => rfl)).getD s

/-- `migrate_legacy_lifecycle_stop_spool_jobs`: copy the legacy rows in the order of their
`rowid`.  A missing legacy table is the empty list. -/
def migrateLegacyLifecycleStopSpoolJobs (legacy : List LifecycleStopJob) (s : LifecycleSpool) :
    LifecycleSpool :=
  legacy.foldl insertOrIgnore s

/-- `open_hook_safe_sqlite` and `initialise_lifecycle_spool_schema`: opening the store runs
the migration. -/
def openHookSafeSqlite (legacy : List LifecycleStopJob) (s : LifecycleSpool) : LifecycleSpool :=
  migrateLegacyLifecycleStopSpoolJobs legacy s

/-- `enqueue_lifecycle_job_hook_safe_at`: the migration is committed on its own, before the
insert, so it stays when the insert fails. -/
def enqueueLifecycleJobHookSafeAt (now : ℕ) (jobId : String) (insert : LifecycleJobInsert)
    (legacy : List LifecycleStopJob) (s : LifecycleSpool) : LifecycleSpool :=
  let opened := openHookSafeSqlite legacy s
  (insertLifecycleJob now jobId insert opened).getD opened

/-- `select_oldest_active_lifecycle_job`: the first row, by sequence, that is not failed. -/
def selectOldestActiveLifecycleJob (s : LifecycleSpool) : Option LifecycleJobRecord :=
  s.jobs.find? fun r => r.status != .failed

/-- `map_lifecycle_job`: a row without a boundary snapshot takes its workspace snapshot for
one. -/
def mapLifecycleJob (row : LifecycleJobRecord) : LifecycleJobRecord :=
  { row with
    boundarySnapshot := row.boundarySnapshot <|>
      row.workspaceSnapshot.map fun workspace => { workspace := some workspace } }

/-- `load_lifecycle_job`. -/
def loadLifecycleJob (s : LifecycleSpool) (jobId : String) : Option LifecycleJobRecord :=
  (s.jobs.find? fun r => r.jobId == jobId).map mapLifecycleJob

/-- `UPDATE … WHERE job_id = …`. -/
def updateJob (s : LifecycleSpool) (jobId : String)
    (f : LifecycleJobRecord → LifecycleJobRecord)
    (hseq : ∀ r, (f r).sequence = r.sequence) (hid : ∀ r, (f r).jobId = r.jobId) :
    LifecycleSpool :=
  s.update (fun r => if r.jobId = jobId then f r else r)
    (fun r => by split <;> simp [hseq])
    (fun r => by split <;> simp [hid])

/-- The `UPDATE` of a claim. -/
def LifecycleJobRecord.markRunning (now : ℕ) (r : LifecycleJobRecord) : LifecycleJobRecord :=
  { r with
    status := .running
    attempts := r.attempts + 1
    updatedAtUnix := now
    lastError := none }

/-- `claim_next_lifecycle_job`: nothing is claimed while the oldest active job is running or
not yet available. -/
def claimNextLifecycleJob (now : ℕ) (s : LifecycleSpool) :
    LifecycleSpool × Option LifecycleJobRecord :=
  match selectOldestActiveLifecycleJob s with
  | none => (s, none)
  | some job =>
    if job.status = .running then (s, none)
    else if now < job.availableAtUnix then (s, none)
    else
      let claimed := updateJob s job.jobId (.markRunning now) (fun _ => rfl) (fun _ => rfl)
      (claimed, loadLifecycleJob claimed job.jobId)

/-- `recover_running_lifecycle_jobs`. -/
def recoverRunningLifecycleJobs (now : ℕ) (s : LifecycleSpool) : LifecycleSpool :=
  s.update
    (fun r =>
      if r.status = .running then
        { r with status := .pending, availableAtUnix := now, updatedAtUnix := now }
      else r)
    (fun r => by split <;> rfl)
    (fun r => by split <;> rfl)

/-- `requeue_lifecycle_job`. -/
def requeueLifecycleJob (now : ℕ) (jobId lastError : String) (s : LifecycleSpool) :
    LifecycleSpool :=
  updateJob s jobId
    (fun r =>
      { r with
        status := .pending
        availableAtUnix := now + requeueBackoffSecs
        updatedAtUnix := now
        lastError := some lastError })
    (fun _ => rfl) (fun _ => rfl)

/-- `mark_lifecycle_job_failed`. -/
def markLifecycleJobFailed (now : ℕ) (jobId lastError : String) (s : LifecycleSpool) :
    LifecycleSpool :=
  updateJob s jobId
    (fun r => { r with status := .failed, updatedAtUnix := now, lastError := some lastError })
    (fun _ => rfl) (fun _ => rfl)

/-- `fail_or_requeue_lifecycle_job`. -/
def failOrRequeueLifecycleJob (now : ℕ) (job : LifecycleJobRecord) (lastError : String)
    (s : LifecycleSpool) : LifecycleSpool :=
  if maxLifecycleJobAttempts ≤ job.attempts then
    markLifecycleJobFailed now job.jobId lastError s
  else requeueLifecycleJob now job.jobId lastError s

/-- `delete_lifecycle_job`. -/
def deleteLifecycleJob (jobId : String) (s : LifecycleSpool) : LifecycleSpool where
  table := s.table.delete fun r => r.jobId != jobId
  unique := by
    rw [SeqTable.rows_delete]
    exact s.unique.sublist (List.filter_sublist.map _)

end Lifecycle
end Bitloops
