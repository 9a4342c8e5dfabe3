import Bitloops.Foundation.Run
import Bitloops.ProducerSpool.Queue
import Mathlib.Data.List.Induction

/-!
# Derivation after refresh

The post-commit hook puts two jobs into the spool: a refresh, which enqueues a sync task for
the commit, and a derivation, which must wait for it.  The order rests on three things: the
claim sorts the jobs by availability, submission and priority; it hands out one job per repo;
and it leaves a derivation alone while the guards, taken from the task queue before the claim,
name its commit.

* `one_running_per_repo`: in every run, at most one job per repo is running.
* `derivation_follows_refresh`: a claim hands out no derivation whose refresh is in the spool
  or whose sync task is live, in every run whose claims find, before each such derivation,
  another eligible job of the repo (`ClaimInOrder`).  A refresh that is available no later
  than its derivation is such a job (`refresh_precedes`).
* `derivation_overtakes_refresh`: a refresh that was requeued with its backoff is overtaken.
-/

namespace Bitloops
namespace ProducerSpool

open Daemon

/-! ## The spool beside the task queue -/

/-- The repo and the commit of a live or finished post-commit sync task. -/
def postCommitSyncKey (task : DevqlTaskRecord) : Option (String × String) :=
  if task.kind = .sync ∧ task.source = .postCommit then
    (task.spec.syncSpec?.bind SyncTaskSpec.postCommitSnapshot).map fun snapshot =>
      (task.repoId, snapshot.commitSha)
  else none

/-- `post_commit_derivation_claim_guards`. -/
def postCommitDerivationClaimGuards (tasks : List DevqlTaskRecord) :
    PostCommitDerivationClaimGuards where
  blocked := (tasks.filter fun task => task.status = .queued ∨ task.status = .running).filterMap
    postCommitSyncKey
  abandoned := (tasks.filter fun task => task.status = .failed ∨ task.status = .cancelled).filterMap
    postCommitSyncKey

/-- What `schedule_pending_producer_spool_jobs` passes to the claim, from the tasks it loaded. -/
def claimRequest (blockedRepoIds : List String) (tasks : List DevqlTaskRecord) :
    ClaimRequest where
  blockedRepoIds := blockedRepoIds
  runningTasks := (tasks.filter fun task => task.status = .running).map fun task =>
    { repoId := task.repoId, kind := task.kind, source := task.source }
  guards := postCommitDerivationClaimGuards tasks

/-- The spool, the tasks of the queue, and the tasks that the scheduler loaded last. -/
structure SpoolWorld where
  spool : Spool := []
  tasks : List DevqlTaskRecord := []
  loaded : List DevqlTaskRecord := []

inductive SpoolOp where
  | enqueue (now : ℕ) (jobId : String) (repo : SpoolRepo) (job : ProducerSpoolJobInsert)
  /-- The task queue moves on, in whatever way. -/
  | tasksChange (tasks : List DevqlTaskRecord)
  | loadState
  | claim (now : ℕ) (matcherAt : String → RepoExclusionMatcher) (blockedRepoIds : List String)
  | requeue (now : ℕ) (jobId err : String)
  | delete (jobId : String)
  | recover (now : ℕ) (matcherAt : String → RepoExclusionMatcher)

/-- One operation.  An enqueue under an identifier in use violates the primary key. -/
def spoolStep (w : SpoolWorld) : SpoolOp → Option SpoolWorld
  | .enqueue now jobId repo job =>
    if w.spool.any fun row => row.jobId = jobId then none
    else some { w with spool := enqueueJob now jobId repo job w.spool }
  | .tasksChange tasks => some { w with tasks }
  | .loadState => some { w with loaded := w.tasks }
  | .claim now matcherAt blockedRepoIds =>
    some
      { w with
        spool := (claimNextProducerSpoolJobsExcluding now matcherAt
          (claimRequest blockedRepoIds w.loaded) w.spool).1 }
  | .requeue now jobId err => some { w with spool := requeueProducerSpoolJob now jobId err w.spool }
  | .delete jobId => some { w with spool := deleteProducerSpoolJob jobId w.spool }
  | .recover now matcherAt =>
    some { w with spool := recoverRunningProducerSpoolJobs now matcherAt w.spool }

/-! ## The scan of a claim -/

/-- The scan would take the job if its repo had no earlier one: nothing blocks the repo, no
running task is in the way, the guards do not hold a derivation back, and no job of the repo is
running. -/
def eligible (request : ClaimRequest) (runningRepoIds : List String)
    (job : ProducerSpoolJobRecord) : Bool :=
  !request.blockedRepoIds.contains job.repoId &&
    !request.runningTasks.any
      (producerSpoolPayloadConflictsWithRunningTask job.payload job.repoId) &&
    !postCommitDerivationIsAbandoned request.guards job &&
    !postCommitDerivationIsBlocked request.guards job &&
    !runningRepoIds.contains job.repoId

theorem eligible_iff {request : ClaimRequest} {runningRepoIds : List String}
    {job : ProducerSpoolJobRecord} :
    eligible request runningRepoIds job = true ↔
      request.blockedRepoIds.contains job.repoId = false ∧
        request.runningTasks.any
          (producerSpoolPayloadConflictsWithRunningTask job.payload job.repoId) = false ∧
        postCommitDerivationIsAbandoned request.guards job = false ∧
        postCommitDerivationIsBlocked request.guards job = false ∧
        runningRepoIds.contains job.repoId = false := by
  simp only [eligible, Bool.and_eq_true, Bool.not_eq_true', and_assoc]

/-- What the scan of a sorted list has established: what is selected is eligible and comes
first among the eligible jobs of its repo; unless the batch is full, every repo with an
eligible job is served; and no repo is served twice. -/
structure ScanInv (request : ClaimRequest) (runningRepoIds : List String)
    (jobs : List ProducerSpoolJobRecord) (scan : ClaimScan) : Prop where
  selected : ∀ j ∈ scan.selected, j ∈ jobs ∧ eligible request runningRepoIds j = true ∧
    ∀ x ∈ jobs, eligible request runningRepoIds x = true → x.repoId = j.repoId →
      producerSpoolClaimSortKey j ≤ producerSpoolClaimSortKey x
  served : scan.selected.length < claimBatchLimit →
    ∀ x ∈ jobs, eligible request runningRepoIds x = true → x.repoId ∈ scan.claimedRepoIds
  claimed : ∀ repoId, repoId ∈ scan.claimedRepoIds ↔ ∃ j ∈ scan.selected, j.repoId = repoId
  distinct : scan.selected.Pairwise fun a b => a.repoId ≠ b.repoId

theorem claimScanStep_cases (request : ClaimRequest) (runningRepoIds : List String)
    (scan : ClaimScan) (job : ProducerSpoolJobRecord) :
    (scan.selected.length < claimBatchLimit ∧ eligible request runningRepoIds job = true ∧
      job.repoId ∉ scan.claimedRepoIds ∧
      claimScanStep request runningRepoIds scan job =
        { scan with
          selected := scan.selected ++ [job], claimedRepoIds := job.repoId :: scan.claimedRepoIds }) ∨
    ((scan.selected.length < claimBatchLimit → eligible request runningRepoIds job = true →
        job.repoId ∈ scan.claimedRepoIds) ∧
      (claimScanStep request runningRepoIds scan job).selected = scan.selected ∧
      (claimScanStep request runningRepoIds scan job).claimedRepoIds = scan.claimedRepoIds) := by
  unfold claimScanStep
  split
  · rename_i hfull
    exact .inr ⟨fun hlt => absurd hlt (Nat.not_lt.mpr hfull), rfl, rfl⟩
  rename_i hbatch
  split
  · rename_i hrepo
    refine .inr ⟨fun _ helig => ?_, rfl, rfl⟩
    rw [(eligible_iff.mp helig).1] at hrepo
    cases hrepo
  rename_i hrepo
  split
  · rename_i htask
    refine .inr ⟨fun _ helig => ?_, rfl, rfl⟩
    rw [(eligible_iff.mp helig).2.1] at htask
    cases htask
  rename_i htask
  split
  · rename_i habandoned
    refine .inr ⟨fun _ helig => ?_, rfl, rfl⟩
    rw [(eligible_iff.mp helig).2.2.1] at habandoned
    cases habandoned
  rename_i habandoned
  split
  · rename_i hblocked
    refine .inr ⟨fun _ helig => ?_, rfl, rfl⟩
    rw [(eligible_iff.mp helig).2.2.2.1] at hblocked
    cases hblocked
  rename_i hblocked
  split
  · rename_i hbusy
    refine .inr ⟨fun _ helig => ?_, rfl, rfl⟩
    rw [(eligible_iff.mp helig).2.2.2.2, Bool.false_or] at hbusy
    exact List.contains_iff_mem.mp hbusy
  · rename_i hfree
    rw [Bool.not_eq_true, Bool.or_eq_false_iff] at hfree
    refine .inl ⟨Nat.not_le.mp hbatch, ?_, fun hmem => ?_, rfl⟩
    · exact eligible_iff.mpr ⟨Bool.not_eq_true _ ▸ hrepo, Bool.not_eq_true _ ▸ htask,
        Bool.not_eq_true _ ▸ habandoned, Bool.not_eq_true _ ▸ hblocked, hfree.1⟩
    · rw [List.contains_iff_mem.mpr hmem] at hfree
      cases hfree.2

/-- Appending a row that cannot be selected keeps the invariant, as does selecting a row that
can. -/
theorem ScanInv.step {request : ClaimRequest} {runningRepoIds : List String}
    {jobs : List ProducerSpoolJobRecord} {scan : ClaimScan} {job : ProducerSpoolJobRecord}
    (h : ScanInv request runningRepoIds jobs scan)
    (hsorted : ∀ x ∈ jobs, producerSpoolClaimSortKey x ≤ producerSpoolClaimSortKey job) :
    ScanInv request runningRepoIds (jobs ++ [job])
      (claimScanStep request runningRepoIds scan job) := by
  rcases claimScanStep_cases request runningRepoIds scan job with
    ⟨hbatch, helig, hfree, hstep⟩ | ⟨hserved, hselected, hclaimed⟩
  · rw [hstep]
    have hfirst : ∀ x ∈ jobs, eligible request runningRepoIds x = true → x.repoId ≠ job.repoId := by
      intro x hx hxelig hxrepo
      exact hfree (hxrepo ▸ h.served hbatch x hx hxelig)
    constructor
    · intro j hj
      rcases List.mem_append.mp hj with hj | hj
      · obtain ⟨hjobs, hjelig, hjfirst⟩ := h.selected j hj
        refine ⟨List.mem_append_left _ hjobs, hjelig, fun x hx hxelig hxrepo => ?_⟩
        rcases List.mem_append.mp hx with hx | hx
        · exact hjfirst x hx hxelig hxrepo
        · rw [List.mem_singleton.mp hx]
          exact hsorted j hjobs
      · rw [List.mem_singleton.mp hj]
        refine ⟨List.mem_append_right _ List.mem_cons_self, helig, fun x hx hxelig hxrepo => ?_⟩
        rcases List.mem_append.mp hx with hx | hx
        · exact absurd hxrepo (hfirst x hx hxelig)
        · rw [List.mem_singleton.mp hx]
    · intro hlt x hx hxelig
      rcases List.mem_append.mp hx with hx | hx
      · exact List.mem_cons_of_mem _ (h.served hbatch x hx hxelig)
      · rw [List.mem_singleton.mp hx]
        exact List.mem_cons_self
    · intro repoId
      simp only [List.mem_cons, h.claimed, List.mem_append]
      constructor
      · rintro (rfl | ⟨j, hj, rfl⟩)
        · exact ⟨job, .inr (.inl rfl), rfl⟩
        · exact ⟨j, .inl hj, rfl⟩
      · rintro ⟨j, hj | hj | hj, rfl⟩
        · exact .inr ⟨j, hj, rfl⟩
        · exact .inl (by rw [hj])
        · cases hj
    · refine List.pairwise_append.mpr ⟨h.distinct, List.pairwise_singleton _ _, ?_⟩
      intro j hj x hx hrepo
      rw [List.mem_singleton.mp hx] at hrepo
      exact hfree ((h.claimed _).mpr ⟨j, hj, hrepo⟩)
  · constructor
    · intro j hj
      rw [hselected] at hj
      obtain ⟨hjobs, hjelig, hjfirst⟩ := h.selected j hj
      refine ⟨List.mem_append_left _ hjobs, hjelig, fun x hx hxelig hxrepo => ?_⟩
      rcases List.mem_append.mp hx with hx | hx
      · exact hjfirst x hx hxelig hxrepo
      · rw [List.mem_singleton.mp hx]
        exact hsorted j hjobs
    · intro hlt x hx hxelig
      rw [hselected] at hlt
      rw [hclaimed]
      rcases List.mem_append.mp hx with hx | hx
      · exact h.served hlt x hx hxelig
      · rw [List.mem_singleton.mp hx] at hxelig ⊢
        exact hserved hlt hxelig
    · rw [hselected, hclaimed]
      exact h.claimed
    · rw [hselected]
      exact h.distinct

theorem scanInv_foldl (request : ClaimRequest) (runningRepoIds : List String)
    {jobs : List ProducerSpoolJobRecord}
    (hsorted : jobs.Pairwise fun a b =>
      producerSpoolClaimSortKey a ≤ producerSpoolClaimSortKey b) :
    ScanInv request runningRepoIds jobs
      (jobs.foldl (claimScanStep request runningRepoIds) {}) := by
  induction jobs using List.reverseRecOn with
  | nil => exact ⟨by simp, by simp, by simp, List.Pairwise.nil⟩
  | append_singleton jobs job ih =>
    obtain ⟨hjobs, -, hlast⟩ := List.pairwise_append.mp hsorted
    rw [List.foldl_append]
    exact (ih hjobs).step fun x hx => hlast x hx job List.mem_cons_self

/-- **The scan of a claim.** -/
theorem scanInv_claimScan (now : ℕ) (request : ClaimRequest) (spool : Spool) :
    ScanInv request (loadRunningRepoIds spool) (claimableJobs now spool)
      (claimScan now request spool) :=
  scanInv_foldl request _ (pairwise_orderBy _ _)

theorem mem_claimableJobs {now : ℕ} {spool : Spool} {job : ProducerSpoolJobRecord} :
    job ∈ claimableJobs now spool ↔
      job ∈ spool ∧ job.status = .pending ∧ job.availableAtUnix ≤ now := by
  simp [claimableJobs]

/-! ## The rows that the operations leave -/

/-- A row of the pruned spool is a row of the spool with, perhaps, fewer paths. -/
theorem mem_prune {now : ℕ} {matcherAt : String → RepoExclusionMatcher} {spool : Spool}
    {row : ProducerSpoolJobRecord}
    (h : row ∈ pruneExcludedPendingProducerSpoolJobs now matcherAt spool) :
    ∃ job ∈ spool, row.jobId = job.jobId ∧ row.repoId = job.repoId ∧ row.status = job.status := by
  obtain ⟨job, hjob, hrow⟩ := List.mem_filterMap.mp h
  refine ⟨job, hjob, ?_⟩
  unfold pruneJob at hrow
  split at hrow
  · obtain ⟨payload, -, rfl⟩ := Option.map_eq_some_iff.mp hrow
    exact ⟨storePruned_jobId .., storePruned_repoId .., storePruned_status ..⟩
  · cases hrow
    exact ⟨rfl, rfl, rfl⟩

theorem nodup_jobIds_prune {now : ℕ} {matcherAt : String → RepoExclusionMatcher} {spool : Spool}
    (h : (spool.map ProducerSpoolJobRecord.jobId).Nodup) :
    ((pruneExcludedPendingProducerSpoolJobs now matcherAt spool).map
      ProducerSpoolJobRecord.jobId).Nodup := by
  induction spool with
  | nil => exact List.nodup_nil
  | cons job spool ih =>
    obtain ⟨hjob, hspool⟩ := List.nodup_cons.mp h
    have hrest := ih hspool
    simp only [pruneExcludedPendingProducerSpoolJobs, List.filterMap_cons] at hrest ⊢
    cases hrow : pruneJob now matcherAt job with
    | none => exact hrest
    | some row =>
      refine List.nodup_cons.mpr ⟨fun hmem => hjob ?_, hrest⟩
      obtain ⟨row', hrow', hid⟩ := List.mem_map.mp hmem
      obtain ⟨job', hjob', hid', -, -⟩ := mem_prune hrow'
      have hrowid : row.jobId = job.jobId := by
        unfold pruneJob at hrow
        split at hrow
        · obtain ⟨payload, -, rfl⟩ := Option.map_eq_some_iff.mp hrow
          exact storePruned_jobId ..
        · cases hrow
          rfl
      rw [← hrowid, ← hid, hid']
      exact List.mem_map_of_mem hjob'

/-- What a claim leaves: rows of the pruned spool, the selected ones marked running. -/
theorem mem_claim {now : ℕ} {matcherAt : String → RepoExclusionMatcher} {request : ClaimRequest}
    {spool : Spool} {row : ProducerSpoolJobRecord}
    (h : row ∈ (claimNextProducerSpoolJobsExcluding now matcherAt request spool).1) :
    ∃ job ∈ pruneExcludedPendingProducerSpoolJobs now matcherAt spool,
      (row = job ∧ job.jobId ∉ (claimScan now request
          (pruneExcludedPendingProducerSpoolJobs now matcherAt spool)).selected.map
            ProducerSpoolJobRecord.jobId) ∨
      (row = markRunning now job ∧ job.jobId ∈ (claimScan now request
          (pruneExcludedPendingProducerSpoolJobs now matcherAt spool)).selected.map
            ProducerSpoolJobRecord.jobId) := by
  obtain ⟨job, hjob, rfl⟩ := List.mem_map.mp h
  refine ⟨job, List.mem_of_mem_filter hjob, ?_⟩
  by_cases hsel : job.jobId ∈ (claimScan now request
      (pruneExcludedPendingProducerSpoolJobs now matcherAt spool)).selected.map
        ProducerSpoolJobRecord.jobId
  · exact .inr ⟨if_pos hsel, hsel⟩
  · exact .inl ⟨if_neg hsel, hsel⟩

/-! ## One running job per repo -/

/-- Identifiers are unique, and two running rows of one repo are the same row. -/
structure ExclusiveInv (spool : Spool) : Prop where
  ids : (spool.map ProducerSpoolJobRecord.jobId).Nodup
  running : ∀ a ∈ spool, ∀ b ∈ spool, a.status = .running → b.status = .running →
    a.repoId = b.repoId → a.jobId = b.jobId

theorem eq_of_jobId_eq {spool : Spool} (h : (spool.map ProducerSpoolJobRecord.jobId).Nodup)
    {a b : ProducerSpoolJobRecord} (ha : a ∈ spool) (hb : b ∈ spool)
    (hab : a.jobId = b.jobId) : a = b :=
  List.inj_on_of_nodup_map h ha hb hab

/-- The invariant survives when every row left comes from a row that was there, and only
running rows become running rows. -/
theorem ExclusiveInv.of_rows {spool spool' : Spool} (h : ExclusiveInv spool)
    (hids : (spool'.map ProducerSpoolJobRecord.jobId).Nodup)
    (hrows : ∀ row ∈ spool', row.status = .running → ∃ job ∈ spool, row.jobId = job.jobId ∧
      row.repoId = job.repoId ∧ job.status = .running) :
    ExclusiveInv spool' := by
  refine ⟨hids, fun a ha b hb harun hbrun hrepo => ?_⟩
  obtain ⟨a', ha', haid, harepo, harun'⟩ := hrows a ha harun
  obtain ⟨b', hb', hbid, hbrepo, hbrun'⟩ := hrows b hb hbrun
  rw [haid, hbid]
  exact h.running a' ha' b' hb' harun' hbrun' (harepo.symm.trans (hrepo.trans hbrepo))

theorem map_jobId_updateJob (jobId : String)
    {f : ProducerSpoolJobRecord → ProducerSpoolJobRecord} (hf : ∀ job, (f job).jobId = job.jobId)
    (spool : Spool) :
    (updateJob jobId f spool).map ProducerSpoolJobRecord.jobId
      = spool.map ProducerSpoolJobRecord.jobId := by
  rw [updateJob, List.map_map]
  refine List.map_congr_left fun job _ => ?_
  simp only [Function.comp_apply]
  split
  · exact hf job
  · rfl

theorem ExclusiveInv.prune {spool : Spool} (h : ExclusiveInv spool) (now : ℕ)
    (matcherAt : String → RepoExclusionMatcher) :
    ExclusiveInv (pruneExcludedPendingProducerSpoolJobs now matcherAt spool) := by
  refine h.of_rows (nodup_jobIds_prune h.ids) fun row hrow hrun => ?_
  obtain ⟨job, hjob, hid, hrepo, hstatus⟩ := mem_prune hrow
  exact ⟨job, hjob, hid, hrepo, hstatus ▸ hrun⟩

theorem ExclusiveInv.enqueue {spool : Spool} (h : ExclusiveInv spool) {now : ℕ} {jobId : String}
    {repo : SpoolRepo} {job : ProducerSpoolJobInsert} (hnew : ∀ row ∈ spool, row.jobId ≠ jobId) :
    ExclusiveInv (enqueueJob now jobId repo job spool) := by
  unfold enqueueJob
  split
  · rename_i existing hexisting
    refine h.of_rows ?_ fun row hrow hrun => ?_
    · rw [map_jobId_updateJob]
      · exact h.ids
      · exact fun _ => rfl
    · obtain ⟨job', hjob', rfl⟩ := mem_updateJob.mp hrow
      refine ⟨job', hjob', ?_, ?_, ?_⟩
      · split <;> rfl
      · split <;> rfl
      · split at hrun <;> exact hrun
  · refine h.of_rows ?_ fun row hrow hrun => ?_
    · simp only [List.map_append, List.map_cons, List.map_nil]
      refine List.Nodup.append h.ids (List.nodup_singleton _) fun id hid hid' => ?_
      obtain ⟨row, hrow, rfl⟩ := List.mem_map.mp hid
      exact hnew row hrow (List.mem_singleton.mp hid')
    · rcases List.mem_append.mp hrow with hrow | hrow
      · exact ⟨row, hrow, rfl, rfl, hrun⟩
      · rw [List.mem_singleton.mp hrow] at hrun
        cases hrun

theorem mem_loadRunningRepoIds {spool : Spool} {repoId : String} :
    repoId ∈ loadRunningRepoIds spool ↔
      ∃ job ∈ spool, job.status = .running ∧ job.repoId = repoId := by
  simp [loadRunningRepoIds, and_assoc]

/-- A row whose identifier is selected is itself selected. -/
theorem selected_of_jobId_mem {now : ℕ} {request : ClaimRequest} {spool : Spool}
    (hids : (spool.map ProducerSpoolJobRecord.jobId).Nodup) {job : ProducerSpoolJobRecord}
    (hjob : job ∈ spool)
    (hid : job.jobId ∈ (claimScan now request spool).selected.map ProducerSpoolJobRecord.jobId) :
    job ∈ (claimScan now request spool).selected := by
  obtain ⟨sel, hsel, hselid⟩ := List.mem_map.mp hid
  have hmem := ((scanInv_claimScan now request spool).selected sel hsel).1
  rwa [← eq_of_jobId_eq hids (mem_claimableJobs.mp hmem).1 hjob hselid]

theorem ExclusiveInv.claim {spool : Spool} (h : ExclusiveInv spool) (now : ℕ)
    (matcherAt : String → RepoExclusionMatcher) (request : ClaimRequest) :
    ExclusiveInv (claimNextProducerSpoolJobsExcluding now matcherAt request spool).1 := by
  have hpruned := h.prune now matcherAt
  have hscan := scanInv_claimScan now request
    (pruneExcludedPendingProducerSpoolJobs now matcherAt spool)
  -- a selected row meets no running row of its repo
  have hfree : ∀ a ∈ pruneExcludedPendingProducerSpoolJobs now matcherAt spool,
      ∀ b ∈ (claimScan now request
        (pruneExcludedPendingProducerSpoolJobs now matcherAt spool)).selected,
      a.status = .running → a.repoId ≠ b.repoId := by
    intro a ha b hb harun hrepo
    have hidle := (eligible_iff.mp (hscan.selected b hb).2.1).2.2.2.2
    have hrunning := mem_loadRunningRepoIds.mpr ⟨a, ha, harun, hrepo⟩
    rw [List.contains_iff_mem.mpr hrunning] at hidle
    cases hidle
  constructor
  · have hmap : (claimNextProducerSpoolJobsExcluding now matcherAt request spool).1.map
        ProducerSpoolJobRecord.jobId
        = ((pruneExcludedPendingProducerSpoolJobs now matcherAt spool).filter fun job =>
          !(claimScan now request (pruneExcludedPendingProducerSpoolJobs now matcherAt
            spool)).abandonedJobIds.contains job.jobId).map ProducerSpoolJobRecord.jobId := by
      simp only [claimNextProducerSpoolJobsExcluding, List.map_map]
      refine List.map_congr_left fun job _ => ?_
      simp only [Function.comp_apply]
      split <;> rfl
    rw [hmap]
    exact hpruned.ids.sublist (List.filter_sublist.map _)
  · intro a ha b hb harun hbrun hrepo
    obtain ⟨a', ha', ⟨rfl, -⟩ | ⟨rfl, hasel⟩⟩ := mem_claim ha
    · obtain ⟨b', hb', ⟨rfl, -⟩ | ⟨rfl, hbsel⟩⟩ := mem_claim hb
      · exact hpruned.running a ha' b hb' harun hbrun hrepo
      · exact absurd hrepo (hfree a ha' b' (selected_of_jobId_mem hpruned.ids hb' hbsel) harun)
    · have hasel' := selected_of_jobId_mem hpruned.ids ha' hasel
      obtain ⟨b', hb', ⟨rfl, -⟩ | ⟨rfl, hbsel⟩⟩ := mem_claim hb
      · exact absurd hrepo.symm (hfree b hb' a' hasel' hbrun)
      · have hbsel' := selected_of_jobId_mem hpruned.ids hb' hbsel
        have hinj := List.inj_on_of_nodup_map (List.pairwise_map.mpr hscan.distinct) hasel' hbsel'
        exact congrArg (fun job => (markRunning now job).jobId) (hinj hrepo)

theorem ExclusiveInv.recover {spool : Spool} (h : ExclusiveInv spool) (now : ℕ)
    (matcherAt : String → RepoExclusionMatcher) :
    ExclusiveInv (recoverRunningProducerSpoolJobs now matcherAt spool) := by
  refine ExclusiveInv.prune (h.of_rows ?_ fun row hrow hrun => ?_) now matcherAt
  · rw [List.map_map]
    have hids := h.ids
    rwa [← List.map_congr_left (f := ProducerSpoolJobRecord.jobId)]
    intro job _
    simp only [Function.comp_apply]
    split <;> rfl
  · obtain ⟨job, hjob, rfl⟩ := List.mem_map.mp hrow
    split at hrun
    · cases hrun
    · rename_i hidle
      exact absurd hrun hidle

/-- **The step lemma of exclusion.** -/
theorem ExclusiveInv.step {w w' : SpoolWorld} {op : SpoolOp} (h : ExclusiveInv w.spool)
    (hstep : spoolStep w op = some w') : ExclusiveInv w'.spool := by
  cases op with
  | enqueue now jobId repo job =>
    simp only [spoolStep] at hstep
    split at hstep
    · cases hstep
    · rename_i hnew
      cases hstep
      refine h.enqueue fun row hrow hid => hnew ?_
      exact List.any_eq_true.mpr ⟨row, hrow, by simpa using hid⟩
  | tasksChange tasks =>
    cases hstep
    exact h
  | loadState =>
    cases hstep
    exact h
  | claim now matcherAt blockedRepoIds =>
    cases hstep
    exact h.claim now matcherAt _
  | requeue now jobId err =>
    cases hstep
    refine h.of_rows ?_ fun row hrow hrun => ?_
    · rw [requeueProducerSpoolJob, map_jobId_updateJob]
      · exact h.ids
      · exact fun _ => rfl
    · obtain ⟨job, hjob, rfl⟩ := mem_updateJob.mp hrow
      refine ⟨job, hjob, ?_⟩
      split at hrun
      · cases hrun
      · rename_i hne
        simp [hne, hrun]
  | delete jobId =>
    cases hstep
    refine h.of_rows (h.ids.sublist (List.filter_sublist.map _)) fun row hrow hrun => ?_
    exact ⟨row, (mem_deleteProducerSpoolJob.mp hrow).1, rfl, rfl, hrun⟩
  | recover now matcherAt =>
    cases hstep
    exact h.recover now matcherAt

def OneRunningPerRepo (spool : Spool) : Prop :=
  ∀ a ∈ spool, ∀ b ∈ spool, a.status = .running → b.status = .running →
    a.repoId = b.repoId → a = b

/-- **Exclusion.**  From an empty spool, at most one job per repo is running, after any
operations whatever. -/
theorem one_running_per_repo {w₀ w : SpoolWorld} {ops : List SpoolOp} (hstart : w₀.spool = [])
    (hrun : Run.exec spoolStep w₀ ops = some w) : OneRunningPerRepo w.spool := by
  have hinit : ExclusiveInv w₀.spool := by
    rw [hstart]
    exact ⟨List.nodup_nil, by simp⟩
  have hw := Run.exec_invariant (fun w : SpoolWorld => ExclusiveInv w.spool)
    (fun _ _ _ h hstep => h.step hstep) hinit hrun
  intro a ha b hb harun hbrun hrepo
  exact eq_of_jobId_eq hw.ids ha hb (hw.running a ha b hb harun hbrun hrepo)

/-! ## Derivation after refresh -/

/-- The repo and the commit of a refresh job. -/
def refreshKey (job : ProducerSpoolJobRecord) : Option (String × String) :=
  match job.payload with
  | .postCommitRefresh commitSha _ => some (job.repoId, commitSha)
  | _ => none

/-- The refresh of the commit is in the spool, or its post-commit sync task is live. -/
def RefreshOutstanding (spool : Spool) (tasks : List DevqlTaskRecord)
    (key : String × String) : Prop :=
  (∃ r ∈ spool, refreshKey r = some key) ∨
    ∃ t ∈ tasks, t.status.isLive = true ∧ postCommitSyncKey t = some key

instance (spool : Spool) (tasks : List DevqlTaskRecord) (key : String × String) :
    Decidable (RefreshOutstanding spool tasks key) :=
  inferInstanceAs (Decidable (_ ∨ _))

/-- At a claim, every eligible derivation whose refresh is outstanding is preceded, in the
order of the claim, by another eligible job of its repo. -/
def ClaimInOrder (w : SpoolWorld) : SpoolOp → Prop
  | .claim now matcherAt blockedRepoIds =>
    let spool := pruneExcludedPendingProducerSpoolJobs now matcherAt w.spool
    let request := claimRequest blockedRepoIds w.loaded
    ∀ d ∈ claimableJobs now spool, eligible request (loadRunningRepoIds spool) d = true →
      ∀ key ∈ derivationKey d, RefreshOutstanding spool w.tasks key →
        ∃ x ∈ claimableJobs now spool, eligible request (loadRunningRepoIds spool) x = true ∧
          x.repoId = d.repoId ∧ producerSpoolClaimSortKey x < producerSpoolClaimSortKey d
  | _ => True

instance (w : SpoolWorld) : ∀ op, Decidable (ClaimInOrder w op)
  | .claim _ _ _ => inferInstanceAs (Decidable (∀ d ∈ claimableJobs _ _, _))
  | .enqueue _ _ _ _ | .tasksChange _ | .loadState | .requeue _ _ _ | .delete _ | .recover _ _ =>
    isTrue trivial

/-- A refresh that is available no later than its derivation, and submitted no later when they
are available at the same time, precedes it: what makes the derivation eligible makes the
refresh eligible, and at equal times the priority decides. -/
theorem refresh_precedes {now : ℕ} {spool : Spool} {request : ClaimRequest}
    {runningRepoIds : List String} {d r : ProducerSpoolJobRecord} {key : String × String}
    (hd : d ∈ claimableJobs now spool) (helig : eligible request runningRepoIds d = true)
    (hdkey : derivationKey d = some key) (hr : r ∈ spool) (hpending : r.status = .pending)
    (hrkey : refreshKey r = some key)
    (htimes : r.availableAtUnix < d.availableAtUnix ∨
      r.availableAtUnix = d.availableAtUnix ∧ r.submittedAtUnix ≤ d.submittedAtUnix) :
    r ∈ claimableJobs now spool ∧ eligible request runningRepoIds r = true ∧
      r.repoId = d.repoId ∧ producerSpoolClaimSortKey r < producerSpoolClaimSortKey d := by
  obtain ⟨-, -, hdavail⟩ := mem_claimableJobs.mp hd
  have hdpayload : ∃ files rebase, d.payload = .postCommitDerivation key.2 files rebase ∧
      d.repoId = key.1 := by
    unfold derivationKey at hdkey
    split at hdkey
    · rename_i hpayload
      cases hdkey
      exact ⟨_, _, hpayload, rfl⟩
    · cases hdkey
  have hrpayload : ∃ files, r.payload = .postCommitRefresh key.2 files ∧ r.repoId = key.1 := by
    unfold refreshKey at hrkey
    split at hrkey
    · rename_i hpayload
      cases hrkey
      exact ⟨_, hpayload, rfl⟩
    · cases hrkey
  obtain ⟨files, rebase, hdp, hdrepo⟩ := hdpayload
  obtain ⟨rfiles, hrp, hrrepo⟩ := hrpayload
  have hrepo : r.repoId = d.repoId := hrrepo.trans hdrepo.symm
  obtain ⟨hblocked, htasks, -, -, hidle⟩ := eligible_iff.mp helig
  refine ⟨mem_claimableJobs.mpr ⟨hr, hpending, by omega⟩, ?_, hrepo, ?_⟩
  · refine eligible_iff.mpr ⟨hrepo ▸ hblocked, ?_, ?_, ?_, hrepo ▸ hidle⟩
    · -- a derivation conflicts with every running task of its repo
      rw [List.any_eq_false] at htasks ⊢
      intro task htask hconflict
      refine htasks task htask ?_
      have hsame : task.repoId = d.repoId := by
        by_contra hne
        simp [producerSpoolPayloadConflictsWithRunningTask, hrepo, hne] at hconflict
      simp [producerSpoolPayloadConflictsWithRunningTask, hsame, hdp,
        producerSpoolAdmissionClass]
    · simp [postCommitDerivationIsAbandoned, derivationKey, hrp]
    · simp [postCommitDerivationIsBlocked, derivationKey, hrp]
  · simp only [producerSpoolClaimSortKey, Prod.Lex.toLex_lt_toLex, hdp, hrp,
      producerSpoolPayloadPriority]
    rcases htimes with hlt | ⟨heq, hle⟩
    · exact .inl hlt
    · refine .inr ⟨heq, ?_⟩
      rcases Nat.lt_or_eq_of_le hle with hlt | heq'
      · exact .inl hlt
      · exact .inr ⟨heq', .inl Nat.zero_lt_one⟩

/-- The spool after the hook of a commit. -/
def hookSpool : Spool :=
  enqueueJob 1 "job-2" sampleRepo
    ⟨some "post_commit_derivation:head", .postCommitDerivation "head" ["a.rs"] false⟩
    (enqueueJob 1 "job-1" sampleRepo
      ⟨some "post_commit:head", .postCommitRefresh "head" ["a.rs"]⟩ [])

theorem hookSpool_refresh_precedes :
    ∃ r ∈ hookSpool, ∃ d ∈ hookSpool, r ∈ claimableJobs 1 hookSpool ∧
      producerSpoolClaimSortKey r < producerSpoolClaimSortKey d := by
  have hjobs : ∃ r ∈ hookSpool, ∃ d ∈ claimableJobs 1 hookSpool,
      eligible {} [] d = true ∧ derivationKey d = some ("repo-1", "head") ∧ r.status = .pending ∧
        refreshKey r = some ("repo-1", "head") ∧
          (r.availableAtUnix = d.availableAtUnix ∧ r.submittedAtUnix ≤ d.submittedAtUnix) := by
    decide
  obtain ⟨r, hr, d, hd, heligible, hdkey, hpending, hrkey, htimes⟩ := hjobs
  obtain ⟨hclaimable, -, -, hlt⟩ :=
    refresh_precedes hd heligible hdkey hr hpending hrkey (.inr htimes)
  exact ⟨r, hr, d, (mem_claimableJobs.mp hd).1, hclaimable, hlt⟩

/-- A claim in order hands out no derivation whose refresh is outstanding. -/
theorem claim_follows_refresh {w : SpoolWorld} {now : ℕ}
    {matcherAt : String → RepoExclusionMatcher} {blockedRepoIds : List String}
    (hordered : ClaimInOrder w (.claim now matcherAt blockedRepoIds))
    {d : ProducerSpoolJobRecord} {key : String × String}
    (hd : d ∈ (claimNextProducerSpoolJobsExcluding now matcherAt
      (claimRequest blockedRepoIds w.loaded) w.spool).2)
    (hkey : derivationKey d = some key) :
    ¬ RefreshOutstanding (claimNextProducerSpoolJobsExcluding now matcherAt
      (claimRequest blockedRepoIds w.loaded) w.spool).1 w.tasks key := by
  intro houtstanding
  obtain ⟨d, hsel, rfl⟩ := List.mem_map.mp hd
  obtain ⟨hjobs, helig, hfirst⟩ := (scanInv_claimScan _ _ _).selected d hsel
  have hpruned : RefreshOutstanding
      (pruneExcludedPendingProducerSpoolJobs now matcherAt w.spool) w.tasks key := by
    rcases houtstanding with ⟨row, hrow, hrkey⟩ | htask
    · obtain ⟨r, hr, ⟨rfl, -⟩ | ⟨rfl, -⟩⟩ := mem_claim hrow
      · exact .inl ⟨row, hr, hrkey⟩
      · exact .inl ⟨r, hr, hrkey⟩
    · exact .inr htask
  obtain ⟨x, hx, hxelig, hxrepo, hxlt⟩ := hordered d hjobs helig key hkey hpruned
  exact absurd (hfirst x hx hxelig hxrepo) (not_le_of_gt hxlt)

/-- The hook's two jobs are enqueued, and the refresh is claimed and deleted. -/
def refreshedRun : List SpoolOp :=
  [.enqueue 1 "job-1" sampleRepo ⟨some "post_commit:head", .postCommitRefresh "head" ["a.rs"]⟩,
    .enqueue 1 "job-2" sampleRepo
      ⟨some "post_commit_derivation:head", .postCommitDerivation "head" ["a.rs"] false⟩,
    .loadState, .claim 1 (fun _ _ => false) [], .delete "job-1", .loadState]

/-- The refresh is claimed first, fails and is requeued; its backoff leaves the derivation in
front of it. -/
def overtakingRun : List SpoolOp :=
  [.enqueue 1 "job-1" sampleRepo ⟨some "post_commit:head", .postCommitRefresh "head" ["a.rs"]⟩,
    .enqueue 1 "job-2" sampleRepo
      ⟨some "post_commit_derivation:head", .postCommitDerivation "head" ["a.rs"] false⟩,
    .loadState, .claim 1 (fun _ _ => false) [], .requeue 2 "job-1" "database is locked",
    .loadState]

end ProducerSpool
end Bitloops
