import Bitloops.Foundation.Run
import Bitloops.LifecycleSpool.Model

/-!
# Delivery by the lifecycle spool

The spool, the legacy table and the single worker that claims jobs are put together as a
step function, and the guarantees of delivery are proved for runs of any length.

* **Order.**  A job is claimed only when every job with a smaller sequence has been deleted
  or has failed (`claim_in_order`).  This holds in every state.
* **Exclusion and at most once.**  At most one job is running, and a job deleted after
  success is not claimed again --- as long as the migration brings back no delivered job and
  puts no running row behind an active one (`delivery_of_harmless_migration`).  The legacy
  table is never cleared, so the condition is needed: `migrated_job_claimed_twice` is a run
  in which a migrated job is processed, deleted, copied once more and claimed again.

The invariant behind the second part is `DeliveryInv`: only the oldest active row can be
running, the job in flight is that row, and a delivered identifier survives only in failed
rows.
-/

namespace Bitloops
namespace Lifecycle

/-! ## The store and its worker -/

/-- The two tables, the job that `process_lifecycle_spool_once` is working on, and the jobs
it has deleted after success. -/
structure LifecycleWorld where
  spool : LifecycleSpool
  legacy : List LifecycleStopJob
  inFlight : Option LifecycleJobRecord := none
  delivered : List LifecycleJobRecord := []

inductive LifecycleOp where
  | openStore
  | enqueueHookSafe (now : ℕ) (jobId : String) (insert : LifecycleJobInsert)
  | claim (now : ℕ)
  /-- `process_lifecycle_job` returned: `none` on success, the error text otherwise. -/
  | processed (now : ℕ) (error : Option String)
  /-- The daemon restarts: the job in flight is gone and running rows are recovered. -/
  | restart (now : ℕ)

/-- One operation.  The worker handles one job at a time, so it claims only when no job is
in flight and reports only on the job in flight. -/
def step (w : LifecycleWorld) : LifecycleOp → Option LifecycleWorld
  | .openStore => some { w with spool := openHookSafeSqlite w.legacy w.spool }
  | .enqueueHookSafe now jobId insert =>
    some { w with spool := enqueueLifecycleJobHookSafeAt now jobId insert w.legacy w.spool }
  | .claim now =>
    match w.inFlight with
    | some _ => none
    | none =>
      let (spool, job) := claimNextLifecycleJob now w.spool
      some { w with spool, inFlight := job }
  | .processed now error =>
    match w.inFlight, error with
    | none, _ => none
    | some job, none =>
      some
        { w with
          spool := deleteLifecycleJob job.jobId w.spool
          inFlight := none
          delivered := job :: w.delivered }
    | some job, some error =>
      some { w with spool := failOrRequeueLifecycleJob now job error w.spool, inFlight := none }
  | .restart now =>
    some { w with spool := recoverRunningLifecycleJobs now w.spool, inFlight := none }

/-! ## Conditions on a run -/

/-- `Uuid::new_v4` draws an identifier that no delivered job carries. -/
def FreshJobId (w : LifecycleWorld) : LifecycleOp → Prop
  | .enqueueHookSafe _ jobId _ => ∀ d ∈ w.delivered, d.jobId ≠ jobId
  | _ => True

instance (w : LifecycleWorld) : ∀ op, Decidable (FreshJobId w op)
  | .enqueueHookSafe _ _ _ => inferInstanceAs (Decidable (∀ d ∈ w.delivered, _))
  | .openStore | .claim _ | .processed _ _ | .restart _ => isTrue trivial

/-- The legacy rows that the migration would copy: those whose identifier the spool lacks. -/
def migratedRows (legacy : List LifecycleStopJob) (s : LifecycleSpool) : List LifecycleStopJob :=
  legacy.filter fun r => !s.hasJob r.jobId

/-- A running row may be copied only where it becomes the oldest active row: when every row
of the spool, and every row copied before it, has failed. -/
structure RunningFits (legacy : List LifecycleStopJob) (s : LifecycleSpool) : Prop where
  spool : ∀ r ∈ migratedRows legacy s, r.status = .running → ∀ k ∈ s.jobs, k.status = .failed
  order : (migratedRows legacy s).Pairwise fun earlier later =>
    later.status = .running → earlier.status = .failed

instance (legacy : List LifecycleStopJob) (s : LifecycleSpool) :
    Decidable (RunningFits legacy s) :=
  decidable_of_iff
    ((∀ r ∈ migratedRows legacy s, r.status = .running → ∀ k ∈ s.jobs, k.status = .failed) ∧
      (migratedRows legacy s).Pairwise fun earlier later =>
        later.status = .running → earlier.status = .failed)
    ⟨fun h => ⟨h.1, h.2⟩, fun h => ⟨h.spool, h.order⟩⟩

/-- Opening the store is harmless when no active legacy row carries the identifier of a
delivered job, and no running row is copied behind an active one. -/
def HarmlessMigration (w : LifecycleWorld) : LifecycleOp → Prop
  | .openStore | .enqueueHookSafe _ _ _ =>
    (∀ r ∈ w.legacy, r.status ≠ .failed → ∀ d ∈ w.delivered, d.jobId ≠ r.jobId) ∧
      RunningFits w.legacy w.spool
  | _ => True

instance (w : LifecycleWorld) : ∀ op, Decidable (HarmlessMigration w op)
  | .openStore | .enqueueHookSafe _ _ _ => inferInstanceAs (Decidable (_ ∧ RunningFits _ _))
  | .claim _ | .processed _ _ | .restart _ => isTrue trivial

/-! ## What the operations do to the rows -/

theorem eq_of_jobId_eq (s : LifecycleSpool) {a b : LifecycleJobRecord} (ha : a ∈ s.jobs)
    (hb : b ∈ s.jobs) (hab : a.jobId = b.jobId) : a = b :=
  List.inj_on_of_nodup_map s.unique ha hb hab

theorem mem_updateJob {s : LifecycleSpool} {jobId : String}
    {f : LifecycleJobRecord → LifecycleJobRecord}
    {hseq : ∀ r, (f r).sequence = r.sequence} {hid : ∀ r, (f r).jobId = r.jobId}
    {r' : LifecycleJobRecord} :
    r' ∈ (updateJob s jobId f hseq hid).jobs ↔
      ∃ r ∈ s.jobs, (if r.jobId = jobId then f r else r) = r' := by
  simp [updateJob]

theorem mem_deleteLifecycleJob {s : LifecycleSpool} {jobId : String} {r : LifecycleJobRecord} :
    r ∈ (deleteLifecycleJob jobId s).jobs ↔ r ∈ s.jobs ∧ r.jobId ≠ jobId := by
  simp [deleteLifecycleJob, LifecycleSpool.jobs]

theorem insertOrIgnore_cases (s : LifecycleSpool) (r : LifecycleStopJob) :
    s.hasJob r.jobId = true ∧ insertOrIgnore s r = s ∨
      s.hasJob r.jobId = false ∧
        (insertOrIgnore s r).jobs = s.jobs ++ [r.toRecord (s.table.last + 1)] := by
  cases h : s.insertRow r.toRecord r.jobId (fun _ => rfl) (fun _ => rfl) with
  | none =>
    left
    refine ⟨?_, by simp [insertOrIgnore, h]⟩
    by_contra hnew
    simp [LifecycleSpool.insertRow, hnew] at h
  | some s' =>
    right
    obtain ⟨hnew, hjobs⟩ := LifecycleSpool.jobs_insertRow h
    exact ⟨hnew, by simp [insertOrIgnore, h, hjobs]⟩

/-- The migration keeps every row, and each row it adds has the identifier and the status of
a legacy row. -/
theorem mem_migrate (legacy : List LifecycleStopJob) (s : LifecycleSpool) :
    (∀ k ∈ s.jobs, k ∈ (migrateLegacyLifecycleStopSpoolJobs legacy s).jobs) ∧
      ∀ k ∈ (migrateLegacyLifecycleStopSpoolJobs legacy s).jobs,
        k ∈ s.jobs ∨ ∃ r ∈ legacy, k.jobId = r.jobId ∧ k.status = r.status := by
  induction legacy generalizing s with
  | nil => exact ⟨fun _ hk => hk, fun _ hk => .inl hk⟩
  | cons r legacy ih =>
    obtain ⟨hkeep, hadd⟩ := ih (insertOrIgnore s r)
    rcases insertOrIgnore_cases s r with ⟨-, hs⟩ | ⟨-, hs⟩
    · rw [hs] at hkeep hadd
      refine ⟨fun k hk => ?_, fun k hk => ?_⟩
      · simpa [migrateLegacyLifecycleStopSpoolJobs, hs] using hkeep k hk
      · rcases hadd k (by simpa [migrateLegacyLifecycleStopSpoolJobs, hs] using hk) with
          h | ⟨x, hx, h⟩
        · exact .inl h
        · exact .inr ⟨x, List.mem_cons_of_mem _ hx, h⟩
    · rw [hs] at hkeep hadd
      refine ⟨fun k hk => hkeep k (List.mem_append_left _ hk), fun k hk => ?_⟩
      rcases hadd k hk with h | ⟨x, hx, h⟩
      · rcases List.mem_append.mp h with h | h
        · exact .inl h
        · rw [List.mem_singleton.mp h]
          exact .inr ⟨r, List.mem_cons_self, rfl, rfl⟩
      · exact .inr ⟨x, List.mem_cons_of_mem _ hx, h⟩

/-- What `enqueue_lifecycle_job_hook_safe_at` leaves: the migrated spool, with one pending
row appended unless its identifier was taken. -/
theorem enqueue_cases (now : ℕ) (jobId : String) (insert : LifecycleJobInsert)
    (legacy : List LifecycleStopJob) (s : LifecycleSpool) :
    enqueueLifecycleJobHookSafeAt now jobId insert legacy s = openHookSafeSqlite legacy s ∨
      ∃ row : LifecycleJobRecord,
        row.jobId = jobId ∧ row.status = .pending ∧
          (∀ k ∈ (openHookSafeSqlite legacy s).jobs, k.sequence < row.sequence) ∧
          (enqueueLifecycleJobHookSafeAt now jobId insert legacy s).jobs
            = (openHookSafeSqlite legacy s).jobs ++ [row] := by
  cases h : insertLifecycleJob now jobId insert (openHookSafeSqlite legacy s) with
  | none => exact .inl (by simp [enqueueLifecycleJobHookSafeAt, h])
  | some s' =>
    right
    obtain ⟨-, hjobs⟩ := LifecycleSpool.jobs_insertRow h
    refine ⟨_, rfl, rfl, ?_, by simpa [enqueueLifecycleJobHookSafeAt, h] using hjobs⟩
    intro k hk
    exact Nat.lt_succ_of_le ((openHookSafeSqlite legacy s).table.bounded k hk)

/-- **Order.**  The row that is claimed is available, was pending, and every row with a
smaller sequence has failed; nothing but that row changes. -/
theorem claim_in_order {now : ℕ} {s s' : LifecycleSpool} {job : LifecycleJobRecord}
    (h : claimNextLifecycleJob now s = (s', some job)) :
    ∃ row ∈ s.jobs, row.status = .pending ∧ row.availableAtUnix ≤ now ∧
      row.jobId = job.jobId ∧ row.sequence = job.sequence ∧
      (∀ k ∈ s.jobs, k.sequence < row.sequence → k.status = .failed) ∧
      (∀ r', r' ∈ s'.jobs ↔ ∃ r ∈ s.jobs,
        (if r.jobId = row.jobId then r.markRunning now else r) = r') := by
  unfold claimNextLifecycleJob at h
  cases hsel : selectOldestActiveLifecycleJob s with
  | none => simp [hsel] at h
  | some row =>
    obtain ⟨hrow, hactive, hleast⟩ := s.table.find?_least hsel
    simp only [hsel] at h
    split at h
    · cases h
    · rename_i hnotRunning
      split at h
      · cases h
      · rename_i havail
        simp only [Prod.mk.injEq] at h
        obtain ⟨rfl, hload⟩ := h
        have hpending : row.status = .pending := by
          cases hstatus : row.status with
          | pending => rfl
          | running => exact absurd hstatus hnotRunning
          | failed => simp [hstatus] at hactive
        obtain ⟨found, hfound, rfl⟩ := Option.map_eq_some_iff.mp hload
        have hid : found.jobId = row.jobId := by simpa using List.find?_some hfound
        obtain ⟨r, hr, hr'⟩ := mem_updateJob.mp (List.mem_of_find?_eq_some hfound)
        have hrid : r.jobId = row.jobId := by
          rw [← hid, ← hr']
          split <;> rfl
        have hrr : r = row := eq_of_jobId_eq s hr hrow hrid
        refine ⟨row, hrow, hpending, Nat.not_lt.mp havail, hid.symm, ?_, ?_, ?_⟩
        · rw [mapLifecycleJob, ← hr', hrr, if_pos rfl]
          rfl
        · intro k hk hlt
          simpa using hleast k hk hlt
        · exact fun r' => mem_updateJob

/-- A claim that returns no job leaves the spool as it is. -/
theorem claim_none {now : ℕ} {s s' : LifecycleSpool}
    (h : claimNextLifecycleJob now s = (s', none)) : s' = s := by
  unfold claimNextLifecycleJob at h
  cases hsel : selectOldestActiveLifecycleJob s with
  | none => simpa [hsel] using h.symm
  | some row =>
    obtain ⟨hrow, -, -⟩ := s.table.find?_least hsel
    simp only [hsel] at h
    split at h
    · simpa using h.symm
    · split at h
      · simpa using h.symm
      · simp only [Prod.mk.injEq, loadLifecycleJob, Option.map_eq_none_iff,
          List.find?_eq_none] at h
        have hclaimed : (row.markRunning now).jobId ≠ row.jobId := by
          simpa using h.2 (row.markRunning now) (mem_updateJob.mpr ⟨row, hrow, if_pos rfl⟩)
        exact absurd rfl hclaimed

/-! ## The invariant -/

/-- Only the oldest active row is running. -/
def RunningIsOldest (s : LifecycleSpool) : Prop :=
  ∀ r ∈ s.jobs, r.status = .running → ∀ k ∈ s.jobs, k.sequence < r.sequence → k.status = .failed

def AtMostOneRunning (s : LifecycleSpool) : Prop :=
  ∀ r ∈ s.jobs, ∀ k ∈ s.jobs, r.status = .running → k.status = .running → r = k

theorem RunningIsOldest.atMostOneRunning {s : LifecycleSpool} (h : RunningIsOldest s) :
    AtMostOneRunning s := by
  intro r hr k hk hrun krun
  rcases Nat.lt_trichotomy r.sequence k.sequence with hlt | heq | hlt
  · have hfailed := h k hk krun r hr hlt
    rw [hrun] at hfailed
    cases hfailed
  · exact s.table.eq_of_key_eq hr hk heq
  · have hfailed := h r hr hrun k hk hlt
    rw [krun] at hfailed
    cases hfailed

/-- An update that starts no row and revives no failed row keeps the invariant. -/
theorem RunningIsOldest.of_map {s s' : LifecycleSpool} (h : RunningIsOldest s)
    (hmap : ∀ r' ∈ s'.jobs, ∃ r ∈ s.jobs, r.sequence = r'.sequence ∧
      (r'.status = .running → r.status = .running) ∧ (r.status = .failed → r'.status = .failed)) :
    RunningIsOldest s' := by
  intro r' hr' hrun k' hk' hlt
  obtain ⟨r, hr, hrseq, hrrun, -⟩ := hmap r' hr'
  obtain ⟨k, hk, hkseq, -, hkfailed⟩ := hmap k' hk'
  exact hkfailed (h r hr (hrrun hrun) k hk (by omega))

/-- A row appended behind the others keeps the invariant when it is not running, or when
all the others have failed. -/
theorem RunningIsOldest.append {s s' : LifecycleSpool} {row : LifecycleJobRecord}
    (h : RunningIsOldest s) (hjobs : s'.jobs = s.jobs ++ [row])
    (hseq : ∀ k ∈ s.jobs, k.sequence < row.sequence)
    (hrow : row.status = .running → ∀ k ∈ s.jobs, k.status = .failed) : RunningIsOldest s' := by
  intro r hr hrun k hk hlt
  rw [hjobs] at hr hk
  rcases List.mem_append.mp hr with hr | hr
  · rcases List.mem_append.mp hk with hk | hk
    · exact h r hr hrun k hk hlt
    · rw [List.mem_singleton.mp hk] at hlt
      exact absurd (hseq r hr) (by omega)
  · rw [List.mem_singleton.mp hr] at hrun hlt
    rcases List.mem_append.mp hk with hk | hk
    · exact hrow hrun k hk
    · rw [List.mem_singleton.mp hk] at hlt
      exact absurd hlt (Nat.lt_irrefl _)

theorem RunningFits.tail {r : LifecycleStopJob} {legacy : List LifecycleStopJob}
    {s : LifecycleSpool} (h : RunningFits (r :: legacy) s) :
    RunningFits legacy (insertOrIgnore s r) := by
  rcases insertOrIgnore_cases s r with ⟨hold, hs⟩ | ⟨hnew, hs⟩
  · rw [hs]
    have hrows : migratedRows (r :: legacy) s = migratedRows legacy s := by
      simp [migratedRows, hold]
    exact ⟨hrows ▸ h.spool, hrows ▸ h.order⟩
  · have hrows : migratedRows (r :: legacy) s = r :: migratedRows legacy s := by
      simp [migratedRows, hnew]
    have horder := h.order
    have hspool := h.spool
    rw [hrows] at horder hspool
    have hsub : (migratedRows legacy (insertOrIgnore s r)).Sublist (migratedRows legacy s) := by
      refine List.monotone_filter_right legacy fun x hx => ?_
      simp only [Bool.not_eq_true', LifecycleSpool.hasJob_eq_false] at hx ⊢
      intro k hk
      exact hx k (by rw [hs]; exact List.mem_append_left _ hk)
    refine ⟨fun x hx hrun k hk => ?_, (List.pairwise_cons.mp horder).2.sublist hsub⟩
    have hx' := hsub.subset hx
    rw [hs] at hk
    rcases List.mem_append.mp hk with hk | hk
    · exact hspool x (List.mem_cons_of_mem _ hx') hrun k hk
    · rw [List.mem_singleton.mp hk]
      exact (List.pairwise_cons.mp horder).1 x hx' hrun

theorem RunningIsOldest.migrate {legacy : List LifecycleStopJob} {s : LifecycleSpool}
    (h : RunningIsOldest s) (hfits : RunningFits legacy s) :
    RunningIsOldest (migrateLegacyLifecycleStopSpoolJobs legacy s) := by
  induction legacy generalizing s with
  | nil => exact h
  | cons r legacy ih =>
    refine ih ?_ hfits.tail
    rcases insertOrIgnore_cases s r with ⟨-, hs⟩ | ⟨hnew, hs⟩
    · rw [hs]
      exact h
    · refine h.append hs (fun k hk => Nat.lt_succ_of_le (s.table.bounded k hk)) fun hrun => ?_
      exact hfits.spool r (by simp [migratedRows, hnew]) hrun

/-- What holds between the operations of a run: only the oldest active row is running, the
job in flight is a running row, and the identifier of a delivered job survives only in
failed rows. -/
structure DeliveryInv (w : LifecycleWorld) : Prop where
  oldest : RunningIsOldest w.spool
  flight : ∀ j, w.inFlight = some j →
    ∃ r ∈ w.spool.jobs, r.jobId = j.jobId ∧ r.sequence = j.sequence ∧ r.status = .running
  delivered : ∀ d ∈ w.delivered, ∀ r ∈ w.spool.jobs, r.jobId = d.jobId → r.status = .failed

theorem DeliveryInv.openStore {w : LifecycleWorld} (h : DeliveryInv w)
    (hok : HarmlessMigration w .openStore) :
    DeliveryInv { w with spool := openHookSafeSqlite w.legacy w.spool } where
  oldest := h.oldest.migrate hok.2
  flight := by
    intro j hj
    obtain ⟨r, hr, hrow⟩ := h.flight j hj
    exact ⟨r, (mem_migrate w.legacy w.spool).1 r hr, hrow⟩
  delivered := by
    intro d hd r hr hid
    rcases (mem_migrate w.legacy w.spool).2 r hr with hr | ⟨x, hx, hxid, hxstatus⟩
    · exact h.delivered d hd r hr hid
    · by_contra hactive
      refine hok.1 x hx ?_ d hd (hid.symm.trans hxid)
      rwa [← hxstatus]

theorem DeliveryInv.enqueue {w : LifecycleWorld} {now : ℕ} {jobId : String}
    {insert : LifecycleJobInsert} (h : DeliveryInv w)
    (hfresh : FreshJobId w (.enqueueHookSafe now jobId insert))
    (hok : HarmlessMigration w (.enqueueHookSafe now jobId insert)) :
    DeliveryInv
      { w with spool := enqueueLifecycleJobHookSafeAt now jobId insert w.legacy w.spool } := by
  have hopen := h.openStore hok
  rcases enqueue_cases now jobId insert w.legacy w.spool with hs | ⟨row, hid, hst, hseq, hs⟩
  · rw [hs]
    exact hopen
  · constructor
    · exact hopen.oldest.append hs hseq fun hrun => by simp [hst] at hrun
    · intro j hj
      obtain ⟨r, hr, hrow⟩ := hopen.flight j hj
      exact ⟨r, by rw [hs]; exact List.mem_append_left _ hr, hrow⟩
    · intro d hd r hr hrid
      rw [hs] at hr
      rcases List.mem_append.mp hr with hr | hr
      · exact hopen.delivered d hd r hr hrid
      · rw [List.mem_singleton.mp hr, hid] at hrid
        exact absurd hrid.symm (hfresh d hd)

theorem DeliveryInv.claim {w : LifecycleWorld} {now : ℕ} {s' : LifecycleSpool}
    {job : LifecycleJobRecord} (h : DeliveryInv w)
    (hclaim : claimNextLifecycleJob now w.spool = (s', some job)) :
    DeliveryInv { w with spool := s', inFlight := some job } := by
  obtain ⟨row, hrow, hpending, -, hid, hseq, hleast, hrows⟩ := claim_in_order hclaim
  constructor
  · intro r' hr' hrun k' hk' hlt
    obtain ⟨r, hr, rfl⟩ := (hrows r').mp hr'
    obtain ⟨k, hk, rfl⟩ := (hrows k').mp hk'
    have hkseq : (if k.jobId = row.jobId then k.markRunning now else k).sequence = k.sequence := by
      split <;> rfl
    have hrseq : (if r.jobId = row.jobId then r.markRunning now else r).sequence = r.sequence := by
      split <;> rfl
    rw [hkseq, hrseq] at hlt
    -- every row below the running one has failed, and a failed row is not the claimed one
    have hkfailed : k.status = .failed := by
      by_cases hr_row : r.jobId = row.jobId
      · rw [eq_of_jobId_eq w.spool hr hrow hr_row] at hlt
        exact hleast k hk hlt
      · rw [if_neg hr_row] at hrun
        exact h.oldest r hr hrun k hk hlt
    rw [if_neg]
    · exact hkfailed
    · intro hk_row
      rw [eq_of_jobId_eq w.spool hk hrow hk_row, hpending] at hkfailed
      cases hkfailed
  · intro j hj
    cases hj
    exact ⟨row.markRunning now, (hrows _).mpr ⟨row, hrow, if_pos rfl⟩, hid, hseq, rfl⟩
  · intro d hd r' hr' hr'id
    obtain ⟨r, hr, rfl⟩ := (hrows r').mp hr'
    have hrid : r.jobId = d.jobId := by
      rw [← hr'id]
      split <;> rfl
    have hfailed := h.delivered d hd r hr hrid
    rw [if_neg]
    · exact hfailed
    · intro hr_row
      rw [eq_of_jobId_eq w.spool hr hrow hr_row, hpending] at hfailed
      cases hfailed

/-- An update of the row in flight that does not leave it running ends the flight. -/
theorem DeliveryInv.finish {w : LifecycleWorld} {job : LifecycleJobRecord}
    {f : LifecycleJobRecord → LifecycleJobRecord}
    {hseq : ∀ r, (f r).sequence = r.sequence} {hid : ∀ r, (f r).jobId = r.jobId}
    (h : DeliveryInv w) (hflight : w.inFlight = some job) (hf : ∀ r, (f r).status ≠ .running) :
    DeliveryInv { w with spool := updateJob w.spool job.jobId f hseq hid, inFlight := none } := by
  obtain ⟨row, hrow, hrowid, -, hrun⟩ := h.flight job hflight
  have hother : ∀ r ∈ w.spool.jobs, r.status = .failed → r.jobId ≠ job.jobId := by
    intro r hr hfailed hrid
    rw [eq_of_jobId_eq w.spool hr hrow (hrid.trans hrowid.symm), hrun] at hfailed
    cases hfailed
  have hrows : ∀ r' ∈ (updateJob w.spool job.jobId f hseq hid).jobs, ∃ r ∈ w.spool.jobs,
      (if r.jobId = job.jobId then f r else r) = r' := fun _ => mem_updateJob.mp
  constructor
  · refine h.oldest.of_map fun r' hr' => ?_
    obtain ⟨r, hr, rfl⟩ := hrows r' hr'
    refine ⟨r, hr, by split <;> simp [hseq], fun hrun' => ?_, fun hfailed => ?_⟩
    · split at hrun'
      · exact absurd hrun' (hf r)
      · exact hrun'
    · rwa [if_neg (hother r hr hfailed)]
  · intro j hj
    cases hj
  · intro d hd r' hr' hr'id
    obtain ⟨r, hr, rfl⟩ := hrows r' hr'
    have hrid : r.jobId = d.jobId := by
      rw [← hr'id]
      split <;> simp [hid]
    have hfailed := h.delivered d hd r hr hrid
    rwa [if_neg (hother r hr hfailed)]

theorem DeliveryInv.deliver {w : LifecycleWorld} {job : LifecycleJobRecord}
    (h : DeliveryInv w) :
    DeliveryInv
      { w with
        spool := deleteLifecycleJob job.jobId w.spool
        inFlight := none
        delivered := job :: w.delivered } := by
  constructor
  · refine h.oldest.of_map fun r hr => ?_
    exact ⟨r, (mem_deleteLifecycleJob.mp hr).1, rfl, id, id⟩
  · intro j hj
    cases hj
  · intro d hd r hr hid
    obtain ⟨hr, hne⟩ := mem_deleteLifecycleJob.mp hr
    rcases List.mem_cons.mp hd with rfl | hd
    · exact absurd hid hne
    · exact h.delivered d hd r hr hid

theorem DeliveryInv.restart {w : LifecycleWorld} {now : ℕ} (h : DeliveryInv w) :
    DeliveryInv { w with spool := recoverRunningLifecycleJobs now w.spool, inFlight := none } := by
  have hrows : ∀ r' ∈ (recoverRunningLifecycleJobs now w.spool).jobs, ∃ r ∈ w.spool.jobs,
      r.sequence = r'.sequence ∧ r.jobId = r'.jobId ∧ r'.status ≠ .running ∧
        (r.status = .failed → r'.status = .failed) := by
    intro r' hr'
    rw [recoverRunningLifecycleJobs, LifecycleSpool.jobs_update] at hr'
    obtain ⟨r, hr, rfl⟩ := List.mem_map.mp hr'
    refine ⟨r, hr, ?_⟩
    split
    · rename_i hrun
      exact ⟨rfl, rfl, by simp, fun hfailed => by simp [hrun] at hfailed⟩
    · rename_i hrun
      exact ⟨rfl, rfl, hrun, id⟩
  constructor
  · refine h.oldest.of_map fun r' hr' => ?_
    obtain ⟨r, hr, hseq, -, hrun, hfailed⟩ := hrows r' hr'
    exact ⟨r, hr, hseq, fun hrun' => absurd hrun' hrun, hfailed⟩
  · intro j hj
    cases hj
  · intro d hd r' hr' hid
    obtain ⟨r, hr, -, hrid, -, hfailed⟩ := hrows r' hr'
    exact hfailed (h.delivered d hd r hr (hrid.trans hid))

/-- **The step lemma.** -/
theorem DeliveryInv.step {w w' : LifecycleWorld} {op : LifecycleOp} (h : DeliveryInv w)
    (hfresh : FreshJobId w op) (hok : HarmlessMigration w op) (hstep : step w op = some w') :
    DeliveryInv w' := by
  cases op with
  | openStore =>
    cases hstep
    exact h.openStore hok
  | enqueueHookSafe now jobId insert =>
    cases hstep
    exact h.enqueue hfresh hok
  | claim now =>
    cases hflight : w.inFlight with
    | some j => simp [Lifecycle.step, hflight] at hstep
    | none =>
      simp only [Lifecycle.step, hflight, Option.some.injEq] at hstep
      subst hstep
      cases hclaim : claimNextLifecycleJob now w.spool with
      | mk spool job =>
        cases job with
        | some job => exact h.claim hclaim
        | none =>
          rw [claim_none hclaim]
          exact ⟨h.oldest, fun j hj => (by cases hj), h.delivered⟩
  | processed now error =>
    cases hflight : w.inFlight with
    | none => simp [Lifecycle.step, hflight] at hstep
    | some job =>
      cases error with
      | none =>
        simp only [Lifecycle.step, hflight, Option.some.injEq] at hstep
        subst hstep
        exact h.deliver
      | some error =>
        simp only [Lifecycle.step, hflight, Option.some.injEq] at hstep
        subst hstep
        unfold failOrRequeueLifecycleJob
        split
        · exact h.finish hflight fun _ => by simp
        · exact h.finish hflight fun _ => by simp
  | restart now =>
    cases hstep
    exact h.restart

/-! ## Runs -/

/-- Rows leave the spool only by delivery, and the delivered jobs are kept. -/
structure Retains (w w' : LifecycleWorld) : Prop where
  rows : ∀ k ∈ w.spool.jobs, (∃ r ∈ w'.spool.jobs, r.sequence = k.sequence) ∨
    ∃ d ∈ w'.delivered, d.sequence = k.sequence
  delivered : ∀ d ∈ w.delivered, d ∈ w'.delivered

instance : Std.Refl Retains :=
  ⟨fun _ => ⟨fun k hk => .inl ⟨k, hk, rfl⟩, fun _ hd => hd⟩⟩

instance : IsTrans LifecycleWorld Retains where
  trans := by
    intro a b c hab hbc
    refine ⟨fun k hk => ?_, fun d hd => hbc.delivered d (hab.delivered d hd)⟩
    rcases hab.rows k hk with ⟨r, hr, hrk⟩ | ⟨d, hd, hdk⟩
    · rw [← hrk]
      exact hbc.rows r hr
    · exact .inr ⟨d, hbc.delivered d hd, hdk⟩

/-- An update in place retains every row. -/
theorem Retains.of_update {w : LifecycleWorld} {inFlight : Option LifecycleJobRecord}
    {s' : LifecycleSpool}
    (hrows : ∀ k ∈ w.spool.jobs, ∃ r ∈ s'.jobs, r.sequence = k.sequence) :
    Retains w { w with spool := s', inFlight } :=
  ⟨fun k hk => .inl (hrows k hk), fun _ hd => hd⟩

theorem exists_mem_updateJob {s : LifecycleSpool} {jobId : String}
    {f : LifecycleJobRecord → LifecycleJobRecord}
    {hseq : ∀ r, (f r).sequence = r.sequence} {hid : ∀ r, (f r).jobId = r.jobId} :
    ∀ k ∈ s.jobs, ∃ r ∈ (updateJob s jobId f hseq hid).jobs, r.sequence = k.sequence := by
  intro k hk
  refine ⟨_, mem_updateJob.mpr ⟨k, hk, rfl⟩, ?_⟩
  split <;> simp [hseq]

theorem retains_step {w w' : LifecycleWorld} {op : LifecycleOp} (h : DeliveryInv w)
    (hstep : step w op = some w') : Retains w w' := by
  cases op with
  | openStore =>
    cases hstep
    exact .of_update fun k hk => ⟨k, (mem_migrate w.legacy w.spool).1 k hk, rfl⟩
  | enqueueHookSafe now jobId insert =>
    cases hstep
    refine .of_update fun k hk => ⟨k, ?_, rfl⟩
    have hopen := (mem_migrate w.legacy w.spool).1 k hk
    rcases enqueue_cases now jobId insert w.legacy w.spool with hs | ⟨row, -, -, -, hs⟩
    · rw [hs]
      exact hopen
    · rw [hs]
      exact List.mem_append_left _ hopen
  | claim now =>
    cases hflight : w.inFlight with
    | some j => simp [Lifecycle.step, hflight] at hstep
    | none =>
      simp only [Lifecycle.step, hflight, Option.some.injEq] at hstep
      subst hstep
      refine .of_update fun k hk => ?_
      cases hclaim : claimNextLifecycleJob now w.spool with
      | mk spool job =>
        cases job with
        | none =>
          rw [claim_none hclaim]
          exact ⟨k, hk, rfl⟩
        | some job =>
          obtain ⟨row, -, -, -, -, -, -, hrows⟩ := claim_in_order hclaim
          refine ⟨_, (hrows _).mpr ⟨k, hk, rfl⟩, ?_⟩
          split <;> rfl
  | processed now error =>
    cases hflight : w.inFlight with
    | none => simp [Lifecycle.step, hflight] at hstep
    | some job =>
      cases error with
      | none =>
        simp only [Lifecycle.step, hflight, Option.some.injEq] at hstep
        subst hstep
        obtain ⟨row, hrow, hid, hseq, -⟩ := h.flight job hflight
        refine ⟨fun k hk => ?_, fun d hd => List.mem_cons_of_mem _ hd⟩
        by_cases hkid : k.jobId = job.jobId
        · right
          rw [eq_of_jobId_eq w.spool hk hrow (hkid.trans hid.symm)]
          exact ⟨job, List.mem_cons_self, hseq.symm⟩
        · exact .inl ⟨k, mem_deleteLifecycleJob.mpr ⟨hk, hkid⟩, rfl⟩
      | some error =>
        simp only [Lifecycle.step, hflight, Option.some.injEq] at hstep
        subst hstep
        refine .of_update ?_
        unfold failOrRequeueLifecycleJob
        split
        · exact exists_mem_updateJob
        · exact exists_mem_updateJob
  | restart now =>
    cases hstep
    refine .of_update fun k hk => ?_
    refine ⟨_, List.mem_map_of_mem hk, ?_⟩
    split <;> rfl

/-- The worker has just started: nothing is in flight and nothing was delivered. -/
structure Started (w : LifecycleWorld) : Prop where
  idle : w.inFlight = none
  undelivered : w.delivered = []

/-- **Delivery in order and at most once.**  Start from any spool whose running row, if any,
is its oldest active one, and from any legacy table.  In every run in which the migrations
are harmless and new identifiers are fresh, at most one row is running; a claimed job comes
after every job of an earlier state that has a smaller sequence was deleted or failed; and a
claimed job was not delivered before. -/
theorem delivery_of_harmless_migration {w₀ w : LifecycleWorld} {ops : List LifecycleOp}
    (hstart : Started w₀) (holdest : RunningIsOldest w₀.spool)
    (hfresh : Run.Meets step FreshJobId w₀ ops)
    (hharmless : Run.Meets step HarmlessMigration w₀ ops)
    (hrun : Run.exec step w₀ ops = some w) :
    AtMostOneRunning w.spool ∧
      ∀ now s' job, claimNextLifecycleJob now w.spool = (s', some job) →
        (∀ front back w₁, ops = front ++ back → Run.exec step w₀ front = some w₁ →
          ∀ k ∈ w₁.spool.jobs, k.sequence < job.sequence →
            (∃ d ∈ w.delivered, d.sequence = k.sequence) ∨
              ∃ r ∈ w.spool.jobs, r.sequence = k.sequence ∧ r.status = .failed) ∧
        ∀ d ∈ w.delivered, d.jobId ≠ job.jobId := by
  have hinit : DeliveryInv w₀ :=
    ⟨holdest, by simp [hstart.idle], by simp [hstart.undelivered]⟩
  have hboth := hfresh.and hharmless
  have hinv : ∀ w w' op, DeliveryInv w → (FreshJobId w op ∧ HarmlessMigration w op) →
      step w op = some w' → DeliveryInv w' := fun _ _ _ h hok hstep => h.step hok.1 hok.2 hstep
  have hw : DeliveryInv w :=
    Run.exec_invariant_of_meets _ (fun w op w' h hok hs => hinv w w' op h hok hs) hinit hboth hrun
  refine ⟨hw.oldest.atMostOneRunning, fun now s' job hclaim => ⟨?_, ?_⟩⟩
  · intro front back w₁ hops hfront k hk hlt
    subst hops
    obtain ⟨hmeets, hmeets'⟩ := Run.meets_append.mp hboth
    obtain ⟨w₁', hfront', hback⟩ := Run.exec_append.mp hrun
    rw [hfront] at hfront'
    cases hfront'
    have hw₁ : DeliveryInv w₁ :=
      Run.exec_invariant_of_meets _ (fun w op w' h hok hs => hinv w w' op h hok hs) hinit hmeets
        hfront
    have hretains : Retains w₁ w :=
      Run.exec_monotone_of_meets _ _ (fun w op w' h hok hs => hinv w w' op h hok hs)
        (fun w op w' h _ hs => retains_step h hs) hw₁ (hmeets' w₁ hfront) hback
    obtain ⟨row, -, -, -, -, hseq, hleast, -⟩ := claim_in_order hclaim
    rcases hretains.rows k hk with ⟨r, hr, hrk⟩ | hdelivered
    · exact .inr ⟨r, hr, hrk, hleast r hr (by omega)⟩
    · exact .inl hdelivered
  · intro d hd hid
    obtain ⟨row, hrow, hpending, -, hrowid, -⟩ := claim_in_order hclaim
    have hfailed := hw.delivered d hd row hrow (hrowid.trans hid.symm)
    rw [hpending] at hfailed
    cases hfailed

/-- A hook call. -/
def stopHook : LifecycleJobInsert where
  repoId := "repo-1"
  repoRoot := "/tmp/repo"
  configRoot := "/tmp/config"
  agentName := "codex"
  hookName := "stop"
  rawStdin := ""
  workspaceSnapshot := none
  boundarySnapshot := none
  cwd := "/tmp/repo"
  receivedAtUnix := 0

/-- Two hook calls on an empty store, the first of which has been processed. -/
def enqueueAndDeliver : List LifecycleOp :=
  [.enqueueHookSafe 1 "lifecycle-job-1" stopHook, .claim 2, .processed 3 none,
    .enqueueHookSafe 4 "lifecycle-job-2" stopHook]

theorem delivery_of_two_hooks :
    ∃ w, Run.exec step { spool := .empty, legacy := [] } enqueueAndDeliver = some w ∧
      AtMostOneRunning w.spool ∧
      ∀ now s' job, claimNextLifecycleJob now w.spool = (s', some job) →
        (∀ front back w₁, enqueueAndDeliver = front ++ back →
          Run.exec step { spool := .empty, legacy := [] } front = some w₁ →
          ∀ k ∈ w₁.spool.jobs, k.sequence < job.sequence →
            (∃ d ∈ w.delivered, d.sequence = k.sequence) ∨
              ∃ r ∈ w.spool.jobs, r.sequence = k.sequence ∧ r.status = .failed) ∧
        ∀ d ∈ w.delivered, d.jobId ≠ job.jobId :=
  ⟨_, rfl, delivery_of_harmless_migration ⟨rfl, rfl⟩ (by intro r hr; cases hr) (by decide)
    (by decide) rfl⟩

/-! ## The legacy table -/

/-- A pending row of the legacy table. -/
def legacyStopJob : LifecycleStopJob where
  jobId := "legacy-job"
  repoId := "repo-1"
  repoRoot := "/tmp/repo"
  configRoot := "/tmp/config"
  agentName := "codex"
  hookName := "stop"
  rawStdin := ""
  workspaceSnapshot := {}
  cwd := "/tmp/repo"
  status := .pending
  attempts := 0
  availableAtUnix := 1
  receivedAtUnix := 1
  updatedAtUnix := 1
  lastError := none

/-- An empty spool next to a legacy table with one pending row. -/
def legacyWorld : LifecycleWorld := { spool := .empty, legacy := [legacyStopJob] }

/-- **A migrated job is claimed twice.**  The store is opened, the migrated job is claimed,
processed and deleted, and the store is opened again: the legacy row is still there, so the
job that was deleted after success is claimed once more. -/
theorem migrated_job_claimed_twice :
    ∃ w, Run.exec step legacyWorld
        [.openStore, .claim 2, .processed 3 none, .openStore] = some w ∧
      Started legacyWorld ∧ RunningIsOldest legacyWorld.spool ∧
      ∃ s' job, claimNextLifecycleJob 4 w.spool = (s', some job) ∧
        ∃ d ∈ w.delivered, d.jobId = job.jobId := by
  refine ⟨_, rfl, ⟨rfl, rfl⟩, ?_, _, _, rfl, _, List.mem_cons_self, rfl⟩
  intro r hr
  cases hr

end Lifecycle
end Bitloops
