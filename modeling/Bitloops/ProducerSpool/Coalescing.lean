import Bitloops.ProducerSpool.Queue
import Mathlib.Data.List.Induction

/-!
# Coalescing in the producer spool

Enqueues of one repo under one dedupe key meet in one pending job.  This file follows that
job through any sequence of enqueues and exclusion prunings up to its claim.

Above the table stands the abstract slot, an optional payload: an enqueue fills it or merges
into it, and a pruning may empty it.  `shape_step` shows that the table simulates the slot.
On the slot, the paths of path syncs and of post-merge refreshes accumulate, while every
other merge starts afresh; `sinceOverwrite` lists the payloads enqueued since the last
such start.

* `claimed_covers_iff`: the claim covers every path requested and not excluded if and only
  if the payloads enqueued since the last overwriting merge already name it.
* `second_refresh_drops_path`: a second post-commit refresh of a commit drops the paths of
  the first.
-/

namespace Bitloops
namespace ProducerSpool

open Daemon

inductive CoalesceOp where
  | enqueue (now : ℕ) (jobId : String) (payload : ProducerSpoolJobPayload)
  | prune (now : ℕ) (matcherAt : String → RepoExclusionMatcher)

/-- One operation on the spool, for a fixed repo and dedupe key. -/
def coalesce (repo : SpoolRepo) (key : String) (spool : Spool) : CoalesceOp → Spool
  | .enqueue now jobId payload =>
    enqueueJob now jobId repo { dedupeKey := some key, payload } spool
  | .prune now matcherAt => pruneExcludedPendingProducerSpoolJobs now matcherAt spool

/-- The payloads that the operations enqueue. -/
def enqueued (ops : List CoalesceOp) : List ProducerSpoolJobPayload :=
  ops.filterMap fun
    | .enqueue _ _ payload => some payload
    | .prune _ _ => none

/-- The path is excluded by no pruning of the sequence. -/
def NotExcluded (repoRoot : String) (ops : List CoalesceOp) (path : String) : Prop :=
  ∀ op ∈ ops, ∀ now matcherAt, op = .prune now matcherAt → matcherAt repoRoot path = false

/-- The operations take place no later than `now`. -/
def NoLaterThan (now : ℕ) (ops : List CoalesceOp) : Prop :=
  ∀ op ∈ ops, ∀ t jobId payload, op = .enqueue t jobId payload → t ≤ now

/-! ## The slot -/

/-- The payload of the pending job, if there is one. -/
abbrev Slot := Option ProducerSpoolJobPayload

def slotStep (repoRoot : String) (slot : Slot) : CoalesceOp → Slot
  | .enqueue _ _ payload =>
    match slot with
    | none => some payload
    | some existing => some (mergePendingPayload existing payload)
  | .prune _ matcherAt => slot.bind (pruneExcludedPathsFromPayload (matcherAt repoRoot))

/-- The payloads enqueued since the last one whose merge was no union, that one included. -/
def sinceOverwrite (payloads : List ProducerSpoolJobPayload) : List ProducerSpoolJobPayload :=
  payloads.foldl
    (fun run payload =>
      match run.getLast? with
      | some last => if unions last payload then run ++ [payload] else [payload]
      | none => [payload])
    []

/-- How the run of payloads since the last overwriting merge grows. -/
def extendRun (run : List ProducerSpoolJobPayload) (payload : ProducerSpoolJobPayload) :
    List ProducerSpoolJobPayload :=
  match run.getLast? with
  | some last => if unions last payload then run ++ [payload] else [payload]
  | none => [payload]

theorem enqueued_append_enqueue (ops : List CoalesceOp) (now : ℕ) (jobId : String)
    (payload : ProducerSpoolJobPayload) :
    sinceOverwrite (enqueued (ops ++ [.enqueue now jobId payload]))
      = extendRun (sinceOverwrite (enqueued ops)) payload := by
  simp [enqueued, sinceOverwrite, extendRun]

theorem enqueued_append_prune (ops : List CoalesceOp) (now : ℕ)
    (matcherAt : String → RepoExclusionMatcher) :
    enqueued (ops ++ [.prune now matcherAt]) = enqueued ops := by
  simp [enqueued]

/-- What the slot covers of one path, against the run of payloads since the last overwriting
merge: they agree on the path, and the slot has the union class of the last payload. -/
structure SlotMatches (path : String) (slot : Slot) (run : List ProducerSpoolJobPayload) :
    Prop where
  covers : (∃ e, slot = some e ∧ covers e path) ↔ ∃ p ∈ run, ProducerSpool.covers p path
  last : ∀ e, slot = some e → ∃ last, run.getLast? = some last ∧ unionClass e = unionClass last

theorem SlotMatches.enqueue {path : String} {slot : Slot} {run : List ProducerSpoolJobPayload}
    (h : SlotMatches path slot run) (repoRoot : String) (now : ℕ) (jobId : String)
    (payload : ProducerSpoolJobPayload) :
    SlotMatches path (slotStep repoRoot slot (.enqueue now jobId payload))
      (extendRun run payload) := by
  have hlast : (extendRun run payload).getLast? = some payload := by
    unfold extendRun
    split
    · split <;> simp
    · rfl
  cases slot with
  | none =>
    refine ⟨?_, fun e he => ⟨payload, hlast, by cases he; rfl⟩⟩
    have hrun : ∀ p ∈ run, ¬ ProducerSpool.covers p path := by
      intro p hp hcovers
      obtain ⟨e, he, -⟩ := h.covers.mpr ⟨p, hp, hcovers⟩
      cases he
    have hmem : ∀ p ∈ extendRun run payload, p = payload ∨ p ∈ run := by
      unfold extendRun
      split
      · split <;> simp +contextual [or_comm]
      · simp
    simp only [slotStep, Option.some.injEq, exists_eq_left']
    constructor
    · exact fun hcovers => ⟨payload, List.mem_of_getLast? hlast, hcovers⟩
    · rintro ⟨p, hp, hcovers⟩
      rcases hmem p hp with rfl | hp
      · exact hcovers
      · exact absurd hcovers (hrun p hp)
  | some existing =>
    obtain ⟨last, hgetLast, hclass⟩ := h.last existing rfl
    have hexisting : ProducerSpool.covers existing path ↔
        ∃ p ∈ run, ProducerSpool.covers p path := by
      simpa using h.covers
    have hrun : extendRun run payload
        = if unions existing payload then run ++ [payload] else [payload] := by
      simp only [extendRun, hgetLast]
      exact if_congr (by rw [unions, unions, hclass]) rfl rfl
    by_cases hunion : unions existing payload
    · obtain ⟨hmclass, hmcovers⟩ := merge_of_unions hunion
      refine ⟨?_, fun e he => ⟨payload, hlast, by cases he; exact hmclass⟩⟩
      rw [hrun, if_pos hunion]
      simp only [slotStep, Option.some.injEq, exists_eq_left', hmcovers, hexisting,
        List.mem_append, List.mem_singleton]
      constructor
      · rintro (⟨p, hp, hcovers⟩ | hcovers)
        · exact ⟨p, .inl hp, hcovers⟩
        · exact ⟨payload, .inr rfl, hcovers⟩
      · rintro ⟨p, hp | rfl, hcovers⟩
        · exact .inl ⟨p, hp, hcovers⟩
        · exact .inr hcovers
    · have hmerge := merge_of_not_unions hunion
      refine ⟨?_, fun e he => ⟨payload, hlast, by cases he; rw [hmerge]⟩⟩
      rw [hrun, if_neg hunion]
      simp [slotStep, hmerge]

theorem SlotMatches.prune {path : String} {slot : Slot} {run : List ProducerSpoolJobPayload}
    (h : SlotMatches path slot run) {repoRoot : String} {now : ℕ}
    {matcherAt : String → RepoExclusionMatcher} (hpath : matcherAt repoRoot path = false) :
    SlotMatches path (slotStep repoRoot slot (.prune now matcherAt)) run := by
  cases slot with
  | none => exact h
  | some existing =>
    have hexisting : ProducerSpool.covers existing path ↔
        ∃ p ∈ run, ProducerSpool.covers p path := by
      simpa using h.covers
    simp only [slotStep, Option.bind_some]
    cases hprune : pruneExcludedPathsFromPayload (matcherAt repoRoot) existing with
    | none =>
      refine ⟨?_, fun e he => (by cases he)⟩
      have hnone := prune_none hprune path hpath
      simpa [← hexisting] using hnone
    | some pruned =>
      obtain ⟨hclass, hcovers⟩ := prune_some hprune
      refine ⟨?_, fun e he => ?_⟩
      · simpa [hcovers path hpath] using hexisting
      · cases he
        obtain ⟨last, hgetLast, hlast⟩ := h.last existing rfl
        exact ⟨last, hgetLast, hclass.trans hlast⟩

/-- **The slot lemma.**  After any sequence of operations the slot covers, of the paths that
no pruning excludes, exactly those of the payloads since the last overwriting merge. -/
theorem slotMatches_run (repoRoot : String) {path : String} (ops : List CoalesceOp)
    (hpath : NotExcluded repoRoot ops path) :
    SlotMatches path (ops.foldl (slotStep repoRoot) none) (sinceOverwrite (enqueued ops)) := by
  induction ops using List.reverseRecOn with
  | nil => exact ⟨by simp [enqueued, sinceOverwrite], by simp⟩
  | append_singleton ops op ih =>
    have hops := ih fun op' hop' => hpath op' (List.mem_append_left _ hop')
    rw [List.foldl_append, List.foldl_cons, List.foldl_nil]
    cases op with
    | enqueue now jobId payload =>
      rw [enqueued_append_enqueue]
      exact hops.enqueue repoRoot now jobId payload
    | prune now matcherAt =>
      rw [enqueued_append_prune]
      exact hops.prune (hpath _ (List.mem_append_right _ List.mem_cons_self) now matcherAt rfl)

/-! ## The table simulates the slot -/

/-- The spool holds the slot's payload in one pending job of the repo and the key. -/
def Shape (repo : SpoolRepo) (key : String) (now : ℕ) (spool : Spool) : Slot → Prop
  | none => spool = []
  | some payload => ∃ job, spool = [job] ∧ job.payload = payload ∧ job.repoId = repo.repoId ∧
      job.repoRoot = repo.repoRoot ∧ job.dedupeKey = some key ∧ job.status = .pending ∧
      job.availableAtUnix ≤ now

theorem shape_step {repo : SpoolRepo} {key : String} {now : ℕ} {spool : Spool} {slot : Slot}
    (h : Shape repo key now spool slot) (op : CoalesceOp) (hop : NoLaterThan now [op]) :
    Shape repo key now (coalesce repo key spool op) (slotStep repo.repoRoot slot op) := by
  cases op with
  | enqueue t jobId payload =>
    have ht : t ≤ now := hop _ List.mem_cons_self t jobId payload rfl
    cases slot with
    | none =>
      subst h
      exact ⟨_, rfl, rfl, rfl, rfl, rfl, rfl, ht⟩
    | some existing =>
      obtain ⟨job, rfl, rfl, hrepo, hroot, hkey, hstatus, havail⟩ := h
      have hload : loadPendingDedupedJob repo.repoId (some key) [job] = some job := by
        simp [loadPendingDedupedJob, hrepo, hkey, hstatus]
      simp only [coalesce, enqueueJob, hload, updateJob, List.map_cons, if_true, List.map_nil]
      exact ⟨_, rfl, rfl, hrepo, hroot, hkey, hstatus, ht⟩
  | prune t matcherAt =>
    cases slot with
    | none =>
      subst h
      rfl
    | some existing =>
      obtain ⟨job, rfl, rfl, hrepo, hroot, hkey, hstatus, havail⟩ := h
      simp only [coalesce, pruneExcludedPendingProducerSpoolJobs, slotStep, Option.bind_some,
        List.filterMap_cons, List.filterMap_nil, pruneJob, hstatus, if_true, hroot]
      cases hprune : pruneExcludedPathsFromPayload (matcherAt repo.repoRoot) job.payload with
      | none => rfl
      | some pruned => exact ⟨storePruned t job pruned, rfl, by simp [*]⟩

theorem shape_run (repo : SpoolRepo) (key : String) {now : ℕ} (ops : List CoalesceOp)
    (hops : NoLaterThan now ops) :
    Shape repo key now (ops.foldl (coalesce repo key) [])
      (ops.foldl (slotStep repo.repoRoot) none) := by
  induction ops using List.reverseRecOn with
  | nil => rfl
  | append_singleton ops op ih =>
    rw [List.foldl_append, List.foldl_append]
    refine shape_step (ih fun op' hop' => hops op' (List.mem_append_left _ hop')) op ?_
    exact fun op' hop' => hops op' (List.mem_append_right _ hop')

/-- A claim with nothing in its way prunes the slot and hands out what is left. -/
theorem claim_of_shape {repo : SpoolRepo} {key : String} {now : ℕ} {spool : Spool} {slot : Slot}
    (h : Shape repo key now spool slot) (matcherAt : String → RepoExclusionMatcher) :
    (claimNextProducerSpoolJobsExcluding now matcherAt {} spool).2.map
        ProducerSpoolJobRecord.payload
      = (slotStep repo.repoRoot slot (.prune now matcherAt)).toList := by
  have hpruned := shape_step h (.prune now matcherAt) (by simp [NoLaterThan])
  simp only [coalesce] at hpruned
  cases hslot : slotStep repo.repoRoot slot (.prune now matcherAt) with
  | none =>
    rw [hslot] at hpruned
    simp only [Shape] at hpruned
    simp [claimNextProducerSpoolJobsExcluding, hpruned, claimScan, claimableJobs, orderBy]
  | some payload =>
    rw [hslot] at hpruned
    obtain ⟨job, hjob, hpayload, -, -, -, hstatus, havail⟩ := hpruned
    have hclaimable : claimableJobs now [job] = [job] := by
      simp [claimableJobs, hstatus, havail]
    have hrunning : loadRunningRepoIds [job] = [] := by
      simp [loadRunningRepoIds, hstatus]
    have hderivation : ∀ key, derivationKey job = key → key.any ([] : List _).contains = false := by
      intro key _
      cases key <;> rfl
    simp [claimNextProducerSpoolJobsExcluding, hjob, claimScan, hclaimable, hrunning,
      claimScanStep, claimBatchLimit, postCommitDerivationIsAbandoned,
      postCommitDerivationIsBlocked, hderivation, claimedJob, hpayload]

/-! ## What the claim covers -/

/-- The payloads cover every path that an enqueue asks for and no pruning excludes. -/
def CoversRequested (repoRoot : String) (ops : List CoalesceOp)
    (payloads : List ProducerSpoolJobPayload) : Prop :=
  ∀ path, NotExcluded repoRoot ops path → (∃ p ∈ enqueued ops, covers p path) →
    ∃ p ∈ payloads, covers p path

/-- The payloads that a claim hands out after the operations, on a spool that was empty. -/
def claimedPayloads (repo : SpoolRepo) (key : String) (now : ℕ)
    (matcherAt : String → RepoExclusionMatcher) (ops : List CoalesceOp) :
    List ProducerSpoolJobPayload :=
  (claimNextProducerSpoolJobsExcluding now matcherAt {}
    (ops.foldl (coalesce repo key) [])).2.map ProducerSpoolJobRecord.payload

/-- **Coverage of the claim.**  Follow any sequence of enqueues under one dedupe key and of
prunings by a claim.  The claim covers every requested path that is not excluded if and only
if the payloads enqueued since the last overwriting merge do. -/
theorem claimed_covers_iff (repo : SpoolRepo) (key : String) {now : ℕ}
    (matcherAt : String → RepoExclusionMatcher) {ops : List CoalesceOp}
    (hclock : NoLaterThan now ops) :
    CoversRequested repo.repoRoot (ops ++ [.prune now matcherAt])
        (claimedPayloads repo key now matcherAt ops) ↔
      CoversRequested repo.repoRoot (ops ++ [.prune now matcherAt])
        (sinceOverwrite (enqueued ops)) := by
  have hclaimed := claim_of_shape (shape_run repo key ops hclock) matcherAt
  refine forall_congr' fun path => imp_congr_right fun hpath => imp_congr_right fun _ => ?_
  have hslot := (slotMatches_run repo.repoRoot _ hpath).covers
  rw [List.foldl_append, enqueued_append_prune] at hslot
  rw [claimedPayloads, hclaimed, ← hslot]
  simp [Option.mem_toList]

/-- Payloads of one union class are never overwritten, so nothing they ask for is lost. -/
theorem sinceOverwrite_of_unionClass {payloads : List ProducerSpoolJobPayload}
    {c : Option DevqlTaskSource} (h : ∀ p ∈ payloads, unionClass p = some c) :
    sinceOverwrite payloads = payloads := by
  induction payloads using List.reverseRecOn with
  | nil => rfl
  | append_singleton payloads p ih =>
    have hp := h p (List.mem_append_right _ List.mem_cons_self)
    have hrest := ih fun q hq => h q (List.mem_append_left _ hq)
    rw [sinceOverwrite, List.foldl_append, ← sinceOverwrite, hrest]
    cases hlast : payloads.getLast? with
    | none => simp [List.getLast?_eq_none_iff.mp hlast]
    | some last =>
      have hlastClass := h last (List.mem_append_left _ (List.mem_of_getLast? hlast))
      simp [hlast, unions, hlastClass, hp]

/-! ## A post-commit refresh enqueued twice -/

/-- The post-commit hook enqueues the refresh of one commit twice, with different files. -/
def refreshTwice : List CoalesceOp :=
  [.enqueue 1 "job-1" (.postCommitRefresh "commit-head" ["src/a.rs"]),
    .enqueue 2 "job-2" (.postCommitRefresh "commit-head" ["src/b.rs"])]

/-- **The second refresh drops the paths of the first.**  Nothing is excluded, and the claim
hands out `src/b.rs` alone. -/
theorem second_refresh_drops_path :
    claimedPayloads sampleRepo "post_commit:commit-head" 3 (fun _ _ => false) refreshTwice
        = [.postCommitRefresh "commit-head" ["src/b.rs"]] ∧
      ¬ CoversRequested sampleRepo.repoRoot
        (refreshTwice ++ [.prune 3 fun _ _ => false])
        (claimedPayloads sampleRepo "post_commit:commit-head" 3 (fun _ _ => false)
          refreshTwice) := by
  have hclaimed :
      claimedPayloads sampleRepo "post_commit:commit-head" 3 (fun _ _ => false) refreshTwice
        = [.postCommitRefresh "commit-head" ["src/b.rs"]] := by decide
  refine ⟨hclaimed, fun h => ?_⟩
  rw [hclaimed] at h
  have hcovered := h "src/a.rs" (by simp [NotExcluded, refreshTwice])
    ⟨_, List.mem_cons_self, by simp [covers, carriedPaths]⟩
  simp [covers, carriedPaths] at hcovered

/-- The claim covers the paths of two watcher syncs, which the merge unites. -/
theorem claimed_covers_watcher_paths :
    let ops : List CoalesceOp :=
      [.enqueue 1 "job-1" (.task .watcher (.sync ⟨.paths ["src/a.rs"], none⟩)),
        .enqueue 2 "job-2" (.task .watcher (.sync ⟨.paths ["src/b.rs"], none⟩))]
    CoversRequested sampleRepo.repoRoot (ops ++ [.prune 3 fun _ _ => false])
      (claimedPayloads sampleRepo "task:watcher:sync:paths" 3 (fun _ _ => false) ops) := by
  intro ops
  refine (claimed_covers_iff sampleRepo _ _ ?_).mpr ?_
  · simp [NoLaterThan, ops]
  · intro path _ hrequested
    exact hrequested

end ProducerSpool
end Bitloops
