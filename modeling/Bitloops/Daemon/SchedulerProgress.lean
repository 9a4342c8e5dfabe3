import Bitloops.Daemon.SchedulerExclusion

/-!
# Progress of the task scheduler

The guards of the scheduling loop make kinds of tasks wait for other kinds.  In a repository in
which nothing runs, a queued policy change waits for nothing, a queued sync waits for policy
changes only, and the other kinds wait for these two; so some queued task passes the tests, and
the loop keeps a task for its lane.
-/

namespace Bitloops
namespace Daemon

variable {tasks : List DevqlTaskRecord} {pausedRepoIds blockedRepoIds : List String}

/-! ## Tasks that may start -/

theorem isRunnable_of_startable {task : DevqlTaskRecord}
    (h : Startable tasks pausedRepoIds blockedRepoIds task) :
    isRunnable tasks pausedRepoIds blockedRepoIds task = true := by
  simp only [isRunnable, Bool.and_eq_true, decide_eq_true_eq, Bool.not_eq_true',
    Bool.and_eq_false_imp, List.any_eq_true, List.any_eq_false]
  refine ⟨⟨⟨⟨⟨⟨h.queued, h.notPaused⟩, h.notBlocked⟩, ?_⟩, ?_⟩, ?_⟩, ?_⟩
  · rintro ⟨other, hother, ⟨hrepo, hchange⟩, hlive⟩
    rw [h.policyChangeFirst other hother hrepo hchange hlive]
    rfl
  · rintro hingest other hother ⟨⟨hrepo, hkind⟩, hlive⟩
    rw [h.syncFirst hingest other hother hrepo hkind] at hlive
    cases hlive
  · rintro hchange other hother ⟨hrepo, hrunning⟩
    exact h.policyChangeAlone hchange other hother hrepo hrunning
  · rintro other hother ⟨hrunning, hlane⟩
    exact h.laneFree other hother hrunning hlane

/-- The repository has no running task, and is neither paused nor blocked. -/
structure Idle (tasks : List DevqlTaskRecord) (pausedRepoIds blockedRepoIds : List String)
    (repoId : String) : Prop where
  notRunning : ∀ task ∈ tasks, task.repoId = repoId → task.status ≠ .running
  notPaused : repoId ∉ pausedRepoIds
  notBlocked : repoId ∉ blockedRepoIds

theorem queued_of_isLive {repoId : String} (h : Idle tasks pausedRepoIds blockedRepoIds repoId)
    {task : DevqlTaskRecord} (htask : task ∈ tasks) (hrepo : task.repoId = repoId)
    (hlive : task.status.isLive = true) : task.status = .queued := by
  cases hstatus : task.status with
  | queued => rfl
  | running => exact absurd hstatus (h.notRunning task htask hrepo)
  | completed | failed | cancelled => rw [hstatus] at hlive; exact nomatch hlive

/-- In an idle repository the tests are about the other queued tasks only. -/
theorem startable_of_idle {repoId : String} (h : Idle tasks pausedRepoIds blockedRepoIds repoId)
    {task : DevqlTaskRecord} (hrepo : task.repoId = repoId) (hqueued : task.status = .queued)
    (hpolicy : ∀ other ∈ tasks, other.repoId = repoId → other.status = .queued →
      other.isRepoPolicyChangeSync = true → task.isRepoPolicyChangeSync = true)
    (hsync : task.kind = .ingest → ∀ other ∈ tasks, other.repoId = repoId →
      other.status = .queued → other.kind ≠ .sync) :
    Startable tasks pausedRepoIds blockedRepoIds task where
  queued := hqueued
  notPaused := hrepo ▸ h.notPaused
  notBlocked := hrepo ▸ h.notBlocked
  policyChangeFirst := fun other hother hsame hchange hlive =>
    hpolicy other hother (hsame.trans hrepo)
      (queued_of_isLive h hother (hsame.trans hrepo) hlive) hchange
  syncFirst := by
    intro hingest other hother hsame hkind
    refine eq_false_of_ne_true fun hlive => ?_
    have hotherQueued := queued_of_isLive h hother (hsame.trans hrepo) hlive
    exact hsync hingest other hother (hsame.trans hrepo) hotherQueued hkind
  policyChangeAlone := fun _ other hother hsame =>
    h.notRunning other hother (hsame.trans hrepo)
  laneFree := fun other hother hrunning hlane =>
    h.notRunning other hother ((congrArg TaskLaneKey.repoId hlane).trans hrepo) hrunning

/-- **Some queued task of an idle repository passes the tests.** -/
theorem exists_startable {repoId : String} (h : Idle tasks pausedRepoIds blockedRepoIds repoId)
    (hqueued : ∃ task ∈ tasks, task.repoId = repoId ∧ task.status = .queued) :
    ∃ task ∈ tasks, task.repoId = repoId ∧
      Startable tasks pausedRepoIds blockedRepoIds task := by
  -- a policy change goes first, then another sync, then whatever is queued
  by_cases hchange : ∃ task ∈ tasks, task.repoId = repoId ∧ task.status = .queued ∧
      task.isRepoPolicyChangeSync = true
  · obtain ⟨task, htask, hrepo, hstatus, hpolicy⟩ := hchange
    refine ⟨task, htask, hrepo, startable_of_idle h hrepo hstatus (fun _ _ _ _ _ => hpolicy) ?_⟩
    intro hingest
    rw [(isRepoPolicyChangeSync_iff.mp hpolicy).1] at hingest
    exact nomatch hingest
  have hnoChange : ∀ other ∈ tasks, other.repoId = repoId → other.status = .queued →
      ¬other.isRepoPolicyChangeSync = true :=
    fun other hother hrepo hstatus hpolicy => hchange ⟨other, hother, hrepo, hstatus, hpolicy⟩
  by_cases hsync : ∃ task ∈ tasks, task.repoId = repoId ∧ task.status = .queued ∧
      task.kind = .sync
  · obtain ⟨task, htask, hrepo, hstatus, hkind⟩ := hsync
    refine ⟨task, htask, hrepo, startable_of_idle h hrepo hstatus ?_ ?_⟩
    · exact fun other hother hsame hqueued hpolicy =>
        absurd hpolicy (hnoChange other hother hsame hqueued)
    · intro hingest
      rw [hkind] at hingest
      exact nomatch hingest
  · obtain ⟨task, htask, hrepo, hstatus⟩ := hqueued
    refine ⟨task, htask, hrepo, startable_of_idle h hrepo hstatus ?_ ?_⟩
    · exact fun other hother hsame hqueued hpolicy =>
        absurd hpolicy (hnoChange other hother hsame hqueued)
    · exact fun _ other hother hsame hqueued hkind =>
        hsync ⟨other, hother, hsame, hqueued, hkind⟩

/-! ## The table of the loop -/

theorem mem_selectForLane {selected : AList fun _ : TaskLaneKey => ℕ × DevqlTaskRecord}
    {candidate : ℕ × DevqlTaskRecord} {lane : TaskLaneKey} :
    lane ∈ selectForLane selected candidate ↔ lane = taskLane candidate.2 ∨ lane ∈ selected := by
  unfold selectForLane
  split
  · rename_i existing hlookup
    have hsome : (selected.lookup (taskLane candidate.2)).isSome = true := by
      rw [hlookup]
      rfl
    have hmem : taskLane candidate.2 ∈ selected := AList.lookup_isSome.mp hsome
    split_ifs
    · exact AList.mem_insert _
    · refine ⟨.inr, ?_⟩
      rintro (rfl | h)
      · exact hmem
      · exact h
  · exact AList.mem_insert _

/-- Each candidate's lane has an entry. -/
theorem mem_foldl_selectForLane {candidates : List (ℕ × DevqlTaskRecord)}
    {selected : AList fun _ : TaskLaneKey => ℕ × DevqlTaskRecord} {lane : TaskLaneKey} :
    lane ∈ candidates.foldl selectForLane selected ↔
      (∃ candidate ∈ candidates, lane = taskLane candidate.2) ∨ lane ∈ selected := by
  induction candidates generalizing selected with
  | nil => simp
  | cons candidate rest ih =>
    rw [List.foldl_cons, ih, mem_selectForLane]
    simp only [List.mem_cons, exists_eq_or_imp]
    rw [← or_assoc, or_comm (a := ∃ _, _)]

/-- The candidates of the loop, with their indexes. -/
def candidatesOf (tasks : List DevqlTaskRecord) (pausedRepoIds blockedRepoIds : List String) :
    List (ℕ × DevqlTaskRecord) :=
  (tasks.zipIdx.map fun entry => (entry.2, entry.1)).filter fun candidate =>
    isRunnable tasks pausedRepoIds blockedRepoIds candidate.2

theorem mem_candidatesOf {candidate : ℕ × DevqlTaskRecord} :
    candidate ∈ candidatesOf tasks pausedRepoIds blockedRepoIds ↔
      tasks[candidate.1]? = some candidate.2 ∧
        isRunnable tasks pausedRepoIds blockedRepoIds candidate.2 = true := by
  rw [candidatesOf, List.mem_filter]
  refine and_congr_left fun _ => ?_
  rw [List.mem_map]
  constructor
  · rintro ⟨⟨task, i⟩, hentry, rfl⟩
    exact List.mem_zipIdx_iff_getElem?.mp hentry
  · intro h
    exact ⟨(candidate.2, candidate.1), List.mem_zipIdx_iff_getElem?.mpr h, rfl⟩

/-- The entries that the loop leaves. -/
def selectedOf (tasks : List DevqlTaskRecord) (pausedRepoIds blockedRepoIds : List String) :
    List (Sigma fun _ : TaskLaneKey => ℕ × DevqlTaskRecord) :=
  ((candidatesOf tasks pausedRepoIds blockedRepoIds).foldl selectForLane ∅).entries

theorem mem_selectedOf {entry : Sigma fun _ : TaskLaneKey => ℕ × DevqlTaskRecord}
    (h : entry ∈ selectedOf tasks pausedRepoIds blockedRepoIds) :
    tasks[entry.2.1]? = some entry.2.2 ∧ entry.2.2.status = .queued ∧
      entry.1 = taskLane entry.2.2 := by
  have hfrom : FromCandidates (candidatesOf tasks pausedRepoIds blockedRepoIds)
      ((candidatesOf tasks pausedRepoIds blockedRepoIds).foldl selectForLane ∅) :=
    fromCandidates_foldl _ (fun _ => id) fun entry hentry => absurd hentry (by simp)
  obtain ⟨hmem, hlane⟩ := hfrom entry h
  obtain ⟨hindex, hrunnable⟩ := mem_candidatesOf.mp hmem
  exact ⟨hindex, (startable_of_isRunnable hrunnable).queued, hlane⟩

theorem nextRunnable_eq :
    nextRunnableTaskIndexesBlockingRepoIds tasks pausedRepoIds blockedRepoIds =
      (orderBy (fun entry => pendingSortKey entry.1 entry.2)
        ((selectedOf tasks pausedRepoIds blockedRepoIds).map fun entry => entry.2)).map
          fun entry => entry.1 := rfl

/-- Where an index of the result comes from. -/
theorem mem_ordered {candidate : ℕ × DevqlTaskRecord}
    (h : candidate ∈ orderBy (fun entry => pendingSortKey entry.1 entry.2)
      ((selectedOf tasks pausedRepoIds blockedRepoIds).map fun entry => entry.2)) :
    tasks[candidate.1]? = some candidate.2 := by
  obtain ⟨entry, hentry, rfl⟩ := List.mem_map.mp (mem_orderBy.mp h)
  exact (mem_selectedOf hentry).1

/-! ## The statement -/

/-- The tasks at two indexes are in the relation. -/
def OfTasks (tasks : List DevqlTaskRecord)
    (r : ℕ → DevqlTaskRecord → ℕ → DevqlTaskRecord → Prop) (i j : ℕ) : Prop :=
  ∀ a b, tasks[i]? = some a → tasks[j]? = some b → r i a j b

theorem pairwise_ofTasks {r : ℕ → DevqlTaskRecord → ℕ → DevqlTaskRecord → Prop}
    (h : (orderBy (fun entry => pendingSortKey entry.1 entry.2)
      ((selectedOf tasks pausedRepoIds blockedRepoIds).map fun entry => entry.2)).Pairwise
        fun a b => r a.1 a.2 b.1 b.2) :
    (nextRunnableTaskIndexesBlockingRepoIds tasks pausedRepoIds blockedRepoIds).Pairwise
      (OfTasks tasks r) := by
  rw [nextRunnable_eq, List.pairwise_map]
  refine h.imp_of_mem fun {a b} ha hb hr a' b' ha' hb' => ?_
  obtain rfl := Option.some.inj ((mem_ordered ha).symm.trans ha')
  obtain rfl := Option.some.inj ((mem_ordered hb).symm.trans hb')
  exact hr

theorem pairwise_lanes :
    (nextRunnableTaskIndexesBlockingRepoIds tasks pausedRepoIds blockedRepoIds).Pairwise
      (OfTasks tasks fun _ a _ b => taskLane a ≠ taskLane b) := by
  refine pairwise_ofTasks ?_
  have hsymm : Std.Symm fun a b : ℕ × DevqlTaskRecord => taskLane a.2 ≠ taskLane b.2 :=
    ⟨fun _ _ => Ne.symm⟩
  refine ((perm_orderBy _ _).pairwise_iff fun {a b} => Ne.symm).mpr ?_
  rw [List.pairwise_map]
  have hkeys : (selectedOf tasks pausedRepoIds blockedRepoIds).NodupKeys := AList.nodupKeys _
  refine (List.pairwise_map.mp hkeys).imp_of_mem fun {a b} ha hb hne => ?_
  rw [← (mem_selectedOf ha).2.2, ← (mem_selectedOf hb).2.2]
  exact hne

/-- **The scheduler's guards cannot deadlock a repository.**  A repository with a queued task in
which nothing runs, and that is neither paused nor blocked, has one of its queued tasks among those
to start; and the tasks to start are of different lanes, in the order of their keys. -/
theorem scheduler_progress (tasks : List DevqlTaskRecord)
    (pausedRepoIds blockedRepoIds : List String) :
    (∀ repoId, (∃ task ∈ tasks, task.repoId = repoId ∧ task.status = .queued) →
      Idle tasks pausedRepoIds blockedRepoIds repoId →
      ∃ i ∈ nextRunnableTaskIndexesBlockingRepoIds tasks pausedRepoIds blockedRepoIds,
        ∃ task, tasks[i]? = some task ∧ task.repoId = repoId ∧ task.status = .queued) ∧
    (nextRunnableTaskIndexesBlockingRepoIds tasks pausedRepoIds blockedRepoIds).Pairwise
      (OfTasks tasks fun _ a _ b => taskLane a ≠ taskLane b) ∧
    (nextRunnableTaskIndexesBlockingRepoIds tasks pausedRepoIds blockedRepoIds).Pairwise
      (OfTasks tasks fun i a j b => pendingSortKey i a ≤ pendingSortKey j b) := by
  refine ⟨fun repoId hqueued hidle => ?_, pairwise_lanes, pairwise_ofTasks (pairwise_orderBy _ _)⟩
  obtain ⟨task, htask, hrepo, hstartable⟩ := exists_startable hidle hqueued
  obtain ⟨i, hi⟩ := List.mem_iff_getElem?.mp htask
  have hcandidate : (i, task) ∈ candidatesOf tasks pausedRepoIds blockedRepoIds :=
    mem_candidatesOf.mpr ⟨hi, isRunnable_of_startable hstartable⟩
  have hlane : taskLane task ∈
      (candidatesOf tasks pausedRepoIds blockedRepoIds).foldl selectForLane ∅ :=
    mem_foldl_selectForLane.mpr (.inl ⟨_, hcandidate, rfl⟩)
  obtain ⟨entry, hentry, hkey⟩ := List.mem_map.mp (AList.mem_keys.mp hlane)
  obtain ⟨hindex, hstatus, hentryLane⟩ := mem_selectedOf hentry
  refine ⟨entry.2.1, ?_, entry.2.2, hindex, ?_, hstatus⟩
  · rw [nextRunnable_eq]
    exact List.mem_map_of_mem (mem_orderBy.mpr (List.mem_map_of_mem hentry))
  · have hsame : taskLane entry.2.2 = taskLane task := hentryLane.symm.trans hkey
    exact (congrArg TaskLaneKey.repoId hsame).trans hrepo

/-- An ingest task and a sync of one repository are queued. -/
def waitingTasks : List DevqlTaskRecord :=
  [newTask plainIngest "t1" 10, newTask (plainSync .manualCli .full) "t2" 11]

theorem waitingTasks_start :
    ∃ i ∈ nextRunnableTaskIndexesBlockingRepoIds waitingTasks ["other"] [],
      ∃ task, waitingTasks[i]? = some task ∧ task.repoId = "repo" ∧ task.status = .queued := by
  refine (scheduler_progress waitingTasks ["other"] []).1 "repo" ?_ ?_
  · exact ⟨_, List.mem_cons_self, rfl, rfl⟩
  · exact ⟨by decide, by decide, by decide⟩

example : nextRunnableTaskIndexesBlockingRepoIds waitingTasks ["other"] [] = [1] := by decide

end Daemon
end Bitloops
