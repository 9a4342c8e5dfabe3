import Bitloops.Daemon.TaskQueue

/-!
# Accepted sync requests

An accepted sync request is *discharged* if an execution that started after it was accepted
covers it, or if it is still covered by the work that waits in the queue.  A queued task that
absorbs a request is executed later, but a task that is running has started before, so a
request that a running full sync or repair absorbs is discharged only if another queued task
covers it.

No request is lost in a run exactly when this is so each time a running task absorbs one.
-/

namespace Bitloops
namespace Daemon

/-- Whatever the schema preparation finds, the execution does what the request asks for. -/
def SyncWork.Covers (work request : SyncWork) : Prop :=
  work.repoId = request.repoId ∧
    ∀ rebuilt, (effectiveSyncMode work.mode rebuilt).Covers request.mode

theorem SyncTaskMode.Covers.ne_validate {a b : SyncTaskMode} (h : a.Covers b) : a ≠ .validate := by
  rintro rfl
  cases b <;> exact h

theorem effectiveSyncMode_false (mode : SyncTaskMode) : effectiveSyncMode mode false = mode := by
  cases mode <;> rfl

theorem SyncWork.covers_iff {work request : SyncWork} :
    work.Covers request ↔ work.repoId = request.repoId ∧ work.mode.Covers request.mode := by
  refine and_congr_right fun _ => ⟨fun h => ?_, fun h rebuilt => ?_⟩
  · exact effectiveSyncMode_false work.mode ▸ h false
  · exact (SyncTaskMode.covers_effectiveSyncMode h.ne_validate rebuilt).trans h

instance : DecidableRel SyncWork.Covers := fun _ _ => decidable_of_iff _ SyncWork.covers_iff.symm

/-- The sync request that an action accepts. -/
def Action.syncRequest? : Action → Option SyncRequestSpec
  | .enqueue request _ _ => request.syncRequest?
  | _ => none

/-- If the first task that absorbs the request is already running, the queued work covers the
request. -/
def AbsorbedInTime (w : World) (op : Op) : Prop :=
  ∀ request ∈ op.action.syncRequest?, ∀ task ∈ w.tasks.find? (absorbsRequest request),
    task.status = .running → ∃ work ∈ queuedWork w.tasks, work.Covers request.work

instance (w : World) (op : Op) : Decidable (AbsorbedInTime w op) :=
  inferInstanceAs (Decidable (∀ request ∈ op.action.syncRequest?,
    ∀ task ∈ w.tasks.find? (absorbsRequest request), task.status = .running →
      ∃ work ∈ queuedWork w.tasks, work.Covers request.work))

/-- Every accepted sync request is discharged. -/
def NoneLost (w : World) : Prop :=
  ∀ accepted ∈ w.requests, Discharged SyncWork.Covers (queuedWork w.tasks) w.executions accepted

instance (w : World) : Decidable (NoneLost w) :=
  inferInstanceAs (Decidable (∀ accepted ∈ w.requests, Discharged _ _ _ accepted))

/-! ## The queued work -/

section QueuedWork

variable {tasks tasks' : List DevqlTaskRecord} {task : DevqlTaskRecord} {work : SyncWork}

theorem mem_queuedWork :
    work ∈ queuedWork tasks ↔
      ∃ task ∈ tasks, task.status = .queued ∧ task.syncWork? = some work := by
  simp [queuedWork, and_assoc]

theorem syncWork?_eq_some_iff :
    task.syncWork? = some work ↔
      ∃ spec, task.spec = .sync spec ∧ work = ⟨task.repoId, spec.mode⟩ := by
  unfold DevqlTaskRecord.syncWork? DevqlTaskSpec.syncSpec?
  cases task.spec <;> simp [eq_comm]

/-- Pruning deletes terminal tasks only. -/
theorem queuedWork_pruneTerminalTasks (protectedTaskIds : List String) :
    queuedWork (pruneTerminalTasks protectedTaskIds tasks) = queuedWork tasks := by
  rw [queuedWork, queuedWork, pruneTerminalTasks, List.filter_filter]
  congr 1
  refine List.filter_congr fun task _ => ?_
  cases hstatus : task.status <;> simp [DevqlTaskStatus.isLive]

/-- What the queued work covers stays covered. -/
def KeepsQueued (tasks tasks' : List DevqlTaskRecord) : Prop :=
  ∀ work ∈ queuedWork tasks, ∀ request, work.Covers request →
    ∃ work' ∈ queuedWork tasks', work'.Covers request

theorem KeepsQueued.of_mem (h : ∀ task ∈ tasks, task.status = .queued → task ∈ tasks') :
    KeepsQueued tasks tasks' := by
  intro work hwork request hcovers
  obtain ⟨task, htask, hqueued, hsome⟩ := mem_queuedWork.mp hwork
  exact ⟨work, mem_queuedWork.mpr ⟨task, h task htask hqueued, hqueued, hsome⟩, hcovers⟩

/-- A task is rewritten in place, and covers at least what it covered before. -/
theorem KeepsQueued.of_updateFirst {p : DevqlTaskRecord → Bool}
    {f : DevqlTaskRecord → DevqlTaskRecord} {merged : DevqlTaskRecord}
    (h : updateFirst? p f tasks = some (tasks', merged))
    (hstatus : ∀ task, (f task).status = task.status)
    (hcovers : ∀ task work, p task = true → task.syncWork? = some work →
      ∃ work', (f task).syncWork? = some work' ∧
        ∀ request, work.Covers request → work'.Covers request) :
    KeepsQueued tasks tasks' := by
  intro work hwork request hrequest
  obtain ⟨task, htask, hqueued, hsome⟩ := mem_queuedWork.mp hwork
  obtain ⟨found, -, -, hp, rfl, hmerged, -, hkeep⟩ := mem_of_updateFirst? h
  rcases hkeep task htask with hmem | rfl
  · exact ⟨work, mem_queuedWork.mpr ⟨task, hmem, hqueued, hsome⟩, hrequest⟩
  · obtain ⟨work', hwork', hmore⟩ := hcovers task work hp hsome
    refine ⟨work', mem_queuedWork.mpr ⟨f task, hmerged, ?_, hwork'⟩, hmore request hrequest⟩
    rw [hstatus, hqueued]

/-- A task that is not queued is rewritten in place. -/
theorem queuedWork_updateFirst? {p : DevqlTaskRecord → Bool}
    {f : DevqlTaskRecord → DevqlTaskRecord} {found : List DevqlTaskRecord × DevqlTaskRecord}
    (h : updateFirst? p f tasks = some found) (hstatus : ∀ task, (f task).status = task.status)
    (hfind : ∀ task, tasks.find? p = some task → task.status ≠ .queued) :
    queuedWork found.1 = queuedWork tasks := by
  obtain ⟨front, first, back, rfl, hfirst, hfound, -⟩ := updateFirst?_eq_some h
  have hnot := hfind first hfirst
  rw [hfound]
  simp [queuedWork, hstatus, hnot]

end QueuedWork

/-! ## Merging -/

section Merging

variable {request : SyncRequestSpec} {task merged : DevqlTaskRecord}
  {tasks tasks' : List DevqlTaskRecord} {now : ℕ} {paths : List String}

theorem isLive_iff {status : DevqlTaskStatus} :
    status.isLive = true ↔ status = .queued ∨ status = .running := by
  cases status <;> simp [DevqlTaskStatus.isLive]

theorem matchesSyncTask_iff {accepts : SyncTaskSpec → Bool}
    (h : matchesSyncTask request accepts task = true) :
    task.repoId = request.repoId ∧ task.status.isLive = true ∧
      ∃ existing, task.spec = .sync existing ∧ accepts existing = true := by
  unfold matchesSyncTask at h
  cases hspec : task.spec with
  | sync existing =>
    simp only [hspec, DevqlTaskSpec.syncSpec?, Bool.and_eq_true, decide_eq_true_eq] at h
    exact ⟨h.1.1.1.1, h.1.1.2, existing, rfl, h.2.2⟩
  | ingest _ => simp [hspec, DevqlTaskSpec.syncSpec?] at h
  | embeddingsBootstrap _ => simp [hspec, DevqlTaskSpec.syncSpec?] at h
  | summaryBootstrap _ => simp [hspec, DevqlTaskSpec.syncSpec?] at h

theorem absorbRequest_status : (absorbRequest request now task).status = task.status := by
  unfold absorbRequest
  split <;> rfl

theorem absorbRequest_taskId : (absorbRequest request now task).taskId = task.taskId := by
  unfold absorbRequest
  split <;> rfl

theorem addPaths_status : (addPaths request paths now task).status = task.status := by
  unfold addPaths
  split <;> rfl

theorem addPaths_taskId : (addPaths request paths now task).taskId = task.taskId := by
  unfold addPaths
  split <;> rfl

variable (now) in
/-- A task that absorbs a request covers it, and what it covered before. -/
theorem syncWork_absorbRequest (h : absorbsRequest request task = true)
    (hmode : request.spec.mode ≠ .validate) :
    ∃ old new, task.syncWork? = some old ∧ (absorbRequest request now task).syncWork? = some new ∧
      new.Covers request.work ∧
      ∀ other, old.Covers other → new.Covers other := by
  obtain ⟨hrepo, -, existing, hspec, habsorbs⟩ :=
    matchesSyncTask_iff (Bool.and_eq_true_iff.mp h).2
  obtain ⟨hincoming, hexisting⟩ := covers_mergeSyncModes habsorbs hmode
  refine ⟨⟨task.repoId, existing.mode⟩,
    ⟨task.repoId, mergeSyncModes existing.mode request.spec.mode⟩, ?_, ?_, ?_, ?_⟩
  · exact syncWork?_eq_some_iff.mpr ⟨existing, hspec, rfl⟩
  · refine syncWork?_eq_some_iff.mpr ⟨_, by simp only [absorbRequest, hspec]; rfl, ?_⟩
    simp only [absorbRequest, hspec]
  · exact SyncWork.covers_iff.mpr ⟨hrepo, hincoming⟩
  · intro other hother
    obtain ⟨hother_repo, hother_mode⟩ := SyncWork.covers_iff.mp hother
    exact SyncWork.covers_iff.mpr ⟨hother_repo, hexisting _ hother_mode⟩

variable (now paths) in
/-- A queued path task covers the paths that are added to it, and those it had before. -/
theorem syncWork_addPaths (h : takesPaths request task = true) :
    task.status = .queued ∧
      ∃ old new, task.syncWork? = some old ∧
        (addPaths request paths now task).syncWork? = some new ∧
        new.Covers ⟨request.repoId, .paths paths⟩ ∧
        ∀ other, old.Covers other → new.Covers other := by
  simp only [takesPaths, Bool.and_eq_true, decide_eq_true_eq] at h
  obtain ⟨hrepo, -, existing, hspec, hpaths⟩ := matchesSyncTask_iff h.2
  obtain ⟨mode, snapshot⟩ := existing
  cases mode with
  | paths existing =>
    have hold : (SyncTaskMode.paths (extendPaths existing paths)).Covers (.paths existing) := by
      intro path hpath
      simp [extendPaths, hpath]
    have hnew : (SyncTaskMode.paths (extendPaths existing paths)).Covers (.paths paths) := by
      intro path hpath
      simp [extendPaths, hpath]
    refine ⟨h.1, ⟨task.repoId, .paths existing⟩,
      ⟨task.repoId, .paths (extendPaths existing paths)⟩, ?_, ?_, ?_, ?_⟩
    · exact syncWork?_eq_some_iff.mpr ⟨_, hspec, rfl⟩
    · refine syncWork?_eq_some_iff.mpr ⟨_, by simp only [addPaths, hspec]; rfl, ?_⟩
      simp only [addPaths, hspec]
    · exact SyncWork.covers_iff.mpr ⟨hrepo, hnew⟩
    · intro other hother
      obtain ⟨hother_repo, hother_mode⟩ := SyncWork.covers_iff.mp hother
      exact SyncWork.covers_iff.mpr ⟨hother_repo, hold.trans hother_mode⟩
  | auto => simp [SyncTaskMode.isPaths] at hpaths
  | full => simp [SyncTaskMode.isPaths] at hpaths
  | repair => simp [SyncTaskMode.isPaths] at hpaths
  | validate => simp [SyncTaskMode.isPaths] at hpaths

variable (now) in
/-- A running task absorbs the request: no queued task changes. -/
theorem mergeSyncTask_of_running (hmode : request.spec.mode ≠ .validate)
    (hfind : tasks.find? (absorbsRequest request) = some task) (hrunning : task.status = .running) :
    ∃ found, mergeSyncTask request now tasks = some found ∧
      queuedWork found.1 = queuedWork tasks := by
  cases hupdate : updateFirst? (absorbsRequest request) (absorbRequest request now) tasks with
  | none =>
    rw [updateFirst?_eq_none.mp hupdate] at hfind
    cases hfind
  | some found =>
    obtain ⟨first, -, hfirst, -⟩ := mem_of_updateFirst? hupdate
    obtain rfl := Option.some.inj (hfirst.symm.trans hfind)
    refine ⟨found, by simp only [mergeSyncTask, if_pos hmode, hupdate], ?_⟩
    refine queuedWork_updateFirst? hupdate (fun _ => absorbRequest_status) fun other hother => ?_
    obtain rfl := Option.some.inj (hother.symm.trans hfind)
    simp [hrunning]

/-- Otherwise a merge leaves a queued task that covers the request. -/
theorem mergeSyncTask_of_queued (h : mergeSyncTask request now tasks = some (tasks', merged))
    (hmode : request.spec.mode ≠ .validate)
    (hfind : ∀ task, tasks.find? (absorbsRequest request) = some task → task.status ≠ .running) :
    ∃ work ∈ queuedWork tasks', work.Covers request.work := by
  simp only [mergeSyncTask, if_pos hmode] at h
  cases hupdate : updateFirst? (absorbsRequest request) (absorbRequest request now) tasks with
  | some found =>
    simp only [hupdate, Option.some.injEq] at h
    subst h
    obtain ⟨task, -, hfirst, habsorbs, rfl, hmem, -⟩ := mem_of_updateFirst? hupdate
    obtain ⟨-, new, -, hnew, hcovers, -⟩ := syncWork_absorbRequest now habsorbs hmode
    have hlive := (matchesSyncTask_iff (Bool.and_eq_true_iff.mp habsorbs).2).2.1
    have hqueued : task.status = .queued :=
      (isLive_iff.mp hlive).resolve_right (hfind task hfirst)
    exact ⟨new, mem_queuedWork.mpr ⟨_, hmem, absorbRequest_status.trans hqueued, hnew⟩, hcovers⟩
  | none =>
    cases hpaths : request.spec.mode with
    | paths paths =>
      simp only [hupdate, hpaths] at h
      obtain ⟨task, -, -, htakes, rfl, hmem, -⟩ := mem_of_updateFirst? h
      obtain ⟨hqueued, -, new, -, hnew, hcovers, -⟩ :=
        syncWork_addPaths now paths htakes
      refine ⟨new, mem_queuedWork.mpr ⟨_, hmem, addPaths_status.trans hqueued, hnew⟩, ?_⟩
      rw [SyncRequestSpec.work, hpaths]
      exact hcovers
    | auto | full | repair | validate => simp [hupdate, hpaths] at h

/-- A merge keeps what the queued work covers. -/
theorem mergeSyncTask_keepsQueued
    (h : mergeSyncTask request now tasks = some (tasks', merged)) : KeepsQueued tasks tasks' := by
  have habsorb : ∀ merged, request.spec.mode ≠ .validate →
      updateFirst? (absorbsRequest request) (absorbRequest request now) tasks =
        some (tasks', merged) → KeepsQueued tasks tasks' := by
    intro merged hmode hupdate
    refine KeepsQueued.of_updateFirst hupdate (fun _ => absorbRequest_status) ?_
    intro task work habsorbs hwork
    obtain ⟨old, new, hold, hnew, -, hkeep⟩ := syncWork_absorbRequest now habsorbs hmode
    obtain rfl := Option.some.inj (hwork.symm.trans hold)
    exact ⟨new, hnew, hkeep⟩
  have hadd : ∀ merged paths,
      updateFirst? (takesPaths request) (addPaths request paths now) tasks =
        some (tasks', merged) → KeepsQueued tasks tasks' := by
    intro merged paths hupdate
    refine KeepsQueued.of_updateFirst hupdate (fun _ => addPaths_status) ?_
    intro task work htakes hwork
    obtain ⟨-, old, new, hold, hnew, -, hkeep⟩ :=
      syncWork_addPaths now paths htakes
    obtain rfl := Option.some.inj (hwork.symm.trans hold)
    exact ⟨new, hnew, hkeep⟩
  simp only [mergeSyncTask] at h
  split at h
  · rename_i found _ habsorbed
    split_ifs at habsorbed with hmode
    exact habsorb merged hmode (habsorbed.trans h)
  · exact hadd merged _ h
  · cases h

end Merging

/-! ## One step -/

/-- What the bookkeeping of the executions looks at. -/
def rowKey (task : DevqlTaskRecord) : String × DevqlTaskStatus := (task.taskId, task.status)

/-- The tasks have different identifiers, the task of an execution does not wait in the queue,
and requests were accepted in the past. -/
structure Tracked (w : World) : Prop where
  distinct : (w.tasks.map DevqlTaskRecord.taskId).Nodup
  notQueued : ∀ copy ∈ w.inFlight, (copy.taskId, .queued) ∉ w.tasks.map rowKey
  accepted : ∀ accepted ∈ w.requests, accepted.startedBefore ≤ w.executions.length

theorem tracked_empty : Tracked World.empty where
  distinct := List.nodup_nil
  notQueued := by simp [World.empty]
  accepted := by simp [World.empty]

section Rows

variable {tasks tasks' : List DevqlTaskRecord} {now : ℕ}

theorem map_taskId_of_map_rowKey (h : tasks'.map rowKey = tasks.map rowKey) :
    tasks'.map DevqlTaskRecord.taskId = tasks.map DevqlTaskRecord.taskId := by
  have hfst := congrArg (List.map Prod.fst) h
  rwa [List.map_map, List.map_map] at hfst

theorem mem_map_rowKey {taskId : String} {status : DevqlTaskStatus} :
    (taskId, status) ∈ tasks.map rowKey ↔
      ∃ task ∈ tasks, task.taskId = taskId ∧ task.status = status := by
  simp [rowKey]

/-- Merging rewrites a task, and keeps its identifier and its status. -/
theorem mergeExistingTask_rowKey {repoId : String} {source : DevqlTaskSource}
    {kind : DevqlTaskKind} {spec : DevqlTaskSpec} {initSessionId : Option String}
    {merged : DevqlTaskRecord}
    (h : mergeExistingTask repoId source kind spec initSessionId now tasks =
      some (tasks', merged)) : tasks'.map rowKey = tasks.map rowKey := by
  have habsorb : ∀ request task, rowKey (absorbRequest request now task) = rowKey task :=
    fun _ _ => Prod.ext absorbRequest_taskId absorbRequest_status
  have hadd : ∀ request paths task, rowKey (addPaths request paths now task) = rowKey task :=
    fun _ _ _ => Prod.ext addPaths_taskId addPaths_status
  unfold mergeExistingTask at h
  split at h
  · cases h
  · cases h
  · refine map_key_updateFirst? ?_ h
    exact fun _ => rfl
  · simp only [mergeSyncTask] at h
    split at h
    · rename_i absorbed
      split_ifs at absorbed
      exact map_key_updateFirst? (habsorb _) (absorbed.trans h)
    · exact map_key_updateFirst? (hadd _ _) h
    · cases h
  · cases h

theorem mergeExistingTask_keepsQueued {repoId : String} {source : DevqlTaskSource}
    {kind : DevqlTaskKind} {spec : DevqlTaskSpec} {initSessionId : Option String}
    {merged : DevqlTaskRecord}
    (h : mergeExistingTask repoId source kind spec initSessionId now tasks =
      some (tasks', merged)) : KeepsQueued tasks tasks' := by
  unfold mergeExistingTask at h
  split at h
  · cases h
  · cases h
  · exact KeepsQueued.of_updateFirst h (fun _ => rfl) fun _ work _ hwork =>
      ⟨work, hwork, fun _ => id⟩
  · exact mergeSyncTask_keepsQueued h
  · cases h

/-- The tasks after an update of the task with the identifier. -/
theorem mem_updateTask {taskId : String} {f : DevqlTaskRecord → DevqlTaskRecord} :
    (∀ task ∈ updateTask taskId f tasks,
      task ∈ tasks ∨ ∃ old ∈ tasks, old.taskId = taskId ∧ task = f old) ∧
    ∀ task ∈ tasks, task ∈ updateTask taskId f tasks ∨ task.taskId = taskId := by
  unfold updateTask
  cases hupdate : updateFirst? (fun task => decide (task.taskId = taskId)) f tasks with
  | none => exact ⟨fun _ => .inl, fun _ => .inl⟩
  | some updated =>
    obtain ⟨old, hold, -, htaskId, hnew, -, hfrom, hto⟩ := mem_of_updateFirst? hupdate
    have htaskId := of_decide_eq_true htaskId
    constructor
    · intro task htask
      rcases hfrom task htask with hmem | rfl
      · exact .inl hmem
      · exact .inr ⟨old, hold, htaskId, hnew⟩
    · intro task htask
      rcases hto task htask with hmem | rfl
      · exact .inl hmem
      · exact .inr htaskId

theorem map_taskId_updateTask {taskId : String} {f : DevqlTaskRecord → DevqlTaskRecord}
    (hf : ∀ task, (f task).taskId = task.taskId) :
    (updateTask taskId f tasks).map DevqlTaskRecord.taskId =
      tasks.map DevqlTaskRecord.taskId := by
  unfold updateTask
  cases hupdate : updateFirst? (fun task => decide (task.taskId = taskId)) f tasks with
  | none => rfl
  | some updated => exact map_key_updateFirst? hf hupdate

/-- Updating a task that is not queued. -/
theorem keepsQueued_updateTask {taskId : String} {f : DevqlTaskRecord → DevqlTaskRecord}
    (h : (taskId, .queued) ∉ tasks.map rowKey) :
    KeepsQueued tasks (updateTask taskId f tasks) := by
  refine KeepsQueued.of_mem fun task htask hqueued => ?_
  refine (mem_updateTask.2 task htask).resolve_right fun htaskId => h ?_
  exact mem_map_rowKey.mpr ⟨task, htask, htaskId, hqueued⟩

theorem finishedTask_taskId {result : Except String Unit} {task : DevqlTaskRecord} :
    (finishedTask result now task).taskId = task.taskId := by
  cases result with
  | ok => rfl
  | error error =>
    unfold finishedTask
    split
    · rfl
    · split <;> rfl

theorem keepsQueued_recoverTask : KeepsQueued tasks (tasks.map (recoverTask now)) := by
  refine KeepsQueued.of_mem fun task htask hqueued => List.mem_map.mpr ⟨task, htask, ?_⟩
  simp [recoverTask, hqueued]

theorem mem_set_or_getElem? {α : Type*} {xs : List α} {x y : α} {index : ℕ} (h : x ∈ xs) :
    x ∈ xs.set index y ∨ xs[index]? = some x := by
  obtain ⟨i, hi⟩ := List.mem_iff_getElem?.mp h
  by_cases heq : index = i
  · exact .inr (heq ▸ hi)
  · exact .inl (List.mem_iff_getElem?.mpr ⟨i, by rw [List.getElem?_set_ne heq, hi]⟩)

variable (tasks now) in
/-- What the start of tasks does: every task stays or is started, the tasks keep their
identifiers, and only running tasks are new. -/
theorem startTasks_spec (indexes : List ℕ) :
    (∀ task ∈ tasks, task ∈ (startTasks now indexes tasks).1 ∨
      startTask now task ∈ (startTasks now indexes tasks).2) ∧
    (startTasks now indexes tasks).1.map DevqlTaskRecord.taskId =
      tasks.map DevqlTaskRecord.taskId ∧
    (∀ task ∈ (startTasks now indexes tasks).1, task ∈ tasks ∨ task.status = .running) ∧
    ∀ copy ∈ (startTasks now indexes tasks).2,
      (copy.taskId, .running) ∈ (startTasks now indexes tasks).1.map rowKey := by
  induction indexes generalizing tasks with
  | nil => exact ⟨fun _ => .inl, rfl, fun _ => .inl, by simp [startTasks]⟩
  | cons index rest ih =>
    cases hindex : tasks[index]? with
    | none =>
      rw [startTasks, hindex]
      exact ih tasks
    | some task =>
      obtain ⟨hkept, hids, hnew, hrunning⟩ := ih (tasks.set index (startTask now task))
      have hset : (tasks.set index (startTask now task)).map DevqlTaskRecord.taskId =
          tasks.map DevqlTaskRecord.taskId := by
        obtain ⟨hlt, rfl⟩ := List.getElem?_eq_some_iff.mp hindex
        refine List.ext_getElem (by simp) fun i _ _ => ?_
        by_cases hi : index = i
        · subst hi
          simp [startTask]
        · simp [List.getElem_set_ne hi]
      have hstarted : startTask now task ∈ tasks.set index (startTask now task) := by
        obtain ⟨hlt, -⟩ := List.getElem?_eq_some_iff.mp hindex
        exact List.mem_set hlt _
      simp only [startTasks, hindex]
      refine ⟨fun other hother => ?_, hids.trans hset, fun other hother => ?_, ?_⟩
      · rcases mem_set_or_getElem? hother with hmem | heq
        · exact (hkept other hmem).imp_right (List.mem_cons_of_mem _)
        · obtain rfl := Option.some.inj (heq.symm.trans hindex)
          exact .inr List.mem_cons_self
      · rcases hnew other hother with hmem | h
        · rcases List.mem_or_eq_of_mem_set hmem with hmem | rfl
          · exact .inl hmem
          · exact .inr rfl
        · exact .inr h
      · rintro copy (_ | ⟨_, hcopy⟩)
        · rcases hkept _ hstarted with hmem | hagain
          · exact mem_map_rowKey.mpr ⟨_, hmem, rfl, rfl⟩
          · exact hrunning _ hagain
        · exact hrunning copy hcopy

end Rows

section Step

variable {w w' : World} {action : Action} {op : Op}

/-- The request that an action accepts. -/
def acceptedBy (w : World) (action : Action) : List (Accepted SyncWork) :=
  action.syncRequest?.toList.map fun request => ⟨request.work, w.executions.length⟩

theorem mem_acceptedBy {accepted : Accepted SyncWork} :
    accepted ∈ acceptedBy w action ↔
      ∃ request, action.syncRequest? = some request ∧
        accepted = ⟨request.work, w.executions.length⟩ := by
  simp [acceptedBy, eq_comm (a := accepted)]

theorem act_requests (h : act w action = some w') :
    w'.requests = w.requests ++ acceptedBy w action := by
  cases action with
  | enqueue request taskId now =>
    simp only [act] at h
    split_ifs at h
    cases h
    rfl
  | prepareSync taskId rebuilt now =>
    simp only [act, Option.bind_eq_bind, Option.bind_eq_some_iff] at h
    obtain ⟨task, -, spec, -, h⟩ := h
    split_ifs at h <;> cases h <;> simp [acceptedBy, Action.syncRequest?]
  | finishTask taskId result now =>
    simp only [act, Option.bind_eq_bind, Option.bind_eq_some_iff] at h
    obtain ⟨task, -, h⟩ := h
    cases h
    simp [acceptedBy, Action.syncRequest?]
  | schedulePendingTasks | loseExecution | restart | pauseRepo | resumeRepo =>
    cases h
    simp [acceptedBy, Action.syncRequest?]

/-- The queued work is only given up by executions that start. -/
def Advances (w w' : World) : Prop :=
  ∃ batch, w'.executions = w.executions ++ batch ∧
    ∀ work ∈ queuedWork w.tasks, ∀ request, work.Covers request →
      (∃ work' ∈ queuedWork w'.tasks, work'.Covers request) ∨
        ∃ execution ∈ batch, execution.Covers request

theorem Advances.of_keepsQueued (hexecutions : w'.executions = w.executions)
    (h : KeepsQueued w.tasks w'.tasks) : Advances w w' :=
  ⟨[], by rw [hexecutions, List.append_nil], fun work hwork request hcovers =>
    .inl (h work hwork request hcovers)⟩

theorem enqueueTask_keepsQueued {request : EnqueueRequest} {taskId : String} {now : ℕ}
    {tasks : List DevqlTaskRecord} :
    KeepsQueued tasks (enqueueTask request taskId now tasks).1 := by
  unfold enqueueTask
  split
  · rename_i hmerge
    exact mergeExistingTask_keepsQueued hmerge
  · exact KeepsQueued.of_mem fun task htask _ => List.mem_append_left _ htask

theorem schedule_advances {indexes : List ℕ} {now : ℕ} {tasks : List DevqlTaskRecord}
    {work request : SyncWork} (hwork : work ∈ queuedWork tasks) (hcovers : work.Covers request) :
    (∃ work' ∈ queuedWork (startTasks now indexes tasks).1, work'.Covers request) ∨
      ∃ execution ∈ (startTasks now indexes tasks).2.filterMap DevqlTaskRecord.syncWork?,
        execution.Covers request := by
  obtain ⟨task, htask, hqueued, hsome⟩ := mem_queuedWork.mp hwork
  rcases (startTasks_spec _ _ indexes).1 task htask with hmem | hstarted
  · exact .inl ⟨work, mem_queuedWork.mpr ⟨task, hmem, hqueued, hsome⟩, hcovers⟩
  · exact .inr ⟨work, List.mem_filterMap.mpr ⟨_, hstarted, hsome⟩, hcovers⟩

theorem Tracked.notQueued_of_find? (hw : Tracked w) {taskId : String} {copy : DevqlTaskRecord}
    (h : w.inFlight.find? (fun task => task.taskId = taskId) = some copy) :
    copy.taskId = taskId ∧ (taskId, .queued) ∉ w.tasks.map rowKey := by
  have hid : copy.taskId = taskId := by simpa using List.find?_some h
  exact ⟨hid, hid ▸ hw.notQueued copy (List.mem_of_find?_eq_some h)⟩

theorem act_advances (hw : Tracked w) (h : act w action = some w') : Advances w w' := by
  cases action with
  | enqueue request taskId now =>
    simp only [act] at h
    split_ifs at h
    cases h
    exact Advances.of_keepsQueued rfl enqueueTask_keepsQueued
  | schedulePendingTasks blockedRepoIds now =>
    cases h
    exact ⟨_, rfl, fun work hwork request hcovers => schedule_advances hwork hcovers⟩
  | prepareSync taskId rebuilt now =>
    simp only [act, Option.bind_eq_bind, Option.bind_eq_some_iff] at h
    obtain ⟨copy, hcopy, spec, -, h⟩ := h
    split_ifs at h
    · cases h
      exact Advances.of_keepsQueued rfl (KeepsQueued.of_mem fun _ htask _ => htask)
    · cases h
      exact Advances.of_keepsQueued rfl (keepsQueued_updateTask (hw.notQueued_of_find? hcopy).2)
  | finishTask taskId result now =>
    simp only [act, Option.bind_eq_bind, Option.bind_eq_some_iff] at h
    obtain ⟨copy, hcopy, h⟩ := h
    obtain ⟨rfl, hnot⟩ := hw.notQueued_of_find? hcopy
    cases h
    exact Advances.of_keepsQueued rfl (keepsQueued_updateTask hnot)
  | restart now =>
    cases h
    exact Advances.of_keepsQueued rfl keepsQueued_recoverTask
  | loseExecution | pauseRepo | resumeRepo =>
    cases h
    exact Advances.of_keepsQueued rfl (KeepsQueued.of_mem fun _ htask _ => htask)

theorem Tracked.enqueue {taskId : String} (hw : Tracked w) (request : EnqueueRequest) (now : ℕ)
    (htasks : taskId ∉ w.tasks.map DevqlTaskRecord.taskId)
    (hcopies : taskId ∉ w.inFlight.map DevqlTaskRecord.taskId) :
    ((enqueueTask request taskId now w.tasks).1.map DevqlTaskRecord.taskId).Nodup ∧
      ∀ copy ∈ w.inFlight,
        (copy.taskId, .queued) ∉ (enqueueTask request taskId now w.tasks).1.map rowKey := by
  unfold enqueueTask
  split
  · rename_i hmerge
    have hkeys := mergeExistingTask_rowKey hmerge
    refine ⟨?_, fun copy hcopy => ?_⟩
    · rw [map_taskId_of_map_rowKey hkeys]
      exact hw.distinct
    · rw [hkeys]
      exact hw.notQueued copy hcopy
  · refine ⟨?_, fun copy hcopy hmem => ?_⟩
    · rw [List.map_append]
      refine List.nodup_append.mpr ⟨hw.distinct, List.nodup_singleton _, ?_⟩
      rintro id hid _ (_ | ⟨_, ⟨⟩⟩) rfl
      exact htasks hid
    · rw [List.map_append] at hmem
      rcases List.mem_append.mp hmem with hmem | hmem
      · exact hw.notQueued copy hcopy hmem
      · have hid : copy.taskId = taskId := congrArg Prod.fst (List.mem_singleton.mp hmem)
        exact hcopies (hid ▸ List.mem_map_of_mem hcopy)

/-- The tasks that start are running, and no other task has their identifiers. -/
theorem Tracked.schedule (hw : Tracked w) (indexes : List ℕ) (now : ℕ) :
    ∀ copy ∈ w.inFlight ++ (startTasks now indexes w.tasks).2,
      (copy.taskId, .queued) ∉ (startTasks now indexes w.tasks).1.map rowKey := by
  obtain ⟨-, hids, hnew, hrunning⟩ := startTasks_spec w.tasks now indexes
  intro copy hcopy hmem
  obtain ⟨task, htask, hid, hqueued⟩ := mem_map_rowKey.mp hmem
  rcases List.mem_append.mp hcopy with hcopy | hcopy
  · rcases hnew task htask with hold | hrun
    · exact hw.notQueued copy hcopy (mem_map_rowKey.mpr ⟨task, hold, hid, hqueued⟩)
    · rw [hrun] at hqueued
      cases hqueued
  · obtain ⟨other, hother, hotherId, hrun⟩ := mem_map_rowKey.mp (hrunning copy hcopy)
    have hnodup : ((startTasks now indexes w.tasks).1.map DevqlTaskRecord.taskId).Nodup :=
      hids ▸ hw.distinct
    obtain rfl := List.inj_on_of_nodup_map hnodup htask hother (hid.trans hotherId.symm)
    rw [hrun] at hqueued
    cases hqueued

theorem act_tracked (hw : Tracked w) (h : act w action = some w') : Tracked w' := by
  have haccepted : ∀ accepted ∈ w'.requests, accepted.startedBefore ≤ w'.executions.length := by
    obtain ⟨batch, hexecutions, -⟩ := act_advances hw h
    rw [act_requests h, hexecutions, List.length_append]
    intro accepted haccepted
    rcases List.mem_append.mp haccepted with hold | hnew
    · exact (hw.accepted accepted hold).trans (Nat.le_add_right _ _)
    · obtain ⟨request, -, rfl⟩ := mem_acceptedBy.mp hnew
      exact Nat.le_add_right _ _
  cases action with
  | enqueue request taskId now =>
    simp only [act] at h
    split_ifs at h with hfresh
    obtain ⟨htasks, hcopies⟩ := not_or.mp hfresh
    cases h
    obtain ⟨hdistinct, hnotQueued⟩ := hw.enqueue request now htasks hcopies
    exact ⟨hdistinct, hnotQueued, haccepted⟩
  | schedulePendingTasks blockedRepoIds now =>
    cases h
    refine ⟨?_, hw.schedule _ now, haccepted⟩
    show (List.map _ (startTasks _ _ w.tasks).1).Nodup
    rw [(startTasks_spec _ _ _).2.1]
    exact hw.distinct
  | prepareSync taskId rebuilt now =>
    simp only [act, Option.bind_eq_bind, Option.bind_eq_some_iff] at h
    obtain ⟨copy, hcopy, spec, -, h⟩ := h
    split_ifs at h
    · cases h
      exact hw
    · cases h
      refine ⟨?_, fun other hother hmem => ?_, haccepted⟩
      · show (List.map _ (updateTask _ _ w.tasks)).Nodup
        rw [map_taskId_updateTask (f := withSyncMode _ now) fun _ => rfl]
        exact hw.distinct
      · refine hw.notQueued other hother (mem_map_rowKey.mpr ?_)
        obtain ⟨task, htask, hid, hqueued⟩ := mem_map_rowKey.mp hmem
        rcases mem_updateTask.1 task htask with hold | ⟨old, hold, -, rfl⟩
        · exact ⟨task, hold, hid, hqueued⟩
        · exact ⟨old, hold, hid, hqueued⟩
  | finishTask taskId result now =>
    simp only [act, Option.bind_eq_bind, Option.bind_eq_some_iff] at h
    obtain ⟨copy, hcopy, h⟩ := h
    obtain ⟨rfl, -⟩ := hw.notQueued_of_find? hcopy
    cases h
    refine ⟨?_, fun other hother hmem => ?_, haccepted⟩
    · show (List.map _ (updateTask _ _ w.tasks)).Nodup
      rw [map_taskId_updateTask fun _ => finishedTask_taskId]
      exact hw.distinct
    · obtain ⟨hother, hne⟩ := List.mem_filter.mp hother
      refine hw.notQueued other hother (mem_map_rowKey.mpr ?_)
      obtain ⟨task, htask, hid, hqueued⟩ := mem_map_rowKey.mp hmem
      rcases mem_updateTask.1 task htask with hold | ⟨old, -, hold, rfl⟩
      · exact ⟨task, hold, hid, hqueued⟩
      · exact absurd (hid.symm.trans (finishedTask_taskId.trans hold)) (by simpa using hne)
  | loseExecution taskId =>
    cases h
    exact ⟨hw.distinct, fun other hother => hw.notQueued other (List.mem_filter.mp hother).1,
      haccepted⟩
  | restart now =>
    cases h
    refine ⟨?_, by simp, haccepted⟩
    have hids : (w.tasks.map (recoverTask now)).map DevqlTaskRecord.taskId =
        w.tasks.map DevqlTaskRecord.taskId := by
      rw [List.map_map]
      refine List.map_congr_left fun task _ => ?_
      simp only [Function.comp_apply, recoverTask]
      split_ifs <;> rfl
    exact hids ▸ hw.distinct
  | pauseRepo | resumeRepo =>
    cases h
    exact ⟨hw.distinct, hw.notQueued, haccepted⟩

theorem step_eq_some_iff : step w op = some w' ↔
    ∃ acted, act w op.action = some acted ∧
      w' = { acted with tasks := pruneTerminalTasks op.protectedTaskIds acted.tasks } := by
  simp [step, eq_comm]

theorem step_tracked (hw : Tracked w) (h : step w op = some w') : Tracked w' := by
  obtain ⟨acted, hact, rfl⟩ := step_eq_some_iff.mp h
  have hacted := act_tracked hw hact
  have hsub : List.Sublist (pruneTerminalTasks op.protectedTaskIds acted.tasks) acted.tasks :=
    List.filter_sublist
  exact ⟨hacted.distinct.sublist (hsub.map _),
    fun copy hcopy hmem => hacted.notQueued copy hcopy ((hsub.map _).subset hmem),
    hacted.accepted⟩

/-- A request that was discharged stays discharged. -/
theorem step_discharged (hw : Tracked w) (h : step w op = some w')
    {accepted : Accepted SyncWork} (hmem : accepted ∈ w.requests)
    (hdischarged : Discharged SyncWork.Covers (queuedWork w.tasks) w.executions accepted) :
    Discharged SyncWork.Covers (queuedWork w'.tasks) w'.executions accepted := by
  obtain ⟨acted, hact, rfl⟩ := step_eq_some_iff.mp h
  obtain ⟨batch, hexecutions, hqueued⟩ := act_advances hw hact
  show Discharged _ (queuedWork (pruneTerminalTasks _ _)) acted.executions accepted
  rw [queuedWork_pruneTerminalTasks, hexecutions]
  exact hdischarged.advance (hw.accepted accepted hmem) fun work hwork =>
    hqueued work hwork accepted.request

/-! ## Runs -/

theorem syncRequest?_eq_some {request : EnqueueRequest} {sync : SyncRequestSpec}
    (h : request.syncRequest? = some sync) :
    sync.spec.mode ≠ .validate ∧ request.spec = .sync sync.spec ∧ sync.repoId = request.repoId ∧
      ∀ taskId now tasks, enqueueTask request taskId now tasks =
        match mergeSyncTask sync now tasks with
        | some (tasks, task) => (tasks, task, true)
        | none =>
          (tasks ++ [newTask request taskId now], newTask request taskId now, false) := by
  unfold EnqueueRequest.syncRequest? at h
  split at h
  · rename_i spec hspec
    split_ifs at h with hmode
    cases h
    refine ⟨hmode, hspec, rfl, fun taskId now tasks => ?_⟩
    rw [enqueueTask, hspec]
    rfl
  · cases h

/-- Right after the acceptance, the queued work covers the request exactly when no running task
has absorbed it, or when it was covered already. -/
theorem covers_enqueueTask_iff {request : EnqueueRequest} {sync : SyncRequestSpec}
    {taskId : String} {now : ℕ} {tasks : List DevqlTaskRecord}
    (hsync : request.syncRequest? = some sync) :
    (∃ work ∈ queuedWork (enqueueTask request taskId now tasks).1, work.Covers sync.work) ↔
    ∀ task, tasks.find? (absorbsRequest sync) = some task → task.status = .running →
      ∃ work ∈ queuedWork tasks, work.Covers sync.work := by
  obtain ⟨hmode, hspec, hrepo, henqueue⟩ := syncRequest?_eq_some hsync
  rw [henqueue]
  constructor
  · intro hcovers task hfind hrunning
    obtain ⟨found, hfound, hsame⟩ := mergeSyncTask_of_running now hmode hfind hrunning
    rw [hfound] at hcovers
    exact hsame ▸ hcovers
  · intro hready
    cases hmerge : mergeSyncTask sync now tasks with
    | none =>
      have hnew : (newTask request taskId now).syncWork? = some sync.work :=
        syncWork?_eq_some_iff.mpr ⟨sync.spec, hspec, by rw [SyncRequestSpec.work, hrepo]; rfl⟩
      refine ⟨_, mem_queuedWork.mpr ⟨newTask request taskId now, by simp, rfl, hnew⟩, ?_⟩
      exact SyncWork.covers_iff.mpr ⟨rfl, SyncTaskMode.Covers.refl hmode⟩
    | some found =>
      by_cases hrunning : ∃ task, tasks.find? (absorbsRequest sync) = some task ∧
          task.status = .running
      · obtain ⟨task, hfind, hrun⟩ := hrunning
        obtain ⟨work, hwork, hcovers⟩ := hready task hfind hrun
        exact mergeSyncTask_keepsQueued hmerge work hwork _ hcovers
      · exact mergeSyncTask_of_queued hmerge hmode fun task hfind hrun =>
          hrunning ⟨task, hfind, hrun⟩

/-- The request of an operation is discharged right after it exactly under the condition. -/
theorem accepted_discharged_iff (h : step w op = some w') :
    (∀ accepted ∈ acceptedBy w op.action,
      Discharged SyncWork.Covers (queuedWork w'.tasks) w'.executions accepted) ↔
    AbsorbedInTime w op := by
  obtain ⟨acted, hact, rfl⟩ := step_eq_some_iff.mp h
  show (∀ accepted ∈ _,
    Discharged _ (queuedWork (pruneTerminalTasks _ _)) acted.executions accepted) ↔ _
  rw [queuedWork_pruneTerminalTasks, AbsorbedInTime]
  cases haction : op.action with
  | enqueue request taskId now =>
    rw [haction] at hact
    simp only [act] at hact
    split_ifs at hact
    cases hact
    constructor
    · intro hall sync hsync
      have haccepted := hall _ (mem_acceptedBy.mpr ⟨sync, hsync, rfl⟩)
      exact (covers_enqueueTask_iff hsync).mp (Discharged.iff_pending_of_accepted.mp haccepted)
    · intro hready accepted haccepted
      obtain ⟨sync, hsync, rfl⟩ := mem_acceptedBy.mp haccepted
      exact Discharged.iff_pending_of_accepted.mpr
        ((covers_enqueueTask_iff hsync).mpr (hready sync hsync))
  | schedulePendingTasks | prepareSync | finishTask | loseExecution | restart | pauseRepo
    | resumeRepo => simp [acceptedBy, Action.syncRequest?]

theorem step_requests (h : step w op = some w') :
    w'.requests = w.requests ++ acceptedBy w op.action := by
  obtain ⟨acted, hact, rfl⟩ := step_eq_some_iff.mp h
  show acted.requests = _
  exact act_requests hact

/-- **No accepted sync request is lost, exactly under the condition.** -/
theorem noneLost_iff_absorbedInTime {ops : List Op} (h : Run.exec step World.empty ops = some w) :
    (∀ pre m, pre <+: ops → Run.exec step World.empty pre = some m → NoneLost m) ↔
      Run.Meets step AbsorbedInTime World.empty ops := by
  refine Run.forall_prefix_iff_meets Tracked NoneLost (fun _ _ _ => step_tracked) ?_ ?_
    tracked_empty (by simp [NoneLost, World.empty]) h
  · intro op _ s s' hs hnone hok hstep accepted haccepted
    rw [step_requests hstep] at haccepted
    rcases List.mem_append.mp haccepted with hold | hnew
    · exact step_discharged hs hstep hold (hnone accepted hold)
    · exact (accepted_discharged_iff hstep).mpr hok accepted hnew
  · intro s op s' _ hnot hstep hnone
    refine hnot ((accepted_discharged_iff hstep).mp fun accepted haccepted => ?_)
    exact hnone accepted (step_requests hstep ▸ List.mem_append_right _ haccepted)

end Step

/-- A sync request without a snapshot or a session. -/
def plainSync (source : DevqlTaskSource) (mode : SyncTaskMode) : EnqueueRequest :=
  { repoId := "repo", source, spec := .sync { mode, postCommitSnapshot := none },
    initSessionId := none }

/-- A full sync replaces the queued path sync of the watcher.  While it runs, a repair is queued
on its own, and covers the paths that the running task absorbs. -/
def absorbedOps : List Op :=
  [⟨.enqueue (plainSync .watcher (.paths ["src/a.rs"])) "t1" 10, []⟩,
   ⟨.enqueue (plainSync .watcher (.paths ["src/b.rs"])) "t2" 11, []⟩,
   ⟨.enqueue (plainSync .manualCli .full) "t3" 12, []⟩,
   ⟨.schedulePendingTasks [] 13, []⟩,
   ⟨.enqueue (plainSync .manualCli .repair) "t4" 14, []⟩,
   ⟨.enqueue (plainSync .watcher (.paths ["src/c.rs"])) "t5" 15, []⟩,
   ⟨.finishTask "t1" (.ok ()) 16, []⟩,
   ⟨.schedulePendingTasks [] 17, []⟩]

theorem absorbedOps_noneLost :
    ∃ w, Run.exec step World.empty absorbedOps = some w ∧
      ∀ pre m, pre <+: absorbedOps → Run.exec step World.empty pre = some m → NoneLost m := by
  have hrun : (Run.exec step World.empty absorbedOps).isSome = true := by decide
  obtain ⟨w, hw⟩ := Option.isSome_iff_exists.mp hrun
  exact ⟨w, hw, (noneLost_iff_absorbedInTime hw).mpr (by decide)⟩

/-- The watcher reports a path while a full sync runs. -/
def absorbedLateOps : List Op :=
  [⟨.enqueue (plainSync .manualCli .full) "t1" 10, []⟩,
   ⟨.schedulePendingTasks [] 11, []⟩,
   ⟨.enqueue (plainSync .watcher (.paths ["src/a.rs"])) "t2" 12, []⟩,
   ⟨.finishTask "t1" (.ok ()) 13, []⟩]

/-- The full sync has finished, nothing is queued, and no execution has started since the path
was reported. -/
theorem absorbed_while_running_lost :
    ∃ w, Run.exec step World.empty absorbedLateOps = some w ∧ ¬ NoneLost w ∧
      w.executions.length = 1 ∧ queuedWork w.tasks = [] := by
  have hrun : (Run.exec step World.empty absorbedLateOps).map (fun w =>
      (decide (NoneLost w), w.executions.length, queuedWork w.tasks)) = some (false, 1, []) := by
    decide
  obtain ⟨w, hw, hfacts⟩ := Option.map_eq_some_iff.mp hrun
  simp only [Prod.mk.injEq, decide_eq_false_iff_not] at hfacts
  exact ⟨w, hw, hfacts⟩

end Daemon
end Bitloops
