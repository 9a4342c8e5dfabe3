import Bitloops.Daemon.TaskCoverage
import Bitloops.Foundation.UniqueTable
import Bitloops.InitRuntime.World

/-!
# The queue of an init session

The tasks of a session have different ids and keep their kinds, and a task that has ended stays as
it is.

* `enqueue_cases`: the task that stands for a request is live, and new unless it was merged.
* `mutateTask_cases`: a mutation rewrites one task.
-/

namespace Bitloops
namespace InitRuntime

open Daemon

/-- What the session's record depends on in a task. -/
structure TaskData where
  taskId : String
  kind : DevqlTaskKind
  specKind : DevqlTaskKind
  initSessionId : Option String
  status : DevqlTaskStatus
  deriving DecidableEq, Repr

def taskData (task : DevqlTaskRecord) : TaskData where
  taskId := task.taskId
  kind := task.kind
  specKind := taskKindFromSpec task.spec
  initSessionId := task.initSessionId
  status := task.status

/-- Different ids, none of them empty, and every task is one of the session. -/
structure TasksOk (initSessionId : String) (tasks : List DevqlTaskRecord) : Prop where
  nodup : (tasks.map (·.taskId)).Nodup
  named : ∀ task ∈ tasks, task.taskId ≠ ""
  kind : ∀ task ∈ tasks, taskKindFromSpec task.spec = task.kind
  session : ∀ task ∈ tasks, task.initSessionId = some initSessionId

/-- Every task stays in the queue with its kind, and keeps its status once it has ended. -/
def Evolves (tasks tasks' : List DevqlTaskRecord) : Prop :=
  ∀ task ∈ tasks, ∃ task' ∈ tasks', task'.taskId = task.taskId ∧ task'.kind = task.kind ∧
    (task.status.isLive = false → task'.status = task.status)

section Queue

variable {w w' : World} {spec : DevqlTaskSpec} {taskId : String} {now : ℕ} {task : DevqlTaskRecord}
  {tasks tasks' : List DevqlTaskRecord} {initSessionId : String}

theorem Evolves.refl (tasks : List DevqlTaskRecord) : Evolves tasks tasks :=
  fun task htask => ⟨task, htask, rfl, rfl, fun _ => rfl⟩

theorem Evolves.trans {tasks'' : List DevqlTaskRecord} (h : Evolves tasks tasks')
    (h' : Evolves tasks' tasks'') : Evolves tasks tasks'' := by
  intro task htask
  obtain ⟨task', htask', hid, hkind, hstatus⟩ := h task htask
  obtain ⟨task'', htask'', hid', hkind', hstatus'⟩ := h' task' htask'
  refine ⟨task'', htask'', hid'.trans hid, hkind'.trans hkind, fun hended => ?_⟩
  have hstatus := hstatus hended
  exact (hstatus' (hstatus ▸ hended)).trans hstatus

theorem mem_map_taskData (h : tasks'.map taskData = tasks.map taskData) (htask : task ∈ tasks) :
    ∃ task' ∈ tasks', taskData task' = taskData task :=
  List.mem_map.mp (h ▸ List.mem_map_of_mem htask)

theorem evolves_of_map_taskData (h : tasks'.map taskData = tasks.map taskData) :
    Evolves tasks tasks' := by
  intro task htask
  obtain ⟨task', htask', heq⟩ := mem_map_taskData h htask
  simp only [taskData, TaskData.mk.injEq] at heq
  exact ⟨task', htask', heq.1, heq.2.1, fun _ => heq.2.2.2.2⟩

theorem tasksOk_of_map_taskData (h : tasks'.map taskData = tasks.map taskData)
    (hok : TasksOk initSessionId tasks) : TasksOk initSessionId tasks' := by
  have hids : tasks'.map (·.taskId) = tasks.map (·.taskId) := by
    have hfst := congrArg (List.map TaskData.taskId) h
    rwa [List.map_map, List.map_map] at hfst
  have hback : ∀ task' ∈ tasks', ∃ task ∈ tasks, taskData task = taskData task' :=
    fun task' htask' => mem_map_taskData h.symm htask'
  refine ⟨hids ▸ hok.nodup, ?_, ?_, ?_⟩
  · intro task' htask'
    obtain ⟨task, htask, heq⟩ := hback task' htask'
    simp only [taskData, TaskData.mk.injEq] at heq
    exact heq.1 ▸ hok.named task htask
  · intro task' htask'
    obtain ⟨task, htask, heq⟩ := hback task' htask'
    simp only [taskData, TaskData.mk.injEq] at heq
    rw [← heq.2.2.1, ← heq.2.1]
    exact hok.kind task htask
  · intro task' htask'
    obtain ⟨task, htask, heq⟩ := hback task' htask'
    simp only [taskData, TaskData.mk.injEq] at heq
    rw [← heq.2.2.2.1]
    exact hok.session task htask

/-- Merging keeps what the record depends on, and the merged task was live. -/
theorem mergeExistingTask_taskData {repoId : String} {source : DevqlTaskSource}
    {kind : DevqlTaskKind} {initSessionId : Option String} {merged : DevqlTaskRecord}
    (h : mergeExistingTask repoId source kind spec initSessionId now tasks =
      some (tasks', merged)) :
    tasks'.map taskData = tasks.map taskData ∧ merged ∈ tasks' ∧ merged.status.isLive = true ∧
      merged.kind = kind := by
  have habsorb : ∀ request task, taskData (absorbRequest request now task) = taskData task := by
    intro request task
    unfold absorbRequest
    split
    · rename_i existing hspec
      simp [taskData, taskKindFromSpec, hspec]
    · rfl
  have hadd : ∀ request paths task, taskData (addPaths request paths now task) = taskData task := by
    intro request paths task
    unfold addPaths
    split
    · rename_i existing snapshot hspec
      simp [taskData, taskKindFromSpec, hspec]
    · rfl
  have hmerged {p : DevqlTaskRecord → Bool} {f : DevqlTaskRecord → DevqlTaskRecord}
      (hf : ∀ task, taskData (f task) = taskData task)
      (hp : ∀ task, p task = true → task.status.isLive = true ∧ task.kind = kind)
      (h : updateFirst? p f tasks = some (tasks', merged)) :
      tasks'.map taskData = tasks.map taskData ∧ merged ∈ tasks' ∧
        merged.status.isLive = true ∧ merged.kind = kind := by
    obtain ⟨old, -, -, hold, rfl, hmem, -, -⟩ := mem_of_updateFirst? h
    have hdata := hf old
    simp only [taskData, TaskData.mk.injEq] at hdata
    refine ⟨map_key_updateFirst? hf h, hmem, ?_, ?_⟩
    · rw [hdata.2.2.2.2]
      exact (hp old hold).1
    · rw [hdata.2.1]
      exact (hp old hold).2
  unfold mergeExistingTask at h
  split at h
  · cases h
  · cases h
  · refine hmerged ?_ (fun task hp => ?_) h
    · exact fun _ => rfl
    · simp only [Bool.and_eq_true, decide_eq_true_eq] at hp
      exact ⟨hp.1.1.2, hp.1.1.1.2⟩
  · simp only [mergeSyncTask] at h
    split at h
    · rename_i absorbed
      split_ifs at absorbed
      refine hmerged (habsorb _) (fun task hp => ?_) (absorbed.trans h)
      simp only [absorbsRequest, matchesSyncTask, Bool.and_eq_true, decide_eq_true_eq] at hp
      exact ⟨hp.2.1.1.2, hp.2.1.1.1.2⟩
    · refine hmerged (hadd _ _) (fun task hp => ?_) h
      simp only [takesPaths, matchesSyncTask, Bool.and_eq_true, decide_eq_true_eq] at hp
      exact ⟨hp.2.1.1.2, hp.2.1.1.1.2⟩
    · cases h
  · cases h

/-- The task that stands for a request is live and of its kind, and new unless the queue is what
it was. -/
structure Enqueued (spec : DevqlTaskSpec) (initSessionId : String)
    (tasks tasks' : List DevqlTaskRecord) (task : DevqlTaskRecord) : Prop where
  mem : task ∈ tasks'
  live : task.status.isLive = true
  kind : task.kind = taskKindFromSpec spec
  origin : tasks'.map taskData = tasks.map taskData ∨
    task.taskId ∉ tasks.map (·.taskId) ∧ task.taskId ≠ "" ∧
      task.initSessionId = some initSessionId ∧ taskKindFromSpec task.spec = task.kind ∧
        tasks' = tasks ++ [task]

theorem enqueue_cases (h : enqueue spec taskId now w = some (w', task)) :
    Enqueued spec w.record.initSessionId w.tasks w'.tasks task ∧
      w' = { w with tasks := w'.tasks, handlers := w.handlers ++ [.report task] } := by
  unfold enqueue at h
  split_ifs at h with hid
  rw [Option.some.injEq, Prod.mk.injEq] at h
  obtain ⟨rfl, rfl⟩ := h
  refine ⟨?_, rfl⟩
  have hid := not_or.mp hid
  unfold enqueueTask
  split
  · rename_i tasks' merged hmerge
    obtain ⟨hdata, hmem, hlive, hkind⟩ := mergeExistingTask_taskData hmerge
    exact ⟨hmem, hlive, hkind, .inl hdata⟩
  · exact ⟨List.mem_concat_self, rfl, rfl, .inr ⟨hid.2, hid.1, rfl, rfl, rfl⟩⟩

theorem Enqueued.evolves (h : Enqueued spec initSessionId tasks tasks' task) :
    Evolves tasks tasks' := by
  rcases h.origin with hdata | ⟨-, -, -, -, rfl⟩
  · exact evolves_of_map_taskData hdata
  · exact fun old hold => ⟨old, List.mem_append_left _ hold, rfl, rfl, fun _ => rfl⟩

theorem Enqueued.tasksOk (h : Enqueued spec initSessionId tasks tasks' task)
    (hok : TasksOk initSessionId tasks) : TasksOk initSessionId tasks' := by
  rcases h.origin with hdata | ⟨hnew, hname, hsession, hkind, rfl⟩
  · exact tasksOk_of_map_taskData hdata hok
  · have hold {p : DevqlTaskRecord → Prop} (h : ∀ old ∈ tasks, p old) (htask : p task) :
        ∀ old ∈ tasks ++ [task], p old := by
      intro old hmem
      rcases List.mem_append.mp hmem with hmem | hmem
      · exact h old hmem
      · exact List.mem_singleton.mp hmem ▸ htask
    refine ⟨?_, hold hok.named hname, hold hok.kind hkind, hold hok.session hsession⟩
    rw [List.map_append, List.nodup_append]
    refine ⟨hok.nodup, List.nodup_singleton _, ?_⟩
    rintro id hid _ (_ | ⟨_, ⟨⟩⟩) rfl
    exact hnew hid

/-- A mutation that keeps what a task is, of a task that is live. -/
structure Mutated (taskId : String) (f : DevqlTaskRecord → DevqlTaskRecord) (w w' : World)
    (task : DevqlTaskRecord) : Prop where
  mem : task ∈ w.tasks
  id : task.taskId = taskId
  tasks : w'.tasks = updateAt DevqlTaskRecord.taskId taskId f w.tasks
  rest : w' = { w with tasks := w'.tasks, handlers := w.handlers ++ [.report (f task)] }

theorem mutateTask_cases {allowed : DevqlTaskRecord → Bool} {f : DevqlTaskRecord → DevqlTaskRecord}
    (h : mutateTask taskId allowed f w = some w') :
    ∃ task, Mutated taskId f w w' task ∧ allowed task = true := by
  simp only [mutateTask, Option.bind_eq_bind, Option.bind_eq_some_iff] at h
  obtain ⟨task, htask, h⟩ := h
  split_ifs at h with hallowed
  cases h
  exact ⟨task, ⟨(mem_of_findRow htask).1, (mem_of_findRow htask).2, rfl, rfl⟩, hallowed⟩

/-- A rewriting of a task that keeps its id, its kind and its session. -/
def KeepsTask (f : DevqlTaskRecord → DevqlTaskRecord) : Prop :=
  ∀ task, (f task).taskId = task.taskId ∧ (f task).kind = task.kind ∧
    taskKindFromSpec (f task).spec = taskKindFromSpec task.spec ∧
    (f task).initSessionId = task.initSessionId

theorem evolves_updateAt {f : DevqlTaskRecord → DevqlTaskRecord} (hf : KeepsTask f)
    (hlive : ∀ task ∈ tasks, task.taskId = taskId → task.status.isLive = true) :
    Evolves tasks (updateAt DevqlTaskRecord.taskId taskId f tasks) := by
  intro task htask
  refine ⟨if task.taskId = taskId then f task else task, List.mem_map_of_mem htask, ?_⟩
  split_ifs with hid
  · exact ⟨(hf task).1, (hf task).2.1, fun hended => by simp [hlive task htask hid] at hended⟩
  · exact ⟨rfl, rfl, fun _ => rfl⟩

theorem tasksOk_updateAt {f : DevqlTaskRecord → DevqlTaskRecord} (hf : KeepsTask f)
    (hok : TasksOk initSessionId tasks) :
    TasksOk initSessionId (updateAt DevqlTaskRecord.taskId taskId f tasks) := by
  have hids : (updateAt DevqlTaskRecord.taskId taskId f tasks).map (·.taskId) =
      tasks.map (·.taskId) := by
    rw [updateAt, List.map_map]
    refine List.map_congr_left fun task _ => ?_
    simp only [Function.comp_apply]
    split_ifs
    · exact (hf task).1
    · rfl
  refine ⟨hids ▸ hok.nodup, ?_, ?_, ?_⟩
  · intro task' htask'
    obtain ⟨task, htask, rfl⟩ := List.mem_map.mp htask'
    split_ifs
    · exact (hf task).1 ▸ hok.named task htask
    · exact hok.named task htask
  · intro task' htask'
    obtain ⟨task, htask, rfl⟩ := List.mem_map.mp htask'
    split_ifs
    · rw [(hf task).2.2.1, (hf task).2.1]
      exact hok.kind task htask
    · exact hok.kind task htask
  · intro task' htask'
    obtain ⟨task, htask, rfl⟩ := List.mem_map.mp htask'
    split_ifs
    · rw [(hf task).2.2.2]
      exact hok.session task htask
    · exact hok.session task htask

/-- The task with an id is found. -/
theorem loadTaskById_eq_some (hok : TasksOk initSessionId tasks) :
    loadTaskById tasks (some taskId) = some task ↔ task ∈ tasks ∧ task.taskId = taskId :=
  UniqueTable.findRow_eq_some (t := ⟨tasks, hok.nodup⟩)

/-- Tasks with the same id are the same. -/
theorem eq_of_taskId_eq (hok : TasksOk initSessionId tasks) {task' : DevqlTaskRecord}
    (htask : task ∈ tasks) (htask' : task' ∈ tasks) (h : task.taskId = task'.taskId) :
    task = task' :=
  List.inj_on_of_nodup_map hok.nodup htask htask' h

end Queue

end InitRuntime
end Bitloops
