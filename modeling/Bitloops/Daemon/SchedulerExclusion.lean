import Mathlib.Data.List.Pairwise
import Bitloops.Daemon.TaskCoverage

/-!
# Exclusion in the task scheduler

No operation but the scheduler makes a task run: every other one leaves a sublist of the running
tasks.  A scheduling pass may start many tasks at once; `startable` collects what its tests say
about each of them, and `selectForLane` keeps their lanes apart.
-/

namespace Bitloops
namespace Daemon

/-! ## The statement -/

/-- At most one task runs in each lane, and a running policy change is alone in its repository. -/
structure Exclusive (tasks : List DevqlTaskRecord) : Prop where
  lanes : ∀ (i j : ℕ) (a b : DevqlTaskRecord), tasks[i]? = some a → tasks[j]? = some b →
    a.status = .running → b.status = .running → taskLane a = taskLane b → i = j
  policyChanges : ∀ (i j : ℕ) (a b : DevqlTaskRecord), tasks[i]? = some a →
    tasks[j]? = some b → a.status = .running → b.status = .running → a.isRepoPolicyChangeSync = true → a.repoId = b.repoId → i = j

/-- The task runs after the operation, and did not run before it. -/
def Starts (w w' : World) (task : DevqlTaskRecord) : Prop :=
  task ∈ w'.tasks ∧ task.status = .running ∧
    ∀ old ∈ w.tasks, old.taskId = task.taskId → old.status ≠ .running

/-- A scheduling pass started the task; its repository was neither paused nor blocked, and an
ingest task had no live sync in its repository. -/
def StartedFairly (w : World) (op : Op) (task : DevqlTaskRecord) : Prop :=
  ∃ blockedRepoIds now, op.action = .schedulePendingTasks blockedRepoIds now ∧
    task.repoId ∉ w.pausedRepoIds ∧ task.repoId ∉ blockedRepoIds ∧
      (task.kind = .ingest → ∀ other ∈ w.tasks, other.repoId = task.repoId → other.kind = .sync →
        other.status.isLive = false)

/-! ## Slots -/

/-- What the exclusion looks at in a running task. -/
structure Slot where
  taskId : String
  lane : TaskLaneKey
  policyChange : Bool
  deriving DecidableEq, Repr

def slot (task : DevqlTaskRecord) : Slot :=
  ⟨task.taskId, taskLane task, task.isRepoPolicyChangeSync⟩

/-- The slot of a running task. -/
def runningSlot? (task : DevqlTaskRecord) : Option Slot :=
  if task.status = .running then some (slot task) else none

def runningSlots (tasks : List DevqlTaskRecord) : List Slot := tasks.filterMap runningSlot?

/-- Two tasks that may run at the same time. -/
def Slot.Apart (s t : Slot) : Prop :=
  s.lane ≠ t.lane ∧
    (s.lane.repoId = t.lane.repoId → s.policyChange = false ∧ t.policyChange = false)

theorem Slot.Apart.symm {s t : Slot} (h : s.Apart t) : t.Apart s :=
  ⟨h.1.symm, fun heq => (h.2 heq.symm).symm⟩

section Slots

variable {tasks tasks' : List DevqlTaskRecord} {task merged : DevqlTaskRecord} {s : Slot}

theorem runningSlot?_eq_some :
    runningSlot? task = some s ↔ task.status = .running ∧ slot task = s := by
  unfold runningSlot?
  split_ifs with hrunning <;> simp [hrunning]

theorem runningSlot?_eq_none : runningSlot? task = none ↔ task.status ≠ .running := by
  unfold runningSlot?
  split_ifs with hrunning <;> simp [hrunning]

theorem mem_runningSlots :
    s ∈ runningSlots tasks ↔ ∃ task ∈ tasks, task.status = .running ∧ slot task = s := by
  simp [runningSlots, runningSlot?_eq_some]

theorem pairwise_apart_iff : (runningSlots tasks).Pairwise Slot.Apart ↔
    tasks.Pairwise fun a b => a.status = .running → b.status = .running →
      (slot a).Apart (slot b) := by
  rw [runningSlots, List.pairwise_filterMap]
  refine List.pairwise_iff_getElem.trans (Iff.trans ?_ List.pairwise_iff_getElem.symm)
  refine forall₄_congr fun i j hi hj => forall_congr' fun _ => ?_
  constructor
  · intro h ha hb
    exact h _ (runningSlot?_eq_some.mpr ⟨ha, rfl⟩) _ (runningSlot?_eq_some.mpr ⟨hb, rfl⟩)
  · intro h s hs t ht
    obtain ⟨ha, rfl⟩ := runningSlot?_eq_some.mp hs
    obtain ⟨hb, rfl⟩ := runningSlot?_eq_some.mp ht
    exact h ha hb

/-- Running tasks that are pairwise apart exclude each other. -/
theorem exclusive_of_apart (h : (runningSlots tasks).Pairwise Slot.Apart) : Exclusive tasks := by
  have hpairs := List.pairwise_iff_getElem.mp (pairwise_apart_iff.mp h)
  have happart : ∀ (i j : ℕ) (a b : DevqlTaskRecord), tasks[i]? = some a → tasks[j]? = some b →
      a.status = .running → b.status = .running → i ≠ j → (slot a).Apart (slot b) := by
    intro i j a b hi hj ha hb hne
    obtain ⟨hilt, rfl⟩ := List.getElem?_eq_some_iff.mp hi
    obtain ⟨hjlt, rfl⟩ := List.getElem?_eq_some_iff.mp hj
    rcases Nat.lt_or_gt_of_ne hne with hlt | hlt
    · exact hpairs i j hilt hjlt hlt ha hb
    · exact (hpairs j i hjlt hilt hlt hb ha).symm
  constructor
  · intro i j a b hi hj ha hb hlane
    by_cases hne : i = j
    · exact hne
    · exact absurd hlane (happart i j a b hi hj ha hb hne).1
  · intro i j a b hi hj ha hb hpolicy hrepo
    by_cases hne : i = j
    · exact hne
    · obtain ⟨hfree, -⟩ := (happart i j a b hi hj ha hb hne).2 hrepo
      rw [show (slot a).policyChange = true from hpolicy] at hfree
      cases hfree

/-- Rewriting a task without starting it or moving a running one. -/
theorem runningSlots_updateFirst? {p : DevqlTaskRecord → Bool}
    {f : DevqlTaskRecord → DevqlTaskRecord}
    (h : updateFirst? p f tasks = some (tasks', merged))
    (hf : ∀ task, p task = true → (f task).status = .running →
      task.status = .running ∧ slot (f task) = slot task) :
    (runningSlots tasks').Sublist (runningSlots tasks) := by
  obtain ⟨front, r, back, rfl, hfind, rfl, -⟩ := updateFirst?_eq_some h
  have hp : p r = true := List.find?_some hfind
  rw [runningSlots, runningSlots, List.filterMap_append, List.filterMap_append]
  refine (List.Sublist.refl _).append ?_
  rw [List.filterMap_cons, List.filterMap_cons]
  cases hrunning : runningSlot? (f r) with
  | none =>
    cases runningSlot? r with
    | none => exact List.Sublist.refl _
    | some s => exact List.sublist_cons_self _ _
  | some s =>
    obtain ⟨hstatus, rfl⟩ := runningSlot?_eq_some.mp hrunning
    obtain ⟨hold, hslot⟩ := hf r hp hstatus
    rw [runningSlot?_eq_some.mpr ⟨hold, rfl⟩, hslot]

theorem runningSlots_updateTask {taskId : String} {f : DevqlTaskRecord → DevqlTaskRecord}
    (hf : ∀ task : DevqlTaskRecord, (f task).status = .running →
      task.status = .running ∧ slot (f task) = slot task) :
    (runningSlots (updateTask taskId f tasks)).Sublist (runningSlots tasks) := by
  unfold updateTask
  cases hupdate : updateFirst? (fun task => decide (task.taskId = taskId)) f tasks with
  | none => exact List.Sublist.refl _
  | some updated => exact runningSlots_updateFirst? hupdate fun task _ => hf task

end Slots

/-! ## Operations that start nothing -/

section Merge

variable {request : SyncRequestSpec} {now : ℕ} {tasks tasks' : List DevqlTaskRecord}
  {task merged : DevqlTaskRecord}

theorem isRepoPolicyChangeSync_iff :
    task.isRepoPolicyChangeSync = true ↔ task.kind = .sync ∧ task.source = .repoPolicyChange := by
  simp [DevqlTaskRecord.isRepoPolicyChangeSync]

/-- A running task that absorbs a request keeps its slot: a policy change is absorbed by queued
tasks only. -/
theorem slot_absorbRequest (h : absorbsRequest request task = true)
    (hrunning : task.status = .running) : slot (absorbRequest request now task) = slot task := by
  have hsource : request.source ≠ .repoPolicyChange := by
    intro hpolicy
    rw [absorbsRequest, hpolicy, hrunning] at h
    exact absurd h (by simp)
  unfold absorbRequest
  split
  · by_cases hold : task.source = .repoPolicyChange
    · simp [slot, taskLane, DevqlTaskRecord.isRepoPolicyChangeSync, hsource, hold]
    · have hnew : ∀ (useIncoming : Prop) [Decidable useIncoming],
          (if useIncoming then request.source else task.source) ≠ .repoPolicyChange := by
        intro useIncoming _
        split_ifs
        · exact hsource
        · exact hold
      simp only [slot, taskLane, DevqlTaskRecord.isRepoPolicyChangeSync, hnew, hold, decide_false,
        Bool.and_false]
  · rfl

theorem slot_addPaths {paths : List String} : slot (addPaths request paths now task) = slot task := by
  unfold addPaths
  split <;> rfl

theorem runningSlots_mergeExistingTask {repoId : String} {source : DevqlTaskSource}
    {kind : DevqlTaskKind} {spec : DevqlTaskSpec} {initSessionId : Option String}
    (h : mergeExistingTask repoId source kind spec initSessionId now tasks =
      some (tasks', merged)) : (runningSlots tasks').Sublist (runningSlots tasks) := by
  unfold mergeExistingTask at h
  split at h
  · cases h
  · cases h
  · exact runningSlots_updateFirst? h fun task _ hrunning => ⟨hrunning, rfl⟩
  · simp only [mergeSyncTask] at h
    split at h
    · rename_i absorbed
      split_ifs at absorbed
      refine runningSlots_updateFirst? (absorbed.trans h) fun task hp hrunning => ?_
      rw [absorbRequest_status] at hrunning
      exact ⟨hrunning, slot_absorbRequest hp hrunning⟩
    · refine runningSlots_updateFirst? h fun task _ hrunning => ?_
      rw [addPaths_status] at hrunning
      exact ⟨hrunning, slot_addPaths⟩
    · cases h
  · cases h

theorem finishedTask_status_ne_running {result : Except String Unit} :
    (finishedTask result now task).status ≠ .running := by
  unfold finishedTask
  split
  · exact fun h => (nomatch h)
  · split_ifs
    · exact fun h => (nomatch h)
    · exact fun h => (nomatch h)

theorem recoverTask_status_ne_running : (recoverTask now task).status ≠ .running := by
  unfold recoverTask
  split_ifs with hrunning
  · exact fun h => (nomatch h)
  · exact hrunning

/-- **Only the scheduler starts tasks.** -/
theorem act_runningSlots {w w' : World} {action : Action} (h : act w action = some w')
    (haction : ∀ blockedRepoIds now, action ≠ .schedulePendingTasks blockedRepoIds now) :
    (runningSlots w'.tasks).Sublist (runningSlots w.tasks) := by
  cases action with
  | enqueue request taskId now =>
    simp only [act] at h
    split_ifs at h
    cases h
    show (runningSlots (enqueueTask request taskId now w.tasks).1).Sublist _
    unfold enqueueTask
    split
    · rename_i hmerge
      exact runningSlots_mergeExistingTask hmerge
    · have hqueued : runningSlot? (newTask request taskId now) = none :=
        runningSlot?_eq_none.mpr fun h => (by cases h)
      rw [runningSlots, List.filterMap_append, List.filterMap_cons, hqueued, List.filterMap_nil,
        List.append_nil]
      exact List.Sublist.refl _
  | schedulePendingTasks blockedRepoIds now => exact absurd rfl (haction blockedRepoIds now)
  | prepareSync taskId rebuilt now =>
    simp only [act, Option.bind_eq_bind, Option.bind_eq_some_iff] at h
    obtain ⟨copy, -, spec, -, h⟩ := h
    split_ifs at h
    · cases h
      exact List.Sublist.refl _
    · cases h
      exact runningSlots_updateTask fun task hrunning => ⟨hrunning, rfl⟩
  | finishTask taskId result now =>
    simp only [act, Option.bind_eq_bind, Option.bind_eq_some_iff] at h
    obtain ⟨copy, -, h⟩ := h
    cases h
    exact runningSlots_updateTask fun task hrunning =>
      absurd hrunning finishedTask_status_ne_running
  | restart now =>
    cases h
    have hnone : runningSlots (w.tasks.map (recoverTask now)) = [] := by
      rw [runningSlots, List.filterMap_map, List.filterMap_eq_nil_iff]
      exact fun task _ => runningSlot?_eq_none.mpr recoverTask_status_ne_running
    show (runningSlots (w.tasks.map (recoverTask now))).Sublist _
    rw [hnone]
    exact List.nil_sublist _
  | loseExecution | pauseRepo | resumeRepo =>
    cases h
    exact List.Sublist.refl _

end Merge

/-! ## A scheduling pass -/

section Schedule

variable {tasks : List DevqlTaskRecord} {pausedRepoIds blockedRepoIds : List String}
  {task other : DevqlTaskRecord} {now : ℕ}

/-- What the tests of the scheduling loop say about a task that passes them. -/
structure Startable (tasks : List DevqlTaskRecord) (pausedRepoIds blockedRepoIds : List String)
    (task : DevqlTaskRecord) : Prop where
  queued : task.status = .queued
  notPaused : task.repoId ∉ pausedRepoIds
  notBlocked : task.repoId ∉ blockedRepoIds
  policyChangeFirst : ∀ other ∈ tasks, other.repoId = task.repoId →
    other.isRepoPolicyChangeSync = true → other.status.isLive = true →
      task.isRepoPolicyChangeSync = true
  syncFirst : task.kind = .ingest → ∀ other ∈ tasks, other.repoId = task.repoId →
    other.kind = .sync → other.status.isLive = false
  policyChangeAlone : task.isRepoPolicyChangeSync = true → ∀ other ∈ tasks,
    other.repoId = task.repoId → other.status ≠ .running
  laneFree : ∀ other ∈ tasks, other.status = .running → taskLane other ≠ taskLane task

theorem startable_of_isRunnable (h : isRunnable tasks pausedRepoIds blockedRepoIds task = true) :
    Startable tasks pausedRepoIds blockedRepoIds task := by
  simp only [isRunnable, Bool.and_eq_true, decide_eq_true_eq, Bool.not_eq_true',
    Bool.and_eq_false_imp, List.any_eq_true, List.any_eq_false] at h
  obtain ⟨⟨⟨⟨⟨⟨hqueued, hpaused⟩, hblocked⟩, hpolicy⟩, hsync⟩, halone⟩, hlane⟩ := h
  refine ⟨hqueued, hpaused, hblocked, ?_, ?_, ?_, ?_⟩
  · intro other hother hrepo hchange hlive
    simpa using hpolicy ⟨other, hother, ⟨hrepo, hchange⟩, hlive⟩
  · intro hingest other hother hrepo hkind
    exact eq_false_of_ne_true fun hlive => hsync hingest other hother ⟨⟨hrepo, hkind⟩, hlive⟩
  · exact fun hchange other hother hrepo hrunning => halone hchange other hother ⟨hrepo, hrunning⟩
  · exact fun other hother hrunning heq => hlane other hother ⟨hrunning, heq⟩

/-- The table of the loop: each entry is a candidate, under its lane. -/
def FromCandidates (candidates : List (ℕ × DevqlTaskRecord))
    (selected : AList fun _ : TaskLaneKey => ℕ × DevqlTaskRecord) : Prop :=
  ∀ entry ∈ selected.entries, entry.2 ∈ candidates ∧ entry.1 = taskLane entry.2.2

theorem FromCandidates.selectForLane {candidates : List (ℕ × DevqlTaskRecord)}
    {selected : AList fun _ : TaskLaneKey => ℕ × DevqlTaskRecord}
    (h : FromCandidates candidates selected) {candidate : ℕ × DevqlTaskRecord}
    (hmem : candidate ∈ candidates) :
    FromCandidates candidates (selectForLane selected candidate) := by
  have hinsert :
      FromCandidates candidates (selected.insert (taskLane candidate.2) candidate) := by
    intro entry hentry
    rw [AList.entries_insert] at hentry
    rcases List.mem_cons.mp hentry with rfl | hold
    · exact ⟨hmem, rfl⟩
    · exact h entry ((List.kerase_sublist _ _).subset hold)
  unfold Daemon.selectForLane
  split
  · split_ifs
    · exact hinsert
    · exact h
  · exact hinsert

theorem fromCandidates_foldl {candidates : List (ℕ × DevqlTaskRecord)}
    (rest : List (ℕ × DevqlTaskRecord)) (hrest : ∀ candidate ∈ rest, candidate ∈ candidates)
    {selected : AList fun _ : TaskLaneKey => ℕ × DevqlTaskRecord}
    (h : FromCandidates candidates selected) :
    FromCandidates candidates (rest.foldl selectForLane selected) := by
  induction rest generalizing selected with
  | nil => exact h
  | cons candidate rest ih =>
    have hhead := h.selectForLane (hrest candidate List.mem_cons_self)
    exact ih (fun other hother => hrest other (List.mem_cons_of_mem _ hother)) hhead

/-- **The selected tasks** pass the tests, and no two of them share a lane. -/
theorem nextRunnableTaskIndexes_spec (tasks : List DevqlTaskRecord)
    (pausedRepoIds blockedRepoIds : List String) {indexes : List ℕ}
    (h : nextRunnableTaskIndexesBlockingRepoIds tasks pausedRepoIds blockedRepoIds = indexes) :
    (∀ i ∈ indexes, ∃ task, tasks[i]? = some task ∧
      Startable tasks pausedRepoIds blockedRepoIds task) ∧
    ∀ i ∈ indexes, ∀ j ∈ indexes, ∀ a b, tasks[i]? = some a → tasks[j]? = some b →
      taskLane a = taskLane b → i = j := by
  subst h
  obtain ⟨candidates, hcandidates⟩ : ∃ candidates, candidates =
      (tasks.zipIdx.map fun entry => (entry.2, entry.1)).filter fun candidate =>
        isRunnable tasks pausedRepoIds blockedRepoIds candidate.2 := ⟨_, rfl⟩
  have hfrom : FromCandidates candidates (candidates.foldl selectForLane ∅) :=
    fromCandidates_foldl candidates (fun _ => id) fun entry hentry => absurd hentry (by simp)
  have hcandidate : ∀ candidate ∈ candidates, tasks[candidate.1]? = some candidate.2 ∧
      Startable tasks pausedRepoIds blockedRepoIds candidate.2 := by
    intro candidate hmem
    rw [hcandidates] at hmem
    obtain ⟨hmem, hrunnable⟩ := List.mem_filter.mp hmem
    obtain ⟨⟨task, i⟩, hentry, rfl⟩ := List.mem_map.mp hmem
    exact ⟨List.mem_zipIdx_iff_getElem?.mp hentry, startable_of_isRunnable hrunnable⟩
  have hindex : ∀ i ∈ nextRunnableTaskIndexesBlockingRepoIds tasks pausedRepoIds blockedRepoIds,
      ∃ entry ∈ (candidates.foldl selectForLane ∅).entries, entry.2.1 = i := by
    intro i hi
    rw [nextRunnableTaskIndexesBlockingRepoIds, ← hcandidates] at hi
    obtain ⟨candidate, hmem, rfl⟩ := List.mem_map.mp hi
    obtain ⟨entry, hentry, rfl⟩ := List.mem_map.mp (mem_orderBy.mp hmem)
    exact ⟨entry, hentry, rfl⟩
  constructor
  · intro i hi
    obtain ⟨entry, hentry, rfl⟩ := hindex i hi
    exact ⟨entry.2.2, hcandidate _ (hfrom entry hentry).1⟩
  · intro i hi j hj a b ha hb hlane
    obtain ⟨entry, hentry, rfl⟩ := hindex i hi
    obtain ⟨entry', hentry', rfl⟩ := hindex j hj
    obtain ⟨hmem, hkey⟩ := hfrom entry hentry
    obtain ⟨hmem', hkey'⟩ := hfrom entry' hentry'
    obtain rfl := Option.some.inj ((hcandidate _ hmem).1.symm.trans ha)
    obtain rfl := Option.some.inj ((hcandidate _ hmem').1.symm.trans hb)
    have hkeys : entry.1 = entry'.1 := hkey.trans (hlane.trans hkey'.symm)
    have hnodup : (candidates.foldl selectForLane ∅).entries.NodupKeys := AList.nodupKeys _
    rw [hnodup.eq_of_fst_eq hentry hentry' hkeys]

theorem startTask_startTask : startTask now (startTask now task) = startTask now task := rfl

/-- The tasks at the indexes are started, the others stay. -/
theorem getElem?_startTasks (indexes : List ℕ) (i : ℕ) :
    (startTasks now indexes tasks).1[i]? =
      tasks[i]?.map fun task => if i ∈ indexes then startTask now task else task := by
  induction indexes generalizing tasks with
  | nil => simp [startTasks]
  | cons index rest ih =>
    cases hindex : tasks[index]? with
    | none =>
      rw [startTasks, hindex]
      dsimp only
      rw [ih]
      by_cases hi : i = index
      · rw [hi, hindex, Option.map_none, Option.map_none]
      · simp only [List.mem_cons, hi, false_or]
    | some task =>
      simp only [startTasks, hindex, ih, List.mem_cons]
      by_cases hi : i = index
      · subst hi
        obtain ⟨hlt, -⟩ := List.getElem?_eq_some_iff.mp hindex
        rw [List.getElem?_set_self hlt, hindex, Option.map_some, Option.map_some,
          startTask_startTask, ite_self, if_pos (Or.inl rfl)]
      · rw [List.getElem?_set_ne (Ne.symm hi)]
        simp only [hi, false_or]

/-- Where a running task comes from. -/
theorem running_startTasks {indexes : List ℕ} {i : ℕ}
    (h : (startTasks now indexes tasks).1[i]? = some task) :
    ∃ old, tasks[i]? = some old ∧ slot task = slot old ∧ task.kind = old.kind ∧
      task.repoId = old.repoId ∧ (i ∈ indexes ∨ task = old) := by
  rw [getElem?_startTasks] at h
  obtain ⟨old, hold, rfl⟩ := Option.map_eq_some_iff.mp h
  refine ⟨old, hold, ?_⟩
  split_ifs with hmem
  · exact ⟨rfl, rfl, rfl, .inl hmem⟩
  · exact ⟨rfl, rfl, rfl, .inr rfl⟩

theorem isLive_of_running (h : task.status = .running) : task.status.isLive = true := by
  rw [h]
  rfl

theorem isLive_of_queued (h : task.status = .queued) : task.status.isLive = true := by
  rw [h]
  rfl

/-- A task that may start is apart from one that runs. -/
theorem Startable.apart_running (h : Startable tasks pausedRepoIds blockedRepoIds task)
    (hother : other ∈ tasks) (hrunning : other.status = .running) :
    (slot task).Apart (slot other) := by
  refine ⟨(h.laneFree other hother hrunning).symm, fun hrepo => ?_⟩
  have hrepo : other.repoId = task.repoId := hrepo.symm
  have hnot : task.isRepoPolicyChangeSync = false :=
    eq_false_of_ne_true fun hchange => h.policyChangeAlone hchange other hother hrepo hrunning
  refine ⟨hnot, eq_false_of_ne_true fun hchange => ?_⟩
  have hfirst := h.policyChangeFirst other hother hrepo hchange (isLive_of_running hrunning)
  rw [hnot] at hfirst
  cases hfirst

/-- Two tasks that may start, in different lanes, are apart. -/
theorem Startable.apart (h : Startable tasks pausedRepoIds blockedRepoIds task)
    (h' : Startable tasks pausedRepoIds blockedRepoIds other) (htask : task ∈ tasks)
    (hother : other ∈ tasks) (hlane : taskLane task ≠ taskLane other) :
    (slot task).Apart (slot other) := by
  -- if one of them is a policy change, so is the other, and the lane is the same
  have hboth : task.repoId = other.repoId → task.isRepoPolicyChangeSync = true →
      other.isRepoPolicyChangeSync = true → False := by
    intro hrepo hchange hchange'
    refine hlane ?_
    rw [taskLane, taskLane, hrepo, (isRepoPolicyChangeSync_iff.mp hchange).1,
      (isRepoPolicyChangeSync_iff.mp hchange').1]
  refine ⟨hlane, fun hrepo => ⟨?_, ?_⟩⟩
  · refine eq_false_of_ne_true fun hchange => hboth hrepo hchange ?_
    exact h'.policyChangeFirst task htask hrepo hchange (isLive_of_queued h.queued)
  · refine eq_false_of_ne_true fun hchange => hboth hrepo ?_ hchange
    exact h.policyChangeFirst other hother hrepo.symm hchange (isLive_of_queued h'.queued)

/-- **A scheduling pass keeps the running tasks apart.** -/
theorem apart_startTasks (happart : (runningSlots tasks).Pairwise Slot.Apart) :
    (runningSlots (startTasks now
      (nextRunnableTaskIndexesBlockingRepoIds tasks pausedRepoIds blockedRepoIds)
        tasks).1).Pairwise Slot.Apart := by
  obtain ⟨hstartable, hlanes⟩ := nextRunnableTaskIndexes_spec tasks pausedRepoIds
    blockedRepoIds rfl
  rw [pairwise_apart_iff] at happart ⊢
  rw [List.pairwise_iff_getElem] at happart ⊢
  intro i j hi hj hlt ha hb
  obtain ⟨a, hai, haslot, -, -, hastarts⟩ := running_startTasks (List.getElem?_eq_getElem hi)
  obtain ⟨b, hbj, hbslot, -, -, hbstarts⟩ := running_startTasks (List.getElem?_eq_getElem hj)
  rw [haslot, hbslot]
  have hamem : a ∈ tasks := List.mem_of_getElem? hai
  have hbmem : b ∈ tasks := List.mem_of_getElem? hbj
  have hstart : ∀ k ∈ nextRunnableTaskIndexesBlockingRepoIds tasks pausedRepoIds blockedRepoIds,
      ∀ c, tasks[k]? = some c → Startable tasks pausedRepoIds blockedRepoIds c := by
    intro k hk c hc
    obtain ⟨c', hc', hstartable⟩ := hstartable k hk
    obtain rfl := Option.some.inj (hc.symm.trans hc')
    exact hstartable
  rcases hastarts with hastarts | haold
  · have hasel := hstart i hastarts a hai
    rcases hbstarts with hbstarts | hbold
    · refine hasel.apart (hstart j hbstarts b hbj) hamem hbmem fun hlane => ?_
      exact absurd (hlanes i hastarts j hbstarts a b hai hbj hlane) (Nat.ne_of_lt hlt)
    · rw [hbold] at hb
      exact hasel.apart_running hbmem hb
  · rw [haold] at ha
    rcases hbstarts with hbstarts | hbold
    · exact ((hstart j hbstarts b hbj).apart_running hamem ha).symm
    · rw [hbold] at hb
      obtain ⟨hilt, rfl⟩ := List.getElem?_eq_some_iff.mp hai
      obtain ⟨hjlt, rfl⟩ := List.getElem?_eq_some_iff.mp hbj
      exact happart i j hilt hjlt hlt ha hb

end Schedule

/-! ## Runs -/

section Runs

variable {w w' : World} {op : Op} {task : DevqlTaskRecord}

theorem runningSlots_step (h : step w op = some w') :
    ∃ acted, act w op.action = some acted ∧
      (runningSlots w'.tasks).Sublist (runningSlots acted.tasks) := by
  obtain ⟨acted, hact, rfl⟩ := step_eq_some_iff.mp h
  exact ⟨acted, hact, List.filter_sublist.filterMap _⟩

theorem step_apart (happart : (runningSlots w.tasks).Pairwise Slot.Apart)
    (h : step w op = some w') : (runningSlots w'.tasks).Pairwise Slot.Apart := by
  obtain ⟨acted, hact, hsub⟩ := runningSlots_step h
  refine List.Pairwise.sublist hsub ?_
  by_cases haction : ∃ blockedRepoIds now, op.action = .schedulePendingTasks blockedRepoIds now
  · obtain ⟨blockedRepoIds, now, haction⟩ := haction
    rw [haction] at hact
    cases hact
    exact apart_startTasks happart
  · refine List.Pairwise.sublist (act_runningSlots hact fun blockedRepoIds now heq => ?_) happart
    exact haction ⟨blockedRepoIds, now, heq⟩

/-- **What an operation starts**, a scheduling pass started fairly. -/
theorem startedFairly_of_starts (h : step w op = some w') (hstarts : Starts w w' task) :
    StartedFairly w op task := by
  obtain ⟨hmem, hrunning, hnew⟩ := hstarts
  by_cases haction : ∃ blockedRepoIds now, op.action = .schedulePendingTasks blockedRepoIds now
  · obtain ⟨blockedRepoIds, now, haction⟩ := haction
    obtain ⟨acted, hact, rfl⟩ := step_eq_some_iff.mp h
    rw [haction] at hact
    cases hact
    obtain ⟨i, hi⟩ := List.mem_iff_getElem?.mp (List.mem_filter.mp hmem).1
    obtain ⟨old, hold, hslot, hkind, hrepo, hselected⟩ := running_startTasks hi
    rcases hselected with hselected | rfl
    · obtain ⟨hstartable, -⟩ := nextRunnableTaskIndexes_spec w.tasks w.pausedRepoIds
        blockedRepoIds rfl
      obtain ⟨old', hold', hstart⟩ := hstartable i hselected
      obtain rfl := Option.some.inj (hold.symm.trans hold')
      refine ⟨blockedRepoIds, now, haction, ?_⟩
      rw [hrepo, hkind]
      exact ⟨hstart.notPaused, hstart.notBlocked, hstart.syncFirst⟩
    · exact absurd hrunning (hnew task (List.mem_of_getElem? hold) rfl)
  · obtain ⟨acted, hact, hsub⟩ := runningSlots_step h
    have hsubset := (hsub.trans (act_runningSlots hact fun blockedRepoIds now heq =>
      haction ⟨blockedRepoIds, now, heq⟩)).subset
    obtain ⟨old, hold, holdRunning, hslot⟩ :=
      mem_runningSlots.mp (hsubset (mem_runningSlots.mpr ⟨task, hmem, hrunning, rfl⟩))
    have hid : old.taskId = task.taskId := congrArg Slot.taskId hslot
    exact absurd holdRunning (hnew old hold hid)

end Runs

/-- **Scheduler exclusion.**  After any run, at most one task runs in each lane and a running
policy change is alone in its repository; and whatever the next operation starts, a scheduling
pass started it while its repository was neither paused nor blocked and, for an ingest task, had
no live sync. -/
theorem scheduler_exclusion {ops : List Op} {w : World}
    (hrun : Run.exec step World.empty ops = some w) :
    Exclusive w.tasks ∧
      ∀ op w', step w op = some w' → ∀ task, Starts w w' task → StartedFairly w op task := by
  have happart : (runningSlots w.tasks).Pairwise Slot.Apart :=
    Run.exec_invariant (fun w => (runningSlots w.tasks).Pairwise Slot.Apart)
      (fun _ _ _ h hstep => step_apart h hstep) List.Pairwise.nil hrun
  exact ⟨exclusive_of_apart happart, fun op w' h task => startedFairly_of_starts h⟩

def plainIngest : EnqueueRequest :=
  { repoId := "repo", source := .manualCli, spec := .ingest { commits := [], backfill := none },
    initSessionId := none }

/-- An ingest task is enqueued before a policy change, which runs first. -/
def policyChangeOps : List Op :=
  [⟨.enqueue plainIngest "t1" 10, []⟩,
   ⟨.enqueue (plainSync .repoPolicyChange .full) "t2" 11, []⟩,
   ⟨.schedulePendingTasks [] 12, []⟩,
   ⟨.finishTask "t2" (.ok ()) 13, []⟩]

theorem policyChange_runs_first :
    ∃ w w' task, Run.exec step World.empty policyChangeOps = some w ∧
      step w ⟨.schedulePendingTasks ["other"] 14, []⟩ = some w' ∧ Exclusive w.tasks ∧
        task.taskId = "t1" ∧ Starts w w' task ∧
          StartedFairly w ⟨.schedulePendingTasks ["other"] 14, []⟩ task := by
  have hfacts : ((Run.exec step World.empty policyChangeOps).bind fun w =>
      (step w ⟨.schedulePendingTasks ["other"] 14, []⟩).map fun w' =>
        decide (∃ task ∈ w'.tasks, task.taskId = "t1" ∧ task.status = .running ∧
          ∀ old ∈ w.tasks, old.taskId = task.taskId → old.status ≠ .running)) = some true := by
    decide
  obtain ⟨w, hrun, hfacts⟩ := Option.bind_eq_some_iff.mp hfacts
  obtain ⟨w', hstep, hfacts⟩ := Option.map_eq_some_iff.mp hfacts
  obtain ⟨task, hmem, hid, hstarts⟩ := of_decide_eq_true hfacts
  obtain ⟨hexclusive, hfair⟩ := scheduler_exclusion hrun
  exact ⟨w, w', task, hrun, hstep, hexclusive, hid, ⟨hmem, hstarts⟩,
    hfair _ w' hstep task ⟨hmem, hstarts⟩⟩

end Daemon
end Bitloops
