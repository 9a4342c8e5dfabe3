import Bitloops.InitRuntime.QueueInvariant

/-!
# The record of an init session

The ids of a record lead to tasks of the right kinds, and a completion that has a number is a
completion of the queue.

* `recordTaskCompletionSeq_cases`: a report assigns at most one number.
* `Recorded.recordOk`: a report of a task of the queue keeps the record right.
-/

namespace Bitloops
namespace InitRuntime

open Daemon

/-- An id leads to a task of the kind. -/
def Points (tasks : List DevqlTaskRecord) (kind : DevqlTaskKind) (taskId : Option String) : Prop :=
  ∀ id, taskId = some id → ∃ task ∈ tasks, task.taskId = id ∧ task.kind = kind

/-- An id leads to a task that is completed. -/
def IsCompleted (tasks : List DevqlTaskRecord) (taskId : Option String) : Prop :=
  ∃ task ∈ tasks, taskId = some task.taskId ∧ task.status = .completed

/-- Every terminal snapshot is one of a task that the record follows. -/
structure TerminalsOk (s : InitSessionRecord) : Prop where
  initialSync : s.initialSyncTerminal.isSome → s.initialSyncTaskId.isSome
  ingest : s.ingestTerminal.isSome → s.ingestTaskId.isSome
  embeddings : s.embeddingsBootstrapTerminal.isSome → s.embeddingsBootstrapTaskId.isSome
  summary : s.summaryBootstrapTerminal.isSome → s.summaryBootstrapTaskId.isSome
  followUp : s.followUpSyncTerminal.isSome → s.followUpSyncTaskId.isSome

/-- What a record says about the queue, and about itself. -/
structure RecordOk (tasks : List DevqlTaskRecord) (s : InitSessionRecord) : Prop where
  initialSync : Points tasks .sync s.initialSyncTaskId
  ingest : Points tasks .ingest s.ingestTaskId
  embeddings : Points tasks .embeddingsBootstrap s.embeddingsBootstrapTaskId
  summary : Points tasks .summaryBootstrap s.summaryBootstrapTaskId
  followUp : Points tasks .sync s.followUpSyncTaskId
  distinct : s.followUpSyncTaskId.isSome → s.initialSyncTaskId ≠ s.followUpSyncTaskId
  terminals : TerminalsOk s
  initialSeq : s.initialSyncCompletionSeq.isSome → IsCompleted tasks s.initialSyncTaskId
  embeddingsSeq : s.embeddingsBootstrapCompletionSeq.isSome →
    IsCompleted tasks s.embeddingsBootstrapTaskId
  summarySeq : s.summaryBootstrapCompletionSeq.isSome →
    IsCompleted tasks s.summaryBootstrapTaskId
  initialBound : ∀ n, s.initialSyncCompletionSeq = some n → n ≤ s.nextCompletionSeq
  followUpBound : ∀ n, s.followUpSyncCompletionSeq = some n → n ≤ s.nextCompletionSeq
  required : s.followUpSyncRequired → s.initialSyncCompletionSeq.isSome

/-- The two records follow the same tasks. -/
structure SameTasks (s s' : InitSessionRecord) : Prop where
  initSessionId : s'.initSessionId = s.initSessionId
  selections : s'.selections = s.selections
  initialSync : s'.initialSyncTaskId = s.initialSyncTaskId
  ingest : s'.ingestTaskId = s.ingestTaskId
  embeddings : s'.embeddingsBootstrapTaskId = s.embeddingsBootstrapTaskId
  summary : s'.summaryBootstrapTaskId = s.summaryBootstrapTaskId
  followUp : s'.followUpSyncTaskId = s.followUpSyncTaskId

/-- The two records have numbered the same completions. -/
structure SameSeqs (s s' : InitSessionRecord) : Prop where
  next : s'.nextCompletionSeq = s.nextCompletionSeq
  initialSync : s'.initialSyncCompletionSeq = s.initialSyncCompletionSeq
  embeddings : s'.embeddingsBootstrapCompletionSeq = s.embeddingsBootstrapCompletionSeq
  summary : s'.summaryBootstrapCompletionSeq = s.summaryBootstrapCompletionSeq
  followUp : s'.followUpSyncCompletionSeq = s.followUpSyncCompletionSeq

/-- The record has the ids of the tasks that were selected. -/
structure HasSelected (s : InitSessionRecord) : Prop where
  initialSync : s.selections.runSync → s.initialSyncTaskId.isSome
  ingest : s.selections.runIngest → s.selections.runSync = false → s.ingestTaskId.isSome
  embeddings : s.selections.embeddingsBootstrap.isSome → s.embeddingsBootstrapTaskId.isSome
  summary : s.selections.summariesBootstrap.isSome → s.summaryBootstrapTaskId.isSome

section Record

variable {tasks tasks' : List DevqlTaskRecord} {s : InitSessionRecord} {task : DevqlTaskRecord}
  {kind : DevqlTaskKind} {taskId : Option String} {initSessionId : String}

theorem Points.evolves (h : Points tasks kind taskId) (hevolves : Evolves tasks tasks') :
    Points tasks' kind taskId := by
  intro id hid
  obtain ⟨task, htask, rfl, rfl⟩ := h id hid
  obtain ⟨task', htask', hid', hkind', -⟩ := hevolves task htask
  exact ⟨task', htask', hid', hkind'⟩

theorem IsCompleted.evolves (h : IsCompleted tasks taskId) (hevolves : Evolves tasks tasks') :
    IsCompleted tasks' taskId := by
  obtain ⟨task, htask, rfl, hstatus⟩ := h
  obtain ⟨task', htask', hid', -, hkeeps⟩ := hevolves task htask
  exact ⟨task', htask', by rw [hid'], (hkeeps (by rw [hstatus]; rfl)).trans hstatus⟩

theorem points_none : Points tasks kind none := fun _ h => nomatch h

theorem RecordOk.evolves (h : RecordOk tasks s) (hevolves : Evolves tasks tasks') :
    RecordOk tasks' s :=
  { h with
    initialSync := h.initialSync.evolves hevolves
    ingest := h.ingest.evolves hevolves
    embeddings := h.embeddings.evolves hevolves
    summary := h.summary.evolves hevolves
    followUp := h.followUp.evolves hevolves
    initialSeq := fun hsome => (h.initialSeq hsome).evolves hevolves
    embeddingsSeq := fun hsome => (h.embeddingsSeq hsome).evolves hevolves
    summarySeq := fun hsome => (h.summarySeq hsome).evolves hevolves }

theorem assignCompletionSeq_cases (next : ℕ) (target : Option ℕ) :
    assignCompletionSeq next target = (next, target) ∨
      target = none ∧ assignCompletionSeq next target = (next + 1, some (next + 1)) := by
  cases target with
  | none => exact .inr ⟨rfl, rfl⟩
  | some n => exact .inl rfl

/-- A report gives one completion the next number, or none. -/
theorem recordTaskCompletionSeq_cases (s : InitSessionRecord)
    (task : DevqlTaskRecord) :
    recordTaskCompletionSeq s task = s ∨
    (task.status = .completed ∧ s.initialSyncTaskId = some task.taskId ∧
      s.initialSyncCompletionSeq = none ∧
      recordTaskCompletionSeq s task =
        { s with
          nextCompletionSeq := s.nextCompletionSeq + 1
          initialSyncCompletionSeq := some (s.nextCompletionSeq + 1) }) ∨
    (task.status = .completed ∧ s.initialSyncTaskId ≠ some task.taskId ∧
      s.followUpSyncTaskId = some task.taskId ∧
      recordTaskCompletionSeq s task =
        { s with
          nextCompletionSeq := s.nextCompletionSeq + 1
          followUpSyncCompletionSeq := some (s.nextCompletionSeq + 1) }) ∨
    (task.status = .completed ∧ s.embeddingsBootstrapTaskId = some task.taskId ∧
      s.embeddingsBootstrapCompletionSeq = none ∧
      recordTaskCompletionSeq s task =
        { s with
          nextCompletionSeq := s.nextCompletionSeq + 1
          embeddingsBootstrapCompletionSeq := some (s.nextCompletionSeq + 1) }) ∨
    (task.status = .completed ∧ s.summaryBootstrapTaskId = some task.taskId ∧
      s.summaryBootstrapCompletionSeq = none ∧
      recordTaskCompletionSeq s task =
        { s with
          nextCompletionSeq := s.nextCompletionSeq + 1
          summaryBootstrapCompletionSeq := some (s.nextCompletionSeq + 1) }) := by
  unfold recordTaskCompletionSeq
  dsimp only
  split_ifs with hstatus hinitial hfollowUp hembeddings hsummary
  · exact .inl rfl
  · rw [not_not] at hstatus
    rcases assignCompletionSeq_cases s.nextCompletionSeq s.initialSyncCompletionSeq with
      heq | ⟨hnone, heq⟩ <;> rw [heq]
    · exact .inl rfl
    · exact .inr (.inl ⟨hstatus, hinitial, hnone, rfl⟩)
  · rw [not_not] at hstatus
    unfold assignCompletionSeqForRepeatableTask
    generalize s.followUpSyncTerminal.any _ = completionAlreadyRecorded
    cases completionAlreadyRecorded
    · exact .inr (.inr (.inl ⟨hstatus, hinitial, hfollowUp, rfl⟩))
    · exact .inl rfl
  · rw [not_not] at hstatus
    rcases assignCompletionSeq_cases s.nextCompletionSeq s.embeddingsBootstrapCompletionSeq with
      heq | ⟨hnone, heq⟩ <;> rw [heq]
    · exact .inl rfl
    · exact .inr (.inr (.inr (.inl ⟨hstatus, hembeddings, hnone, rfl⟩)))
  · rw [not_not] at hstatus
    rcases assignCompletionSeq_cases s.nextCompletionSeq s.summaryBootstrapCompletionSeq with
      heq | ⟨hnone, heq⟩ <;> rw [heq]
    · exact .inl rfl
    · exact .inr (.inr (.inr (.inr ⟨hstatus, hsummary, hnone, rfl⟩)))
  · exact .inl rfl

/-- The reported task, as far as the record depends on it, is in the queue. -/
def Reported (tasks : List DevqlTaskRecord) (task : DevqlTaskRecord) : Prop :=
  ∃ queued ∈ tasks, queued.taskId = task.taskId ∧ queued.kind = task.kind ∧
    (task.status.isLive = false → queued.status = task.status)

theorem Reported.evolves (h : Reported tasks task) (hevolves : Evolves tasks tasks') :
    Reported tasks' task := by
  obtain ⟨queued, hqueued, hid, hkind, hstatus⟩ := h
  obtain ⟨queued', hqueued', hid', hkind', hkeeps⟩ := hevolves queued hqueued
  refine ⟨queued', hqueued', hid'.trans hid, hkind'.trans hkind, fun hended => ?_⟩
  have hstatus := hstatus hended
  exact (hkeeps (hstatus ▸ hended)).trans hstatus

theorem Reported.isCompleted (h : Reported tasks task) (hstatus : task.status = .completed) :
    IsCompleted tasks (some task.taskId) := by
  obtain ⟨queued, hqueued, hid, -, hkeeps⟩ := h
  exact ⟨queued, hqueued, by rw [hid], (hkeeps (by rw [hstatus]; rfl)).trans hstatus⟩

/-- A reported task has a name, so it is the initial sync when it is compared with its id or with
the empty id. -/
theorem Reported.eq_initialSync (h : Reported tasks task) (hok : TasksOk initSessionId tasks)
    (hid : task.taskId = s.initialSyncTaskId.getD "") :
    s.initialSyncTaskId = some task.taskId := by
  obtain ⟨queued, hqueued, hname, -, -⟩ := h
  cases hinitial : s.initialSyncTaskId with
  | none => exact absurd (hname.trans (hid.trans (by rw [hinitial]; rfl))) (hok.named _ hqueued)
  | some id => rw [hid, hinitial]; rfl

theorem recordOk_recordTaskCompletionSeq (h : RecordOk tasks s) (hreported : Reported tasks task) :
    RecordOk tasks (recordTaskCompletionSeq s task) := by
  rcases recordTaskCompletionSeq_cases s task with
    heq | ⟨hstatus, hid, hnone, heq⟩ | ⟨hstatus, -, hid, heq⟩ | ⟨hstatus, hid, hnone, heq⟩ |
      ⟨hstatus, hid, hnone, heq⟩ <;> rw [heq]
  · exact h
  · exact
      { h with
        terminals := { h.terminals with }
        initialSeq := fun _ => hid ▸ hreported.isCompleted hstatus
        initialBound := fun n hn => (Option.some.inj hn).ge
        followUpBound := fun n hn => (h.followUpBound n hn).trans (Nat.le_succ _)
        required := fun _ => rfl }
  · exact
      { h with
        terminals := { h.terminals with }
        initialBound := fun n hn => (h.initialBound n hn).trans (Nat.le_succ _)
        followUpBound := fun n hn => (Option.some.inj hn).ge }
  · exact
      { h with
        terminals := { h.terminals with }
        embeddingsSeq := fun _ => hid ▸ hreported.isCompleted hstatus
        initialBound := fun n hn => (h.initialBound n hn).trans (Nat.le_succ _)
        followUpBound := fun n hn => (h.followUpBound n hn).trans (Nat.le_succ _) }
  · exact
      { h with
        terminals := { h.terminals with }
        summarySeq := fun _ => hid ▸ hreported.isCompleted hstatus
        initialBound := fun n hn => (h.initialBound n hn).trans (Nat.le_succ _)
        followUpBound := fun n hn => (h.followUpBound n hn).trans (Nat.le_succ _) }

theorem isSome_assignCompletionSeq (next : ℕ) (target : Option ℕ) :
    (assignCompletionSeq next target).2.isSome := by
  cases target <;> rfl

theorem isSome_initialSyncCompletionSeq (hstatus : task.status = .completed)
    (hid : s.initialSyncTaskId = some task.taskId) :
    (recordTaskCompletionSeq s task).initialSyncCompletionSeq.isSome := by
  unfold recordTaskCompletionSeq
  rw [if_neg (not_not_intro hstatus), if_pos hid]
  exact isSome_assignCompletionSeq _ _

/-- The completion of the initial sync keeps its number. -/
theorem initialSyncCompletionSeq_mono {n : ℕ} (h : s.initialSyncCompletionSeq = some n) :
    (recordTaskCompletionSeq s task).initialSyncCompletionSeq = some n := by
  rcases recordTaskCompletionSeq_cases s task with
    heq | ⟨-, -, hnone, -⟩ | ⟨-, -, -, heq⟩ | ⟨-, -, -, heq⟩ | ⟨-, -, -, heq⟩
  · rw [heq, h]
  · rw [h] at hnone
    cases hnone
  all_goals
    rw [heq]
    exact h

theorem initialSyncCompletionSeq_cases (s : InitSessionRecord)
    (task : DevqlTaskRecord) :
    (recordTaskCompletionSeq s task).initialSyncCompletionSeq = s.initialSyncCompletionSeq ∨
      task.status = .completed ∧ s.initialSyncTaskId = some task.taskId := by
  rcases recordTaskCompletionSeq_cases s task with
    heq | ⟨hstatus, hid, -, -⟩ | ⟨-, -, -, heq⟩ | ⟨-, -, -, heq⟩ | ⟨-, -, -, heq⟩
  · exact .inl (by rw [heq])
  · exact .inr ⟨hstatus, hid⟩
  all_goals exact .inl (by rw [heq])

/-- Ids of tasks of different kinds are different. -/
theorem Points.ne {kind' : DevqlTaskKind} {id : String} (hok : TasksOk initSessionId tasks)
    (h : Points tasks kind taskId) (h' : Points tasks kind' (some id)) (hne : kind ≠ kind') :
    taskId ≠ some id := by
  rintro rfl
  obtain ⟨queued, hqueued, hid, rfl⟩ := h id rfl
  obtain ⟨queued', hqueued', hid', rfl⟩ := h' id rfl
  exact hne (congrArg _ (eq_of_taskId_eq hok hqueued hqueued' (hid.trans hid'.symm)))

theorem isSome_embeddingsBootstrapCompletionSeq (hok : TasksOk initSessionId tasks)
    (h : RecordOk tasks s) (hstatus : task.status = .completed)
    (hid : s.embeddingsBootstrapTaskId = some task.taskId) :
    (recordTaskCompletionSeq s task).embeddingsBootstrapCompletionSeq.isSome := by
  have hpoints := hid ▸ h.embeddings
  unfold recordTaskCompletionSeq
  rw [if_neg (not_not_intro hstatus),
    if_neg (h.initialSync.ne hok hpoints DevqlTaskKind.noConfusion),
    if_neg (h.followUp.ne hok hpoints DevqlTaskKind.noConfusion), if_pos hid]
  exact isSome_assignCompletionSeq _ _

theorem isSome_summaryBootstrapCompletionSeq (hok : TasksOk initSessionId tasks)
    (h : RecordOk tasks s) (hstatus : task.status = .completed)
    (hid : s.summaryBootstrapTaskId = some task.taskId) :
    (recordTaskCompletionSeq s task).summaryBootstrapCompletionSeq.isSome := by
  have hpoints := hid ▸ h.summary
  unfold recordTaskCompletionSeq
  rw [if_neg (not_not_intro hstatus),
    if_neg (h.initialSync.ne hok hpoints DevqlTaskKind.noConfusion),
    if_neg (h.followUp.ne hok hpoints DevqlTaskKind.noConfusion),
    if_neg (h.embeddings.ne hok hpoints DevqlTaskKind.noConfusion), if_pos hid]
  exact isSome_assignCompletionSeq _ _

theorem recordTaskCompletionSeq_same (s : InitSessionRecord)
    (task : DevqlTaskRecord) :
    SameTasks s (recordTaskCompletionSeq s task) ∧
      (TerminalsOk s → TerminalsOk (recordTaskCompletionSeq s task)) ∧
      (recordTaskCompletionSeq s task).followUpSyncRequired = s.followUpSyncRequired := by
  rcases recordTaskCompletionSeq_cases s task with
    heq | ⟨-, -, -, heq⟩ | ⟨-, -, -, heq⟩ | ⟨-, -, -, heq⟩ | ⟨-, -, -, heq⟩ <;> rw [heq] <;>
      exact ⟨⟨rfl, rfl, rfl, rfl, rfl, rfl, rfl⟩, fun h => { h with }, rfl⟩

/-! ## A whole report -/

theorem SameTasks.trans {s' s'' : InitSessionRecord} (h : SameTasks s s')
    (h' : SameTasks s' s'') : SameTasks s s'' where
  initSessionId := h'.initSessionId.trans h.initSessionId
  selections := h'.selections.trans h.selections
  initialSync := h'.initialSync.trans h.initialSync
  ingest := h'.ingest.trans h.ingest
  embeddings := h'.embeddings.trans h.embeddings
  summary := h'.summary.trans h.summary
  followUp := h'.followUp.trans h.followUp

theorem SameTasks.symm {s' : InitSessionRecord} (h : SameTasks s s') : SameTasks s' s where
  initSessionId := h.initSessionId.symm
  selections := h.selections.symm
  initialSync := h.initialSync.symm
  ingest := h.ingest.symm
  embeddings := h.embeddings.symm
  summary := h.summary.symm
  followUp := h.followUp.symm

theorem HasSelected.of_sameTasks {s' : InitSessionRecord} (h : HasSelected s)
    (hsame : SameTasks s s') : HasSelected s' := by
  obtain ⟨-, hselections, hinitial, hingest, hembeddings, hsummary, -⟩ := hsame
  refine ⟨?_, ?_, ?_, ?_⟩
  · rw [hselections, hinitial]
    exact h.initialSync
  · rw [hselections, hingest]
    exact h.ingest
  · rw [hselections, hembeddings]
    exact h.embeddings
  · rw [hselections, hsummary]
    exact h.summary

/-- What a record says depends on its ids and its numbers. -/
theorem RecordOk.of_same {s' : InitSessionRecord} (h : RecordOk tasks s) (htasks : SameTasks s s')
    (hseqs : SameSeqs s s') (hterminals : TerminalsOk s')
    (hrequired : s'.followUpSyncRequired → s.initialSyncCompletionSeq.isSome) :
    RecordOk tasks s' := by
  obtain ⟨-, -, hinitial, hingest, hembeddings, hsummary, hfollowUp⟩ := htasks
  obtain ⟨hnext, hinitialSeq, hembeddingsSeq, hsummarySeq, hfollowUpSeq⟩ := hseqs
  exact
    { initialSync := hinitial ▸ h.initialSync
      ingest := hingest ▸ h.ingest
      embeddings := hembeddings ▸ h.embeddings
      summary := hsummary ▸ h.summary
      followUp := hfollowUp ▸ h.followUp
      distinct := hinitial ▸ hfollowUp ▸ h.distinct
      terminals := hterminals
      initialSeq := hinitial ▸ hinitialSeq ▸ h.initialSeq
      embeddingsSeq := hembeddings ▸ hembeddingsSeq ▸ h.embeddingsSeq
      summarySeq := hsummary ▸ hsummarySeq ▸ h.summarySeq
      initialBound := hnext ▸ hinitialSeq ▸ h.initialBound
      followUpBound := hnext ▸ hfollowUpSeq ▸ h.followUpBound
      required := hinitialSeq ▸ hrequired }

theorem recordTaskTerminalSnapshot_same (s : InitSessionRecord)
    (task : DevqlTaskRecord) :
    SameTasks s (recordTaskTerminalSnapshot s task) ∧
      SameSeqs s (recordTaskTerminalSnapshot s task) ∧
      (recordTaskTerminalSnapshot s task).followUpSyncRequired = s.followUpSyncRequired := by
  unfold recordTaskTerminalSnapshot
  split
  · exact ⟨⟨rfl, rfl, rfl, rfl, rfl, rfl, rfl⟩, ⟨rfl, rfl, rfl, rfl, rfl⟩, rfl⟩
  · split_ifs <;> exact ⟨⟨rfl, rfl, rfl, rfl, rfl, rfl, rfl⟩, ⟨rfl, rfl, rfl, rfl, rfl⟩, rfl⟩

theorem terminalsOk_recordTaskTerminalSnapshot (h : TerminalsOk s) :
    TerminalsOk (recordTaskTerminalSnapshot s task) := by
  unfold recordTaskTerminalSnapshot
  split
  · exact h
  · split_ifs with hinitial hingest hembeddings hsummary hfollowUp
    · exact { h with initialSync := fun _ => by rw [hinitial]; rfl }
    · exact { h with ingest := fun _ => by rw [hingest]; rfl }
    · exact { h with embeddings := fun _ => by rw [hembeddings]; rfl }
    · exact { h with summary := fun _ => by rw [hsummary]; rfl }
    · exact { h with followUp := fun _ => by rw [hfollowUp]; rfl }
    · exact h

/-- The record after the first two functions of a report. -/
def recordedTask (s : InitSessionRecord) (task : DevqlTaskRecord) : InitSessionRecord :=
  recordTaskTerminalSnapshot (recordTaskCompletionSeq s task) task

/-- What a report does to the record besides its terminal snapshots. -/
structure Recorded (tasks : List DevqlTaskRecord) (s : InitSessionRecord) (task : DevqlTaskRecord)
    (s' : InitSessionRecord) : Prop where
  sameTasks : SameTasks s s'
  sameSeqs : SameSeqs (recordTaskCompletionSeq s task) s'
  terminals : TerminalsOk s → TerminalsOk s'
  required : s'.followUpSyncRequired → s.followUpSyncRequired ∨
    task.status = .completed ∧ task.taskId = s.initialSyncTaskId.getD "" ∧
      semanticBootstrapsReady (recordedTask s task) (loadTasks tasks (recordedTask s task)) = false

theorem recordedTask_recorded : Recorded tasks s task (recordedTask s task) := by
  obtain ⟨htasks, hterminals, hrequired⟩ := recordTaskCompletionSeq_same s task
  obtain ⟨htasks', hseqs', hrequired'⟩ :=
    recordTaskTerminalSnapshot_same (recordTaskCompletionSeq s task) task
  refine ⟨htasks.trans htasks', hseqs', ?_, ?_⟩
  · exact fun h => terminalsOk_recordTaskTerminalSnapshot (hterminals h)
  · rw [recordedTask, hrequired', hrequired]
    exact Or.inl

theorem recordTaskUpdate_recorded : Recorded tasks s task (recordTaskUpdate tasks s task).1 := by
  have h : Recorded tasks s task (recordedTask s task) := recordedTask_recorded
  obtain ⟨htasks, hseqs, hterminals, hrequired⟩ := h
  unfold recordTaskUpdate
  dsimp only
  split_ifs with hcompleted hready
  · refine ⟨{ htasks with }, { hseqs with }, fun hok => { hterminals hok with }, fun _ => .inr ?_⟩
    rw [Bool.and_eq_true, Bool.not_eq_true'] at hready
    exact ⟨hcompleted.2, htasks.initialSync ▸ hcompleted.1, hready.2⟩
  · exact ⟨htasks, hseqs, hterminals, hrequired⟩
  · exact ⟨htasks, hseqs, hterminals, hrequired⟩

/-- The staged ingest is to be enqueued. -/
theorem recordTaskUpdate_enqueueIngest (tasks : List DevqlTaskRecord) (s : InitSessionRecord)
    (task : DevqlTaskRecord) : (recordTaskUpdate tasks s task).2 = true ↔
    (task.taskId = s.initialSyncTaskId.getD "" ∧ task.status = .completed) ∧
      s.selections.runIngest = true ∧ s.ingestTaskId = none := by
  obtain ⟨htasks, -, -, -⟩ : Recorded tasks s task (recordedTask s task) := recordedTask_recorded
  rw [← htasks.initialSync, ← htasks.selections, ← htasks.ingest, ← Option.isNone_iff_eq_none,
    ← Bool.and_eq_true]
  unfold recordTaskUpdate
  dsimp only
  split_ifs with hcompleted hready
  · exact ⟨fun h => ⟨hcompleted, h⟩, fun h => h.2⟩
  · exact ⟨fun h => ⟨hcompleted, h⟩, fun h => h.2⟩
  · exact ⟨fun h => (nomatch h), fun h => absurd h.1 hcompleted⟩

/-- **A report keeps the record right.** -/
theorem Recorded.recordOk {s' : InitSessionRecord} (hrecorded : Recorded tasks s task s')
    (hok : TasksOk initSessionId tasks) (h : RecordOk tasks s) (hreported : Reported tasks task) :
    RecordOk tasks s' := by
  obtain ⟨htasks, hseqs, hterminals, hrequired⟩ := hrecorded
  obtain ⟨hsame, hterminals', hrequired'⟩ := recordTaskCompletionSeq_same s task
  have hcompletion := recordOk_recordTaskCompletionSeq h hreported
  refine hcompletion.of_same (hsame.symm.trans htasks) hseqs (hterminals h.terminals) fun hr => ?_
  rcases hrequired hr with hr | ⟨hstatus, hid, -⟩
  · exact hcompletion.required (hrequired'.trans hr)
  · have hinitial := hreported.eq_initialSync hok hid
    exact isSome_initialSyncCompletionSeq hstatus hinitial

/-! ## The tasks of a record -/

theorem exists_loadTaskById (hok : TasksOk initSessionId tasks) (h : Points tasks kind taskId)
    (hsome : taskId.isSome) : ∃ task ∈ tasks, taskId = some task.taskId ∧ task.kind = kind ∧
      loadTaskById tasks taskId = some task := by
  obtain ⟨id, rfl⟩ := Option.isSome_iff_exists.mp hsome
  obtain ⟨task, htask, rfl, hkind⟩ := h id rfl
  exact ⟨task, htask, rfl, hkind, (loadTaskById_eq_some hok).mpr ⟨htask, rfl⟩⟩

theorem exists_summaryRun (hok : TasksOk initSessionId tasks)
    (h : Points tasks .summaryBootstrap s.summaryBootstrapTaskId)
    (hsome : s.summaryBootstrapTaskId.isSome) :
    ∃ task ∈ tasks, s.summaryBootstrapTaskId = some task.taskId ∧
      ∃ run, (loadTasks tasks s).summaryRun = some run ∧
        run.status = summaryStatusFromTaskStatus task.status := by
  obtain ⟨task, htask, hid, hkind, hload⟩ := exists_loadTaskById hok h hsome
  refine ⟨task, htask, hid, ?_⟩
  have hspec := (hok.kind task htask).trans hkind
  cases hrequest : task.spec with
  | summaryBootstrap request =>
    refine ⟨⟨task.taskId, initSessionId, request, summaryStatusFromTaskStatus task.status,
      task.error⟩, ?_, rfl⟩
    show (loadSummaryTaskById tasks s.summaryBootstrapTaskId).bind summaryRunFromTask = _
    rw [loadSummaryTaskById, hload, Option.filter_some, if_pos (decide_eq_true hkind),
      Option.bind_some, summaryRunFromTask, hrequest, hok.session task htask]
  | sync _ | ingest _ | embeddingsBootstrap _ => rw [hrequest] at hspec; cases hspec

/-- The status of a task that is in the queue comes from there. -/
theorem effectiveTaskStatus_eq (hok : TasksOk initSessionId tasks) (h : Points tasks kind taskId)
    {terminal : Option InitSessionTaskTerminalSnapshot}
    (hterminal : terminal.isSome → taskId.isSome) :
    effectiveTaskStatus (loadTaskById tasks taskId) terminal =
      (loadTaskById tasks taskId).map (·.status) := by
  unfold effectiveTaskStatus
  cases hid : taskId.isSome with
  | true =>
    obtain ⟨task, -, -, -, hload⟩ := exists_loadTaskById hok h hid
    rw [hload]
    rfl
  | false =>
    rw [Option.isSome_eq_false_iff, Option.isNone_iff_eq_none] at hid
    subst hid
    cases terminal with
    | none => rfl
    | some _ => exact absurd (hterminal rfl) Bool.false_ne_true

/-! ## The bootstraps of a record -/

variable {b : Bootstrap}

theorem RecordOk.bootstrap (h : RecordOk tasks s) (b : Bootstrap) :
    Points tasks b.kind (b.taskId s) := by
  cases b with
  | embeddings => exact h.embeddings
  | summaries => exact h.summary

theorem RecordOk.isCompleted (h : RecordOk tasks s) (hsome : (b.completionSeq s).isSome) :
    IsCompleted tasks (b.taskId s) := by
  cases b with
  | embeddings => exact h.embeddingsSeq hsome
  | summaries => exact h.summarySeq hsome

theorem HasSelected.bootstrap (h : HasSelected s) (hselected : b.selected s) :
    (b.taskId s).isSome := by
  cases b with
  | embeddings => exact h.embeddings hselected
  | summaries => exact h.summary hselected

theorem SameTasks.bootstrap {s' : InitSessionRecord} (h : SameTasks s s') :
    b.taskId s' = b.taskId s ∧ b.selected s' = b.selected s := by
  cases b with
  | embeddings => exact ⟨h.embeddings, by rw [Bootstrap.selected, h.selections]; rfl⟩
  | summaries => exact ⟨h.summary, by rw [Bootstrap.selected, h.selections]; rfl⟩

theorem SameSeqs.bootstrap {s' : InitSessionRecord} (h : SameSeqs s s') :
    b.completionSeq s' = b.completionSeq s := by
  cases b with
  | embeddings => exact h.embeddings
  | summaries => exact h.summary

/-- The completion of a bootstrap that is reported has a number afterwards. -/
theorem isSome_completionSeq (hok : TasksOk initSessionId tasks) (h : RecordOk tasks s)
    (hstatus : task.status = .completed) (hid : b.taskId s = some task.taskId) :
    (b.completionSeq (recordTaskCompletionSeq s task)).isSome := by
  cases b with
  | embeddings => exact isSome_embeddingsBootstrapCompletionSeq hok h hstatus hid
  | summaries => exact isSome_summaryBootstrapCompletionSeq hok h hstatus hid

/-- The number of a bootstrap is kept, or is the next one. -/
theorem completionSeq_cases (s : InitSessionRecord) (task : DevqlTaskRecord) (b : Bootstrap) :
    b.completionSeq (recordTaskCompletionSeq s task) = b.completionSeq s ∨
      b.completionSeq s = none ∧
        b.completionSeq (recordTaskCompletionSeq s task) = some (s.nextCompletionSeq + 1) := by
  rcases recordTaskCompletionSeq_cases s task with
    heq | ⟨-, -, -, heq⟩ | ⟨-, -, -, heq⟩ | ⟨-, -, hnone, heq⟩ | ⟨-, -, hnone, heq⟩ <;> rw [heq]
  · exact .inl rfl
  · exact .inl (by cases b <;> rfl)
  · exact .inl (by cases b <;> rfl)
  · cases b with
    | embeddings => exact .inr ⟨hnone, rfl⟩
    | summaries => exact .inl rfl
  · cases b with
    | embeddings => exact .inl rfl
    | summaries => exact .inr ⟨hnone, rfl⟩

/-- A follow-up sync gets the next number, and then no bootstrap does. -/
theorem followUpSyncCompletionSeq_cases (s : InitSessionRecord)
    (task : DevqlTaskRecord) :
    (recordTaskCompletionSeq s task).followUpSyncCompletionSeq = s.followUpSyncCompletionSeq ∨
      task.status = .completed ∧ s.followUpSyncTaskId = some task.taskId ∧
        (recordTaskCompletionSeq s task).followUpSyncCompletionSeq =
          some (s.nextCompletionSeq + 1) ∧
        ∀ b : Bootstrap,
          b.completionSeq (recordTaskCompletionSeq s task) = b.completionSeq s := by
  rcases recordTaskCompletionSeq_cases s task with
    heq | ⟨-, -, -, heq⟩ | ⟨hstatus, -, hid, heq⟩ | ⟨-, -, -, heq⟩ | ⟨-, -, -, heq⟩ <;> rw [heq]
  · exact .inl rfl
  · exact .inl rfl
  · exact .inr ⟨hstatus, hid, rfl, fun b => by cases b <;> rfl⟩
  · exact .inl rfl
  · exact .inl rfl

/-- If the bootstraps are not ready, one of them is not completed in the queue. -/
theorem exists_not_isCompleted (hok : TasksOk initSessionId tasks) (h : RecordOk tasks s)
    (hselected : HasSelected s) (hready : semanticBootstrapsReady s (loadTasks tasks s) = false) :
    ∃ b : Bootstrap, b.selected s ∧ ¬ IsCompleted tasks (b.taskId s) := by
  simp only [semanticBootstrapsReady, Bool.and_eq_false_iff, Bool.or_eq_false_iff,
    Bool.not_eq_false'] at hready
  rcases hready with ⟨hsome, hstatus⟩ | ⟨hsome, hstatus⟩
  · refine ⟨.embeddings, hsome, ?_⟩
    rintro ⟨task, htask, hid, hcompleted⟩
    have hload := (loadTaskById_eq_some hok).mpr ⟨htask, rfl⟩
    rw [← hid] at hload
    change loadTaskById tasks s.embeddingsBootstrapTaskId = some task at hload
    simp [embeddingsBootstrapStatus, effectiveTaskStatus, loadTasks, hload, hcompleted] at hstatus
  · refine ⟨.summaries, hsome, ?_⟩
    rintro ⟨task, htask, hid, hcompleted⟩
    obtain ⟨task', htask', hid', run, hrun, hstatus'⟩ :=
      exists_summaryRun hok h.summary (hselected.summary hsome)
    obtain rfl := eq_of_taskId_eq hok htask htask' (Option.some.inj (hid.symm.trans hid'))
    rw [hcompleted] at hstatus'
    simp [summaryBootstrapStatus, hrun, hstatus', summaryStatusFromTaskStatus] at hstatus

end Record

end InitRuntime
end Bitloops
