import Bitloops.InitRuntime.WorldInvariant
import Mathlib

/-!
# No completion of a session is lost

When the tasks of a session have ended and no handler is left, nothing happens to the session any
more.  What it then waits for, it waits for for ever: a staged ingest that was not enqueued, or a
follow-up sync that is pending.

A completion is lost when it is reported before `start_session` has stored the record.  Later
completions are not: as long as a follow-up sync is due, some handler is on its way to enqueue it,
or a sync is live whose completion will be reported.

* `RecordsCompletions`: the completions that a session depends on are not reported too early.
* `settled_of_recordsCompletions`: in a run in which they are not, no session waits for ever.
* `completion_lost`: a run in which the initial sync is completed before the record is stored.
-/

namespace Bitloops
namespace InitRuntime

open Daemon

/-! ## What a session waits for -/

/-- No task is queued or running, none has failed, and no step is in progress. -/
structure Quiescent (w : World) : Prop where
  starting : w.starting = none
  handlers : w.handlers = []
  completed : ∀ task ∈ w.tasks, task.status = .completed

/-- The staged ingest has been enqueued, and no follow-up sync is pending. -/
structure Settled (w : World) : Prop where
  ingest : w.record.selections.runIngest →
    ∃ task ∈ w.tasks, w.record.ingestTaskId = some task.taskId ∧ task.kind = .ingest
  followUp : (w.record.followUpSyncRequired &&
    semanticFollowUpPending w.record (loadTasks w.tasks w.record)) = false

/-- A completed report of the task is still to be handled. -/
def ReportPending (w : World) (taskId : Option String) : Prop :=
  ∃ h ∈ w.handlers, ∃ task, h = .report task ∧ task.status = .completed ∧
    taskId = some task.taskId

/-- The bootstrap is completed, but its completion was reported in vain. -/
def CompletionLost (w : World) (b : Bootstrap) : Prop :=
  IsCompleted w.tasks (b.taskId w.record) ∧ b.completionSeq w.record = none ∧
    ¬ ReportPending w (b.taskId w.record)

/-- The completion of the initial sync is not reported before the record is stored, if an ingest
waits for it; and when it makes a follow-up sync necessary, no completion of a bootstrap has been
reported in vain. -/
def RecordsCompletions (w : World) : Op → Prop
  | .handle _ _ =>
    ∀ task ∈ w.nextReport, task.status = .completed →
      w.record.initialSyncTaskId = some task.taskId →
        (w.starting ≠ none → w.record.selections.runIngest = false) ∧
          (w.starting = none →
            (∃ b : Bootstrap, b.selected w.record ∧ ¬ IsCompleted w.tasks (b.taskId w.record)) →
              ∀ b : Bootstrap, b.selected w.record → ¬ CompletionLost w b)
  | _ => True

/-! ## Tasks that have not failed -/

/-- No task has failed; a task that was cancelled counts as one that has. -/
def NoneFailed (tasks : List DevqlTaskRecord) : Prop :=
  ∀ task ∈ tasks, taskStatusIsFailed task.status = false

/-- A selected bootstrap was completed after the last sync. -/
def AfterSyncs (s : InitSessionRecord) : Prop :=
  ∃ b : Bootstrap, b.selected s ∧ completedAfterSyncs s (b.completionSeq s) = true

section NoneFailed

variable {tasks tasks' : List DevqlTaskRecord} {s : InitSessionRecord} {initSessionId : String}
  {kind : DevqlTaskKind} {taskId : Option String}

theorem NoneFailed.of_evolves (h : NoneFailed tasks') (hevolves : Evolves tasks tasks') :
    NoneFailed tasks := by
  intro task htask
  obtain ⟨task', htask', -, -, hstatus⟩ := hevolves task htask
  cases hlive : task.status.isLive with
  | true => cases hs : task.status <;> rw [hs] at hlive <;> first | rfl | cases hlive
  | false => exact hstatus hlive ▸ h task' htask'

/-- The status of a task of the record is not a failure. -/
theorem status_not_failed (hok : TasksOk initSessionId tasks) (hnone : NoneFailed tasks)
    (h : Points tasks kind taskId) {terminal : Option InitSessionTaskTerminalSnapshot}
    (hterminal : terminal.isSome → taskId.isSome) (seq : Option ℕ) :
    ((effectiveTaskStatus (loadTaskById tasks taskId) terminal).or
      (seq.map fun _ => .completed)).any taskStatusIsFailed = false := by
  rw [effectiveTaskStatus_eq hok h hterminal]
  cases hload : loadTaskById tasks taskId with
  | some task =>
    obtain ⟨id, -, hfound⟩ := Option.bind_eq_some_iff.mp hload
    exact hnone task (mem_of_findRow hfound).1
  | none => cases seq <;> rfl

theorem embeddingsFailed_eq_false (hok : TasksOk initSessionId tasks) (hnone : NoneFailed tasks)
    (h : RecordOk tasks s) : embeddingsFailed s (loadTasks tasks s) = false :=
  status_not_failed hok hnone h.embeddings h.terminals.embeddings _

theorem summariesFailed_eq_false (hok : TasksOk initSessionId tasks) (hnone : NoneFailed tasks)
    (h : RecordOk tasks s) : summariesFailed s (loadTasks tasks s) = false := by
  unfold summariesFailed summaryBootstrapStatus
  cases hid : s.summaryBootstrapTaskId.isSome with
  | true =>
    obtain ⟨task, htask, -, run, hrun, hstatus⟩ := exists_summaryRun hok h.summary hid
    have hfailed := hnone task htask
    rw [hrun]
    show decide (run.status = .failed) = false
    rw [hstatus]
    cases hs : task.status <;> rw [hs] at hfailed <;> first | rfl | cases hfailed
  | false =>
    have hterminal : s.summaryBootstrapTerminal = none := by
      cases hterminal : s.summaryBootstrapTerminal with
      | none => rfl
      | some _ =>
        rw [h.terminals.summary (by rw [hterminal]; rfl)] at hid
        cases hid
    rw [Option.isSome_eq_false_iff, Option.isNone_iff_eq_none] at hid
    have hrun : (loadTasks tasks s).summaryRun = none := by
      show (loadSummaryTaskById tasks s.summaryBootstrapTaskId).bind summaryRunFromTask = none
      rw [hid]
      rfl
    rw [hrun, hterminal]
    cases s.summaryBootstrapCompletionSeq <;> rfl

theorem someTaskFailed_eq_false (hok : TasksOk initSessionId tasks) (hnone : NoneFailed tasks)
    (h : RecordOk tasks s) : someTaskFailed s (loadTasks tasks s) = false := by
  have hingest := status_not_failed hok hnone h.ingest h.terminals.ingest none
  rw [Option.map_none, Option.or_none] at hingest
  simp only [someTaskFailed, Bool.or_eq_false_iff]
  exact ⟨⟨⟨⟨status_not_failed hok hnone h.initialSync h.terminals.initialSync _, hingest⟩,
    status_not_failed hok hnone h.followUp h.terminals.followUp _⟩,
    embeddingsFailed_eq_false hok hnone h⟩, summariesFailed_eq_false hok hnone h⟩

/-- Without failures, a follow-up sync is ready exactly when a bootstrap is after the syncs. -/
theorem semanticFollowUpReadyForSync_iff (hok : TasksOk initSessionId tasks)
    (hnone : NoneFailed tasks) (h : RecordOk tasks s) (hrequired : s.followUpSyncRequired = true) :
    semanticFollowUpReadyForSync s (loadTasks tasks s) = true ↔ AfterSyncs s := by
  simp only [semanticFollowUpReadyForSync, embeddingsFollowUpPending, summariesFollowUpPending,
    hrequired, embeddingsFailed_eq_false hok hnone h, summariesFailed_eq_false hok hnone h,
    Bool.not_false, Bool.and_true, Bool.true_and, Bool.or_eq_true, Bool.and_eq_true]
  constructor
  · rintro (hb | hb)
    · exact ⟨.embeddings, hb⟩
    · exact ⟨.summaries, hb⟩
  · rintro ⟨b, hb⟩
    cases b with
    | embeddings => exact .inl hb
    | summaries => exact .inr hb

/-- A follow-up sync that is ready is enqueued, unless the last one is still running. -/
theorem exists_live_of_not_due (hok : TasksOk initSessionId tasks) (hnone : NoneFailed tasks)
    (h : RecordOk tasks s) (hrequired : s.followUpSyncRequired = true) (hafter : AfterSyncs s)
    (hdue : followUpSyncDue s (loadTasks tasks s) = false) :
    ∃ task ∈ tasks, task.status.isLive = true := by
  obtain ⟨initial, hinitial, hid, hstatus⟩ := h.initialSeq (h.required hrequired)
  have hload := (loadTaskById_eq_some hok).mpr ⟨hinitial, rfl⟩
  rw [← hid] at hload
  have hterminal : selectedSyncTerminal s (loadTasks tasks s) = true := by
    simp [selectedSyncTerminal, initialSyncStatus, effectiveTaskStatus, loadTasks, hload, hstatus,
      taskStatusIsTerminal]
  simp only [followUpSyncDue, hterminal, someTaskFailed_eq_false hok hnone h,
    (semanticFollowUpReadyForSync_iff hok hnone h hrequired).mpr hafter, Bool.not_false,
    Bool.and_true, Bool.true_and, Option.isNone_eq_false_iff] at hdue
  obtain ⟨task, htask⟩ := Option.isSome_iff_exists.mp hdue
  obtain ⟨hload, hrunning⟩ := Option.filter_eq_some_iff.mp htask
  obtain ⟨id, -, hfound⟩ := Option.bind_eq_some_iff.mp hload
  refine ⟨task, (mem_of_findRow hfound).1, ?_⟩
  rw [of_decide_eq_true hrunning]
  rfl

end NoneFailed

/-! ## The invariant -/

/-- The handler is on its way to look whether a follow-up sync is due, or has found one to be. -/
def Handler.Leads : Handler → Prop
  | .loadTasks s => AfterSyncs s
  | .storeFollowUp _ => False
  | .report _ | .enqueueIngest | .storeIngest _ | .loadSession | .enqueueFollowUp => True

/-- Nothing that the session waits for has been forgotten. -/
structure Progressing (w : World) : Prop where
  initialSync : w.record.selections.runIngest → IsCompleted w.tasks w.record.initialSyncTaskId →
    w.record.initialSyncCompletionSeq.isSome ∨ ReportPending w w.record.initialSyncTaskId
  ingest : w.record.selections.runIngest → w.record.initialSyncCompletionSeq.isSome →
    w.record.ingestTaskId.isSome ∨ .enqueueIngest ∈ w.handlers ∨
      ∃ taskId, .storeIngest taskId ∈ w.handlers
  bootstraps : w.record.followUpSyncRequired → ∀ b : Bootstrap, b.selected w.record →
    IsCompleted w.tasks (b.taskId w.record) →
      (b.completionSeq w.record).isSome ∨ ReportPending w (b.taskId w.record)
  followUp : NoneFailed w.tasks → w.record.followUpSyncRequired → AfterSyncs w.record →
    (∃ h ∈ w.handlers, h.Leads) ∨ ∃ task ∈ w.tasks, task.status.isLive = true

section Steps

variable {w w' : World} {op : Op} {id : String} {now : ℕ} {taskId : Option String}

theorem ReportPending.of_subset (h : ReportPending w taskId)
    (hsubset : ∀ task, .report task ∈ w.handlers → .report task ∈ w'.handlers) :
    ReportPending w' taskId := by
  obtain ⟨_, hmem, task, rfl, hstatus, hid⟩ := h
  exact ⟨_, hsubset task hmem, task, rfl, hstatus, hid⟩

/-- What is completed after a publication was completed before, or is what is published. -/
def CompletesOnly (w w' : World) (task : DevqlTaskRecord) : Prop :=
  ∀ taskId, IsCompleted w'.tasks taskId → IsCompleted w.tasks taskId ∨
    task.status = .completed ∧ taskId = some task.taskId

theorem completesOnly_of_mutation {task : DevqlTaskRecord}
    {f : DevqlTaskRecord → DevqlTaskRecord} (hmutation : Mutation w w' task f)
    (hok : TasksOk w.record.initSessionId w.tasks) : CompletesOnly w w' (f task) := by
  rintro _ ⟨completed, hmem, rfl, hstatus⟩
  rw [hmutation.tasks] at hmem
  obtain ⟨old, hold, rfl⟩ := List.mem_map.mp hmem
  by_cases hid : old.taskId = task.taskId
  · obtain rfl := eq_of_taskId_eq hok hold hmutation.mem hid
    rw [if_pos rfl] at hstatus ⊢
    exact .inr ⟨hstatus, rfl⟩
  · rw [if_neg hid] at hstatus ⊢
    exact .inl ⟨old, hold, rfl, hstatus⟩

theorem completesOnly_of_enqueued {spec : DevqlTaskSpec} {initSessionId : String}
    {task : DevqlTaskRecord} (h : Enqueued spec initSessionId w.tasks w'.tasks task) :
    CompletesOnly w w' task := by
  rintro _ ⟨completed, hmem, rfl, hstatus⟩
  rcases h.origin with hdata | ⟨-, -, -, -, heq⟩
  · obtain ⟨old, hold, heq⟩ := mem_map_taskData hdata.symm hmem
    simp only [taskData, TaskData.mk.injEq] at heq
    exact .inl ⟨old, hold, by rw [heq.1], heq.2.2.2.2.trans hstatus⟩
  · rw [heq] at hmem
    rcases List.mem_append.mp hmem with hmem | hmem
    · exact .inl ⟨completed, hmem, rfl, hstatus⟩
    · rw [List.mem_singleton] at hmem
      exact .inr ⟨hmem ▸ hstatus, by rw [hmem]⟩

/-- **A publication forgets nothing.** -/
theorem Progressing.publish {task : DevqlTaskRecord} (hp : Progressing w)
    (hcompletes : CompletesOnly w w' task) (hrecord : w'.record = w.record)
    (hhandlers : w'.handlers = w.handlers ++ [.report task]) : Progressing w' := by
  have hsubset : ∀ h, h ∈ w.handlers → h ∈ w'.handlers := by
    rw [hhandlers]
    exact fun h hmem => List.mem_append_left _ hmem
  have hreport : .report task ∈ w'.handlers := by
    rw [hhandlers]
    exact List.mem_concat_self
  have hpending {p : Prop} {taskId : Option String} (hold : IsCompleted w.tasks taskId →
      p ∨ ReportPending w taskId) (hcompleted : IsCompleted w'.tasks taskId) :
      p ∨ ReportPending w' taskId := by
    rcases hcompletes taskId hcompleted with hcompleted | ⟨hstatus, hid⟩
    · exact (hold hcompleted).imp_right fun h => h.of_subset fun task => hsubset _
    · exact .inr ⟨_, hreport, task, rfl, hstatus, hid⟩
  refine ⟨?_, ?_, ?_, fun _ _ _ => .inl ⟨_, hreport, trivial⟩⟩
  · rw [hrecord]
    exact fun hrun => hpending (hp.initialSync hrun)
  · rw [hrecord]
    intro hrun hseq
    exact (hp.ingest hrun hseq).imp_right fun h => h.imp (hsubset _) fun ⟨id, hmem⟩ =>
      ⟨id, hsubset _ hmem⟩
  · rw [hrecord]
    exact fun hrequired b hb => hpending (hp.bootstraps hrequired b hb)

/-- Handlers may be added, and one that only waits may go. -/
theorem Progressing.of_handlers {handlers : List Handler} (hp : Progressing w)
    (hreports : ∀ task, .report task ∈ w.handlers → .report task ∈ handlers)
    (hingest : (.enqueueIngest ∈ w.handlers ∨ ∃ id, .storeIngest id ∈ w.handlers) →
      .enqueueIngest ∈ handlers ∨ ∃ id, .storeIngest id ∈ handlers)
    (hleads : NoneFailed w.tasks → w.record.followUpSyncRequired → AfterSyncs w.record →
      (∃ h ∈ w.handlers, h.Leads) → (∃ h ∈ handlers, h.Leads) ∨
        ∃ task ∈ w.tasks, task.status.isLive = true) :
    Progressing { w with handlers } where
  initialSync hrun hcompleted := (hp.initialSync hrun hcompleted).imp_right fun h =>
    h.of_subset hreports
  ingest hrun hseq := (hp.ingest hrun hseq).imp_right hingest
  bootstraps hrequired b hb hcompleted := (hp.bootstraps hrequired b hb hcompleted).imp_right
    fun h => h.of_subset hreports
  followUp hnone hrequired hafter := (hp.followUp hnone hrequired hafter).elim
    (hleads hnone hrequired hafter) .inr

/-- A report that is not the one that is handled is still pending. -/
theorem ReportPending.tail {task : DevqlTaskRecord} {rest : List Handler}
    (h : ReportPending w taskId) (hhandlers : w.handlers = .report task :: rest) :
    (task.status = .completed ∧ taskId = some task.taskId) ∨
      ∀ w' : World, (∀ h ∈ rest, h ∈ w'.handlers) → ReportPending w' taskId := by
  obtain ⟨h, hmem, reported, rfl, hstatus, hid⟩ := h
  rw [hhandlers] at hmem
  rcases List.mem_cons.mp hmem with heq | hmem
  · obtain rfl := Handler.report.inj heq
    exact .inl ⟨hstatus, hid⟩
  · exact .inr fun w' hrest => ⟨_, hrest _ hmem, reported, rfl, hstatus, hid⟩

/-- **A report forgets nothing**, if no completion that a follow-up sync waits for is lost. -/
theorem progressing_report {task : DevqlTaskRecord} {rest : List Handler} (hp : Progressing w)
    (hw : WellFormed w) (hhandlers : w.handlers = .report task :: rest)
    (hstored : w.starting = none) (hrecords : RecordsCompletions w (.handle id now)) :
    Progressing
      { w with
        record := (recordTaskUpdate w.tasks w.record task).1
        handlers :=
          (if (recordTaskUpdate w.tasks w.record task).2 then Handler.enqueueIngest
            else .loadSession) :: rest } := by
  have hreported : Reported w.tasks task :=
    hw.handlers (.report task) (hhandlers ▸ List.mem_cons_self)
  have hrecorded : Recorded w.tasks w.record task (recordTaskUpdate w.tasks w.record task).1 :=
    recordTaskUpdate_recorded
  have hingest := recordTaskUpdate_enqueueIngest w.tasks w.record task
  have hnext : w.nextReport = some task := by rw [World.nextReport, hhandlers]
  generalize (recordTaskUpdate w.tasks w.record task).1 = s' at hrecorded ⊢
  generalize (recordTaskUpdate w.tasks w.record task).2 = enqueueIngest at hingest ⊢
  obtain ⟨hsame, hseqs, -, hrequired⟩ := hrecorded
  have hbootstrap {b : Bootstrap} (hold : (b.completionSeq w.record).isSome ∨
      ReportPending w (b.taskId w.record)) : (b.completionSeq s').isSome ∨
        ∀ w' : World, (∀ h ∈ rest, h ∈ w'.handlers) → ReportPending w' (b.taskId w.record) := by
    rw [hseqs.bootstrap]
    rcases hold with hsome | hpending
    · rcases completionSeq_cases w.record task b with heq | ⟨-, heq⟩
      · exact .inl (heq ▸ hsome)
      · exact .inl (heq ▸ rfl)
    · rcases hpending.tail hhandlers with ⟨hstatus, hid⟩ | hrest
      · exact .inl (isSome_completionSeq hw.tasks hw.record hstatus hid)
      · exact .inr hrest
  refine ⟨fun hrun hcompleted => ?_, fun hrun hseq => ?_, fun hr b hb hcompleted => ?_,
    fun _ _ _ => .inl ⟨_, List.mem_cons_self, ?_⟩⟩
  · show s'.initialSyncCompletionSeq.isSome ∨ _
    rw [show s'.initialSyncTaskId = w.record.initialSyncTaskId from hsame.initialSync] at hcompleted ⊢
    rw [hseqs.initialSync]
    rcases hp.initialSync (hsame.selections ▸ hrun) hcompleted with hsome | hpending
    · obtain ⟨n, hn⟩ := Option.isSome_iff_exists.mp hsome
      rw [initialSyncCompletionSeq_mono hn]
      exact .inl rfl
    · rcases hpending.tail hhandlers with ⟨hstatus, hid⟩ | hrest
      · exact .inl (isSome_initialSyncCompletionSeq hstatus hid)
      · exact .inr (hrest _ fun h hmem => List.mem_cons_of_mem _ hmem)
  · change s'.selections.runIngest = true at hrun
    change s'.initialSyncCompletionSeq.isSome at hseq
    show s'.ingestTaskId.isSome ∨ _
    rw [hsame.selections] at hrun
    rw [hseqs.initialSync] at hseq
    rw [hsame.ingest]
    rcases initialSyncCompletionSeq_cases w.record task with heq | ⟨hstatus, hid⟩
    · refine (hp.ingest hrun (heq ▸ hseq)).imp_right fun h => ?_
      rw [hhandlers] at h
      rcases h with hmem | ⟨ingestId, hmem⟩
      · exact .inl (List.mem_cons_of_mem _ ((List.mem_cons.mp hmem).resolve_left nofun))
      · exact .inr ⟨ingestId, List.mem_cons_of_mem _ ((List.mem_cons.mp hmem).resolve_left nofun)⟩
    · cases hnone : w.record.ingestTaskId with
      | some _ => exact .inl rfl
      | none =>
        have henqueue := hingest.mpr ⟨⟨by rw [hid]; rfl, hstatus⟩, hrun, hnone⟩
        rw [henqueue]
        exact .inr (.inl List.mem_cons_self)
  · change IsCompleted w.tasks (b.taskId s') at hcompleted
    change b.selected s' = true at hb
    show (b.completionSeq s').isSome ∨ ReportPending _ (b.taskId s')
    rw [hsame.bootstrap.1] at hcompleted ⊢
    rw [hsame.bootstrap.2] at hb
    refine (hbootstrap ?_).imp_right fun h => h _ fun h hmem => List.mem_cons_of_mem _ hmem
    rcases hrequired hr with hr | ⟨hstatus, hid, hready⟩
    · exact hp.bootstraps hr b hb hcompleted
    · -- the requirement is new, and no completion has been lost before
      have hrecorded' : Recorded w.tasks w.record task (recordedTask w.record task) :=
        recordedTask_recorded
      obtain ⟨b', hselected, hnot⟩ := exists_not_isCompleted hw.tasks
        (hrecorded'.recordOk hw.tasks hw.record hreported)
        ((hw.stored hstored).of_sameTasks hrecorded'.sameTasks) hready
      rw [hrecorded'.sameTasks.bootstrap.1] at hnot
      rw [hrecorded'.sameTasks.bootstrap.2] at hselected
      have hinitial := hreported.eq_initialSync hw.tasks hid
      have hlost := (hrecords task hnext hstatus hinitial).2 hstored ⟨b', hselected, hnot⟩ b hb
      cases hseq : b.completionSeq w.record with
      | some _ => exact .inl rfl
      | none =>
        exact .inr (Classical.not_not.mp fun hnot => hlost ⟨hcompleted, hseq, hnot⟩)
  · cases enqueueIngest <;> trivial

/-- Before the record is stored, only the completion of the initial sync can be forgotten. -/
theorem progressing_of_starting {specs : List DevqlTaskSpec} (h : Starting specs w.record)
    (hinitial : w.record.selections.runIngest → IsCompleted w.tasks w.record.initialSyncTaskId →
      ReportPending w w.record.initialSyncTaskId) : Progressing w where
  initialSync hrun hcompleted := .inr (hinitial hrun hcompleted)
  ingest _ hseq := by
    rw [h.initialSeq] at hseq
    cases hseq
  bootstraps hrequired := by
    rw [h.required] at hrequired
    cases hrequired
  followUp _ hrequired := by
    rw [h.required] at hrequired
    cases hrequired

theorem Progressing.reportPending {specs : List DevqlTaskSpec} (hp : Progressing w)
    (h : Starting specs w.record) (hrun : w.record.selections.runIngest = true)
    (hcompleted : IsCompleted w.tasks w.record.initialSyncTaskId) :
    ReportPending w w.record.initialSyncTaskId := by
  refine (hp.initialSync hrun hcompleted).resolve_left ?_
  rw [h.initialSeq]
  exact Bool.false_ne_true

/-- A handler enqueues a task and then holds its id. -/
theorem progressing_enqueue {spec : DevqlTaskSpec} {h h' : Handler} {rest : List Handler}
    {w₁ : World} {task : DevqlTaskRecord} (hp : Progressing w) (hhandlers : w.handlers = h :: rest)
    (hreport : ∀ task, h ≠ .report task)
    (hingest : (h = .enqueueIngest ∨ ∃ id, h = .storeIngest id) → ∃ id, h' = .storeIngest id)
    (henqueue : enqueue spec id now { w with handlers := rest } = some (w₁, task)) :
    Progressing { w₁ with handlers := h' :: w₁.handlers } := by
  obtain ⟨henqueued, heq⟩ := enqueue_cases henqueue
  have hpublished : Progressing
      { w with tasks := w₁.tasks, handlers := w.handlers ++ [.report task] } :=
    hp.publish (completesOnly_of_enqueued henqueued) rfl rfl
  rw [heq]
  rw [hhandlers] at hpublished
  have htail {h'' : Handler} (hmem : h'' ∈ h :: rest ++ [.report task]) (hne : h'' ≠ h) :
      h'' ∈ h' :: (rest ++ [.report task]) :=
    List.mem_cons_of_mem _ ((List.mem_cons.mp hmem).resolve_left hne)
  refine hpublished.of_handlers (fun reported hmem => htail hmem (hreport reported).symm) ?_ ?_
  · intro hmem
    by_cases hstores : h = .enqueueIngest ∨ ∃ id, h = .storeIngest id
    · obtain ⟨ingestId, rfl⟩ := hingest hstores
      exact .inr ⟨ingestId, List.mem_cons_self⟩
    · have hstores := not_or.mp hstores
      refine hmem.imp (fun hmem => htail hmem (Ne.symm hstores.1)) fun ⟨ingestId, hmem⟩ => ?_
      exact ⟨ingestId, htail hmem fun heq => hstores.2 ⟨ingestId, heq.symm⟩⟩
  · exact fun _ _ _ _ => .inl ⟨.report task, List.mem_cons_of_mem _ List.mem_concat_self, trivial⟩

theorem progressing_handle {h : Handler} {rest : List Handler} (hp : Progressing w)
    (hw : WellFormed w) (hhandlers : w.handlers = h :: rest)
    (hrecords : RecordsCompletions w (.handle id now))
    (hstep : handlerStep id now { w with handlers := rest } h = some w') : Progressing w' := by
  have hok := hw.handlers h (hhandlers ▸ List.mem_cons_self)
  -- a handler other than the first one is not touched
  have hrest {h' : Handler} (hmem : h' ∈ w.handlers) (hne : h' ≠ h) : h' ∈ rest := by
    rw [hhandlers] at hmem
    exact (List.mem_cons.mp hmem).resolve_left hne
  cases h with
  | report task =>
    rw [handlerStep] at hstep
    by_cases hstored : w.starting = none
    · rw [if_pos hstored] at hstep
      obtain rfl := Option.some.inj hstep
      have hreport : Progressing
          { w with
            record := (recordTaskUpdate w.tasks w.record task).1
            handlers :=
              (if (recordTaskUpdate w.tasks w.record task).2 then Handler.enqueueIngest
                else .loadSession) :: rest } :=
        progressing_report hp hw hhandlers hstored hrecords
      exact hreport
    · rw [if_neg hstored] at hstep
      obtain rfl := Option.some.inj hstep
      obtain ⟨specs, hspecs⟩ := Option.ne_none_iff_exists'.mp hstored
      have hstarting := hw.starting specs hspecs
      refine progressing_of_starting hstarting fun hrun hcompleted => ?_
      rcases (hp.reportPending hstarting hrun hcompleted).tail hhandlers with
        ⟨hstatus, hid⟩ | hpending
      · have hnext : w.nextReport = some task := by rw [World.nextReport, hhandlers]
        have hnot := (hrecords task hnext hstatus hid).1 hstored
        rw [hrun] at hnot
        cases hnot
      · exact hpending _ fun h' hmem => List.mem_cons_of_mem _ hmem
  | enqueueIngest =>
    simp only [handlerStep, Option.bind_eq_bind, Option.bind_eq_some_iff, Prod.exists] at hstep
    obtain ⟨w₁, task, henqueue, hstep⟩ := hstep
    obtain rfl := Option.some.inj hstep
    have hstore : Progressing { w₁ with handlers := .storeIngest task.taskId :: w₁.handlers } :=
      progressing_enqueue hp hhandlers (fun _ => (by rintro ⟨⟩)) (fun _ => ⟨task.taskId, rfl⟩)
        henqueue
    exact hstore
  | storeIngest ingestTaskId =>
    obtain rfl := Option.some.inj hstep
    have hsubset : ∀ task, .report task ∈ w.handlers → .report task ∈ Handler.loadSession :: rest :=
      fun task hmem => List.mem_cons_of_mem _ (hrest hmem (by rintro ⟨⟩))
    exact
      { initialSync := fun hrun hcompleted =>
          (hp.initialSync hrun hcompleted).imp_right fun h => h.of_subset hsubset
        ingest := fun _ _ => .inl rfl
        bootstraps := fun hrequired b hb hcompleted => by
          have hold := hp.bootstraps hrequired b (by cases b <;> exact hb)
            (by cases b <;> exact hcompleted)
          cases b <;> exact hold.imp_right fun h => h.of_subset hsubset
        followUp := fun _ _ _ => .inl ⟨_, List.mem_cons_self, trivial⟩ }
  | loadSession =>
    have hingest {handlers : List Handler} (hsubset : ∀ h ∈ rest, h ∈ handlers) :
        (.enqueueIngest ∈ w.handlers ∨ ∃ id, .storeIngest id ∈ w.handlers) →
          .enqueueIngest ∈ handlers ∨ ∃ id, .storeIngest id ∈ handlers :=
      fun h => h.imp (fun hmem => hsubset _ (hrest hmem (by rintro ⟨⟩)))
        (Exists.imp fun _ hmem => hsubset _ (hrest hmem (by rintro ⟨⟩)))
    simp only [handlerStep] at hstep
    split_ifs at hstep with hload
    · obtain rfl := Option.some.inj hstep
      refine hp.of_handlers (fun task hmem => List.mem_cons_of_mem _ (hrest hmem (by rintro ⟨⟩)))
        (hingest fun h hmem => List.mem_cons_of_mem _ hmem) fun _ _ hafter _ => ?_
      exact .inl ⟨_, List.mem_cons_self, hafter⟩
    · obtain rfl := Option.some.inj hstep
      refine hp.of_handlers (fun task hmem => hrest hmem (by rintro ⟨⟩))
        (hingest fun h hmem => hmem) ?_
      intro _ hrequired
      refine absurd ⟨?_, hrequired⟩ hload
      cases hstarting : w.starting with
      | none => rfl
      | some specs =>
        rw [(hw.starting specs hstarting).required] at hrequired
        cases hrequired
  | loadTasks s =>
    have hingest {handlers : List Handler} (hsubset : ∀ h ∈ rest, h ∈ handlers) :
        (.enqueueIngest ∈ w.handlers ∨ ∃ id, .storeIngest id ∈ w.handlers) →
          .enqueueIngest ∈ handlers ∨ ∃ id, .storeIngest id ∈ handlers :=
      fun h => h.imp (fun hmem => hsubset _ (hrest hmem (by rintro ⟨⟩)))
        (Exists.imp fun _ hmem => hsubset _ (hrest hmem (by rintro ⟨⟩)))
    obtain ⟨-, hrecord, -, hrequired, -, -⟩ := hok
    rw [handlerStep] at hstep
    by_cases hdue : followUpSyncDue s (loadTasks w.tasks s) = true
    · rw [if_pos hdue] at hstep
      obtain rfl := Option.some.inj hstep
      refine hp.of_handlers (fun task hmem => List.mem_cons_of_mem _ (hrest hmem (by rintro ⟨⟩)))
        (hingest fun h hmem => List.mem_cons_of_mem _ hmem) fun _ _ _ _ => ?_
      exact .inl ⟨_, List.mem_cons_self, trivial⟩
    · rw [if_neg hdue] at hstep
      obtain rfl := Option.some.inj hstep
      refine hp.of_handlers (fun task hmem => hrest hmem (by rintro ⟨⟩))
        (hingest fun h hmem => hmem) ?_
      rintro hnone - - ⟨h, hmem, hleads⟩
      rw [hhandlers] at hmem
      rcases List.mem_cons.mp hmem with rfl | hmem
      · exact .inr (exists_live_of_not_due hw.tasks hnone hrecord hrequired hleads
          (Bool.eq_false_iff.mpr hdue))
      · exact .inl ⟨h, hmem, hleads⟩
  | enqueueFollowUp =>
    simp only [handlerStep, Option.bind_eq_bind, Option.bind_eq_some_iff, Prod.exists] at hstep
    obtain ⟨w₁, task, henqueue, hstep⟩ := hstep
    obtain rfl := Option.some.inj hstep
    have hstore : Progressing { w₁ with handlers := .storeFollowUp task.taskId :: w₁.handlers } := by
      refine progressing_enqueue hp hhandlers (fun _ => (by rintro ⟨⟩)) (fun h => ?_) henqueue
      rcases h with h | ⟨_, h⟩ <;> cases h
    exact hstore
  | storeFollowUp followUpTaskId =>
    obtain rfl := Option.some.inj hstep
    have hkept : Progressing { w with handlers := rest } := by
      refine hp.of_handlers (fun task hmem => hrest hmem (by rintro ⟨⟩)) ?_ ?_
      · exact fun h => h.imp (fun hmem => hrest hmem (by rintro ⟨⟩))
          (Exists.imp fun _ hmem => hrest hmem (by rintro ⟨⟩))
      · rintro - - - ⟨h, hmem, hleads⟩
        rw [hhandlers] at hmem
        rcases List.mem_cons.mp hmem with rfl | hmem
        · exact hleads.elim
        · exact .inl ⟨h, hmem, hleads⟩
    have hbootstrap (b : Bootstrap) : b.taskId
        { w.record with
          followUpSyncTaskId := some followUpTaskId, followUpSyncTerminal := none } =
            b.taskId w.record := by
      cases b <;> rfl
    exact
      { initialSync := hkept.initialSync
        ingest := hkept.ingest
        bootstraps := fun hrequired b hb hcompleted => by
          have hold := hkept.bootstraps hrequired b (by cases b <;> exact hb)
            (hbootstrap b ▸ hcompleted)
          rw [← hbootstrap b] at hold
          cases b <;> exact hold
        followUp := by
          rintro hnone hrequired ⟨b, hb, hafter⟩
          exact hkept.followUp hnone hrequired
            ⟨b, by cases b <;> exact hb, by cases b <;> exact hafter⟩ }

/-- **Every step forgets nothing**, if the completions are recorded. -/
theorem progressing_step (hp : Progressing w) (hw : WellFormed w)
    (hrecords : RecordsCompletions w op) (h : step w op = some w') : Progressing w' := by
  have hw' := wellFormed_step hw h
  cases step_effect hw.tasks h with
  | startEnqueue spec specs task tasks hstarting henqueued heq =>
    have hs := hw.starting _ hstarting
    refine progressing_of_starting (hw'.starting specs (by rw [heq])) fun hrun hcompleted => ?_
    rw [heq] at hcompleted ⊢
    change IsCompleted tasks (withStartedTask spec task.taskId w.record).initialSyncTaskId
      at hcompleted
    -- the new task is live, so a completed initial sync is the one of before
    have hid : (withStartedTask spec task.taskId w.record).initialSyncTaskId =
        w.record.initialSyncTaskId := by
      cases spec with
      | sync _ =>
        obtain ⟨completed, hmem, hid, hstatus⟩ := hcompleted
        have htasks := henqueued.tasksOk hw.tasks
        obtain rfl := eq_of_taskId_eq htasks henqueued.mem hmem (Option.some.inj hid)
        have hlive := henqueued.live
        rw [hstatus] at hlive
        cases hlive
      | ingest _ | embeddingsBootstrap _ | summaryBootstrap _ => rfl
    rw [hid] at hcompleted
    have hrun : w.record.selections.runIngest = true := by
      rw [heq] at hrun
      cases spec <;> exact hrun
    have hcompletes : CompletesOnly w { w with tasks } task := completesOnly_of_enqueued henqueued
    show ReportPending _ (withStartedTask spec task.taskId w.record).initialSyncTaskId
    rw [hid]
    rcases hcompletes _ hcompleted with hcompleted | ⟨hstatus, hid⟩
    · exact (hp.reportPending hs hrun hcompleted).of_subset fun _ hmem =>
        List.mem_append_left _ hmem
    · exact ⟨_, List.mem_concat_self, task, rfl, hstatus, hid⟩
  | startStore hstarting heq =>
    rw [heq]
    have hs := hw.starting _ hstarting
    have hstored : Progressing { w with starting := none } :=
      { hp with
        initialSync := fun hrun hcompleted => (hp.initialSync hrun hcompleted).imp_right
          fun h => h.of_subset fun _ hmem => hmem
        bootstraps := fun hrequired b hb hcompleted =>
          (hp.bootstraps hrequired b hb hcompleted).imp_right
            fun h => h.of_subset fun _ hmem => hmem }
    exact hstored
  | mutate task f hmutation =>
    exact hp.publish (completesOnly_of_mutation hmutation hw.tasks) hmutation.record
      hmutation.handlers
  | switchHandler h rest hhandlers heq =>
    rw [heq]
    have hmem {h' : Handler} (hmem : h' ∈ w.handlers) : h' ∈ rest ++ [h] := by
      rw [hhandlers] at hmem
      exact (List.perm_append_singleton h rest).mem_iff.mpr hmem
    exact hp.of_handlers (fun _ h => hmem h)
      (fun h => h.imp (fun h => hmem h) fun ⟨ingestId, h⟩ => ⟨ingestId, hmem h⟩)
      fun _ _ _ ⟨h', h, hleads⟩ => .inl ⟨h', hmem h, hleads⟩
  | handle id now h rest hop hhandlers hstep =>
    exact progressing_handle hp hw hhandlers (hop ▸ hrecords) hstep

/-- In a quiescent state, what has not been forgotten has been done. -/
theorem Progressing.settled (hp : Progressing w) (hw : WellFormed w) (hquiescent : Quiescent w) :
    Settled w := by
  obtain ⟨hstored, hhandlers, hcompleted⟩ := hquiescent
  have hselected := hw.stored hstored
  have hnone : NoneFailed w.tasks := fun task htask => by rw [hcompleted task htask]; rfl
  have hreports (taskId : Option String) : ¬ ReportPending w taskId := by
    rintro ⟨h, hmem, -⟩
    rw [hhandlers] at hmem
    cases hmem
  have hended {kind : DevqlTaskKind} {taskId : Option String} (h : Points w.tasks kind taskId)
      (hsome : taskId.isSome) : IsCompleted w.tasks taskId := by
    obtain ⟨task, htask, hid, -, -⟩ := exists_loadTaskById hw.tasks h hsome
    exact ⟨task, htask, hid, hcompleted task htask⟩
  refine ⟨fun hrun => ?_, ?_⟩
  · have hsome : w.record.ingestTaskId.isSome := by
      cases hsync : w.record.selections.runSync with
      | false => exact hselected.ingest hrun hsync
      | true =>
        have hinitial := hended hw.record.initialSync (hselected.initialSync hsync)
        have hseq := (hp.initialSync hrun hinitial).resolve_right (hreports _)
        refine (hp.ingest hrun hseq).resolve_right ?_
        rw [hhandlers]
        rintro (hmem | ⟨_, hmem⟩) <;> cases hmem
    obtain ⟨task, htask, hid, hkind, -⟩ := exists_loadTaskById hw.tasks hw.record.ingest hsome
    exact ⟨task, htask, hid, hkind⟩
  · cases hrequired : w.record.followUpSyncRequired with
    | false => rfl
    | true =>
      have hseq (b : Bootstrap) (hb : b.selected w.record) : (b.completionSeq w.record).isSome :=
        (hp.bootstraps hrequired b hb
          (hended (hw.record.bootstrap b) (hselected.bootstrap hb))).resolve_right (hreports _)
      have hrunning : (runningTask (loadTasks w.tasks w.record).followUpSync).isSome = false := by
        rw [Option.isSome_eq_false_iff, Option.isNone_iff_eq_none]
        refine Option.filter_eq_none_iff.mpr fun task htask => ?_
        obtain ⟨id, -, hfound⟩ := Option.bind_eq_some_iff.mp htask
        rw [hcompleted task (mem_of_findRow hfound).1]
        decide
      have houtstanding : semanticBootstrapStillOutstandingAfterInitialSync w.record
          (loadTasks w.tasks w.record) = false := by
        rw [semanticBootstrapStillOutstandingAfterInitialSync, Bool.or_eq_false_iff]
        constructor
        · rw [embeddingsBootstrapOutstandingAfterInitialSync]
          cases hb : w.record.selections.embeddingsBootstrap.isSome with
          | false => rfl
          | true =>
            have hnumbered : w.record.embeddingsBootstrapCompletionSeq.isNone = false :=
              Option.isNone_eq_false_iff.mpr (hseq .embeddings hb)
            rw [hnumbered, Bool.and_false]
            rfl
        · rw [summaryBootstrapOutstandingAfterInitialSync]
          cases hb : w.record.selections.summariesBootstrap.isSome with
          | false => rfl
          | true =>
            have hnumbered : w.record.summaryBootstrapCompletionSeq.isNone = false :=
              Option.isNone_eq_false_iff.mpr (hseq .summaries hb)
            rw [hnumbered, Bool.and_false]
            rfl
      have hready : semanticFollowUpReadyForSync w.record (loadTasks w.tasks w.record) = false := by
        rw [← Bool.not_eq_true,
          semanticFollowUpReadyForSync_iff hw.tasks hnone hw.record hrequired]
        intro hafter
        rcases hp.followUp hnone hrequired hafter with ⟨h, hmem, -⟩ | ⟨task, htask, hlive⟩
        · rw [hhandlers] at hmem
          cases hmem
        · rw [hcompleted task htask] at hlive
          cases hlive
      rw [semanticFollowUpPending, hrunning, houtstanding, hready]
      rfl

/-- **No completion is lost.**  In every run in which the completions that a session depends on
are recorded, a session that nothing can happen to any more waits for nothing. -/
theorem settled_of_recordsCompletions {initSessionId repoId : String}
    {selections : StartInitSessionSelections} {ops : List Op}
    (hrecords : Run.Meets step RecordsCompletions
      (World.initial initSessionId repoId selections) ops) :
    ∀ pre w, pre <+: ops →
      Run.exec step (World.initial initSessionId repoId selections) pre = some w →
        Quiescent w → Settled w := by
  rintro pre w ⟨rest, rfl⟩ hexec hquiescent
  have hpre := (Run.meets_append.mp hrecords).1
  have hinitial := wellFormed_initial initSessionId repoId selections
  have hprogressing : Progressing (World.initial initSessionId repoId selections) := by
    refine progressing_of_starting (starting_initial initSessionId repoId selections) ?_
    rintro - ⟨task, htask, -⟩
    cases htask
  have hinv := Run.exec_invariant_of_meets (fun w => WellFormed w ∧ Progressing w)
    (fun w op w' hw hop hstep =>
      ⟨wellFormed_step hw.1 hstep, progressing_step hw.2 hw.1 hop hstep⟩)
    ⟨hinitial, hprogressing⟩ hpre hexec
  exact hinv.2.settled hinv.1 hquiescent

end Steps

/-! ## Two runs -/

instance (tasks : List DevqlTaskRecord) (taskId : Option String) :
    Decidable (IsCompleted tasks taskId) := by
  unfold IsCompleted
  infer_instance

/-- The handler is a completed report of the task. -/
def Handler.reportsCompletion (taskId : Option String) : Handler → Bool
  | .report task => task.status = .completed && taskId = some task.taskId
  | _ => false

theorem reportPending_iff {w : World} {taskId : Option String} :
    ReportPending w taskId ↔ w.handlers.any (Handler.reportsCompletion taskId) = true := by
  rw [List.any_eq_true]
  refine exists_congr fun h => and_congr_right fun _ => ?_
  cases h with
  | report task =>
    rw [Handler.reportsCompletion, Bool.and_eq_true, decide_eq_true_eq, decide_eq_true_eq]
    exact ⟨fun ⟨_, heq, hfacts⟩ => Handler.report.inj heq ▸ hfacts, fun hfacts => ⟨_, rfl, hfacts⟩⟩
  | enqueueIngest | storeIngest _ | loadSession | loadTasks _ | enqueueFollowUp
  | storeFollowUp _ => exact ⟨fun ⟨_, heq, _⟩ => (nomatch heq), nofun⟩

instance (w : World) (b : Bootstrap) : Decidable (CompletionLost w b) :=
  decidable_of_iff (IsCompleted w.tasks (b.taskId w.record) ∧ b.completionSeq w.record = none ∧
    w.handlers.any (Handler.reportsCompletion (b.taskId w.record)) = false) (by
      rw [CompletionLost, reportPending_iff, Bool.not_eq_true])

instance (w : World) : ∀ op, Decidable (RecordsCompletions w op)
  | .handle _ _ => by
    unfold RecordsCompletions
    infer_instance
  | .startEnqueue _ _ | .startStore | .startTask _ _ | .finishTask _ _ _ | .cancelTask _ _
  | .requeueTask _ _ | .updateSyncMode _ _ _ | .touchTask _ _ | .switchHandler => isTrue trivial

/-- A sync is selected, and an ingest that is staged behind it. -/
def stagedIngest : StartInitSessionSelections where
  runSync := true
  runIngest := true
  ingestBackfill := none
  embeddingsBootstrap := none
  summariesBootstrap := none

/-- The initial sync is completed after the record is stored. -/
def settledOps : List Op :=
  [.startEnqueue "sync" 1, .handle "" 1, .handle "" 1, .startStore, .startTask "sync" 2,
    .handle "" 2, .handle "" 2, .finishTask "sync" (.ok ()) 3] ++
    List.replicate 6 (.handle "ingest" 3) ++
    [.startTask "ingest" 4, .finishTask "ingest" (.ok ()) 5] ++ List.replicate 4 (.handle "" 5)

/-- The initial sync is completed before the record is stored. -/
def lostOps : List Op :=
  [.startEnqueue "sync" 1, .handle "" 1, .handle "" 1, .startTask "sync" 2, .handle "" 2,
    .handle "" 2, .finishTask "sync" (.ok ()) 3, .handle "" 3, .handle "" 3, .startStore]

/-- Whether nothing can happen to the session any more, and whether its ingest is enqueued. -/
def quiescentFacts (w : World) : Bool × Bool :=
  (w.starting = none && w.handlers.isEmpty &&
      w.tasks.all fun task => task.status = .completed,
    w.record.ingestTaskId.isSome)

theorem quiescent_of_facts {w : World} {b : Bool} (h : quiescentFacts w = (true, b)) :
    Quiescent w := by
  have h := congrArg Prod.fst h
  simp only [quiescentFacts, Bool.and_eq_true, decide_eq_true_eq, List.isEmpty_iff,
    List.all_eq_true] at h
  exact ⟨h.1.1, h.1.2, h.2⟩

theorem stagedIngest_settled :
    ∃ w, Run.exec step (World.initial "session" "repo" stagedIngest) settledOps = some w ∧
      Quiescent w ∧ Settled w := by
  have hrun : (Run.exec step (World.initial "session" "repo" stagedIngest) settledOps).map
      quiescentFacts = some (true, true) := by
    decide
  obtain ⟨w, hw, hfacts⟩ := Option.map_eq_some_iff.mp hrun
  have hquiescent := quiescent_of_facts hfacts
  exact ⟨w, hw, hquiescent, settled_of_recordsCompletions (by decide) settledOps w
    (List.prefix_refl _) hw hquiescent⟩

theorem completion_lost :
    ∃ w, Run.exec step (World.initial "session" "repo" stagedIngest) lostOps = some w ∧
      Quiescent w ∧ ¬ Settled w := by
  have hrun : (Run.exec step (World.initial "session" "repo" stagedIngest) lostOps).map
      (fun w => (quiescentFacts w, w.record.selections.runIngest)) =
        some ((true, false), true) := by
    decide
  obtain ⟨w, hw, hfacts⟩ := Option.map_eq_some_iff.mp hrun
  obtain ⟨hfacts, hingest⟩ := Prod.mk.inj hfacts
  refine ⟨w, hw, quiescent_of_facts hfacts, fun hsettled => ?_⟩
  obtain ⟨task, -, hid, -⟩ := hsettled.ingest hingest
  have hnone : w.record.ingestTaskId.isSome = false := congrArg Prod.snd hfacts
  rw [hid] at hnone
  cases hnone

end InitRuntime
end Bitloops
