import Bitloops.Foundation.Run
import Bitloops.InitRuntime.RecordInvariant

/-!
# What every run of an init session keeps

A handler carries what it has read or drawn through the steps of the others.  `HandlerOk` says
what that is worth in a later state, and `wellFormed_step` that it stays so.

* `step_effect`: what one step does to the world, whatever the operation.
* `wellFormed_step`, `wellFormed_exec`: the invariant.
-/

namespace Bitloops
namespace InitRuntime

open Daemon

/-! ## The effect of a step -/

/-- A task that has ended has its start and its completion behind it. -/
def KeepsTimes (w w' : World) : Prop :=
  ∀ task ∈ w.tasks, task.status.isLive = false →
    w'.startedAt task.taskId = w.startedAt task.taskId ∧
      w'.completedAt task.taskId = w.completedAt task.taskId

/-- One task that has not ended is rewritten and published. -/
structure Mutation (w w' : World) (task : DevqlTaskRecord)
    (f : DevqlTaskRecord → DevqlTaskRecord) : Prop where
  mem : task ∈ w.tasks
  live : task.status.isLive = true
  keeps : KeepsTask f
  tasks : w'.tasks = updateAt DevqlTaskRecord.taskId task.taskId f w.tasks
  handlers : w'.handlers = w.handlers ++ [.report (f task)]
  record : w'.record = w.record
  starting : w'.starting = w.starting
  times : KeepsTimes w w'

/-- What a step does to the world. -/
inductive Effect (w : World) (op : Op) (w' : World) : Prop where
  | startEnqueue (spec : DevqlTaskSpec) (specs : List DevqlTaskSpec) (task : DevqlTaskRecord)
      (tasks : List DevqlTaskRecord) (hstarting : w.starting = some (spec :: specs))
      (henqueued : Enqueued spec w.record.initSessionId w.tasks tasks task)
      (heq : w' =
        { w with
          tasks
          record := withStartedTask spec task.taskId w.record
          starting := some specs
          handlers := w.handlers ++ [.report task] })
  | startStore (hstarting : w.starting = some []) (heq : w' = { w with starting := none })
  | mutate (task : DevqlTaskRecord) (f : DevqlTaskRecord → DevqlTaskRecord)
      (hmutation : Mutation w w' task f)
  | switchHandler (h : Handler) (rest : List Handler) (hhandlers : w.handlers = h :: rest)
      (heq : w' = { w with handlers := rest ++ [h] })
  | handle (taskId : String) (now : ℕ) (h : Handler) (rest : List Handler)
      (hop : op = .handle taskId now) (hhandlers : w.handlers = h :: rest)
      (hstep : handlerStep taskId now { w with handlers := rest } h = some w')

section Effect

variable {w w' : World} {op : Op} {taskId : String} {now : ℕ}

theorem keepsTask_startTask : KeepsTask (Daemon.startTask now) := fun _ => ⟨rfl, rfl, rfl, rfl⟩

theorem keepsTask_requeueTask : KeepsTask (Daemon.requeueTask now) :=
  fun _ => ⟨rfl, rfl, rfl, rfl⟩

theorem keepsTask_withSyncMode {mode : SyncTaskMode} : KeepsTask (withSyncMode mode now) := by
  intro task
  refine ⟨rfl, rfl, ?_, rfl⟩
  unfold withSyncMode
  cases task.spec <;> rfl

theorem keepsTask_cancelledTask : KeepsTask (cancelledTask now) := fun _ => ⟨rfl, rfl, rfl, rfl⟩

theorem keepsTask_touchedTask : KeepsTask (touchedTask now) := fun _ => ⟨rfl, rfl, rfl, rfl⟩

theorem keepsTask_finishedTask {result : Except String Unit} :
    KeepsTask (finishedTask result now) := by
  intro task
  unfold finishedTask
  split
  · exact ⟨rfl, rfl, rfl, rfl⟩
  · split_ifs <;> exact ⟨rfl, rfl, rfl, rfl⟩

/-- A mutation of the queue that leaves the times alone. -/
theorem mutation_of_mutateTask {allowed : DevqlTaskRecord → Bool}
    {f : DevqlTaskRecord → DevqlTaskRecord} (hf : KeepsTask f)
    (hallowed : ∀ task, allowed task = true → task.status.isLive = true)
    (h : mutateTask taskId allowed f w = some w') :
    ∃ task, task.taskId = taskId ∧ Mutation w w' task f := by
  obtain ⟨task, hmutated, hlive⟩ := mutateTask_cases h
  obtain ⟨hmem, rfl, htasks, hrest⟩ := hmutated
  refine ⟨task, rfl, ⟨hmem, hallowed task hlive, hf, htasks, ?_, ?_, ?_, ?_⟩⟩
  all_goals rw [hrest]
  exact fun _ _ _ => ⟨rfl, rfl⟩

theorem step_effect (htasks : TasksOk w.record.initSessionId w.tasks) (h : step w op = some w') :
    Effect w op w' := by
  -- a live task has another id than a task that has ended
  have hne {task : DevqlTaskRecord} (hmem : task ∈ w.tasks) (hlive : task.status.isLive = true)
      {other : DevqlTaskRecord} (hother : other ∈ w.tasks) (hended : other.status.isLive = false) :
      other.taskId ≠ task.taskId := by
    intro hid
    obtain rfl := eq_of_taskId_eq htasks hother hmem hid
    rw [hlive] at hended
    cases hended
  have hrunning (task : DevqlTaskRecord) (h : decide (task.status = .running) = true) :
      task.status.isLive = true := by
    rw [of_decide_eq_true h]
    rfl
  have hqueued (task : DevqlTaskRecord) (h : decide (task.status = .queued) = true) :
      task.status.isLive = true := by
    rw [of_decide_eq_true h]
    rfl
  cases op with
  | startEnqueue taskId now =>
    simp only [step] at h
    split at h
    · rename_i spec specs hstarting
      simp only [Option.bind_eq_bind, Option.bind_eq_some_iff, Prod.exists] at h
      obtain ⟨w₁, task, henqueue, h⟩ := h
      obtain ⟨henqueued, hw₁⟩ := enqueue_cases henqueue
      obtain rfl := Option.some.inj h
      refine .startEnqueue spec specs task w₁.tasks hstarting henqueued ?_
      rw [hw₁]
    · cases h
  | startStore =>
    simp only [step] at h
    split_ifs at h with hstarting
    exact .startStore hstarting (Option.some.inj h).symm
  | startTask taskId now =>
    simp only [step, Option.map_eq_some_iff] at h
    obtain ⟨w₁, hw₁, rfl⟩ := h
    obtain ⟨task, rfl, hmutation⟩ := mutation_of_mutateTask keepsTask_startTask hqueued hw₁
    refine .mutate task _ { hmutation with times := fun other hother hended => ?_ }
    have htimes := hmutation.times other hother hended
    exact ⟨(Function.update_of_ne (hne hmutation.mem hmutation.live hother hended) _ _).trans
      htimes.1, htimes.2⟩
  | finishTask taskId result now =>
    simp only [step, Option.map_eq_some_iff] at h
    obtain ⟨w₁, hw₁, rfl⟩ := h
    obtain ⟨task, rfl, hmutation⟩ := mutation_of_mutateTask keepsTask_finishedTask hrunning hw₁
    cases result with
    | ok _ =>
      refine .mutate task _ { hmutation with times := fun other hother hended => ?_ }
      have htimes := hmutation.times other hother hended
      exact ⟨htimes.1,
        (Function.update_of_ne (hne hmutation.mem hmutation.live hother hended) _ _).trans
          htimes.2⟩
    | error error => exact .mutate task _ hmutation
  | cancelTask taskId now =>
    obtain ⟨task, rfl, hmutation⟩ := mutation_of_mutateTask keepsTask_cancelledTask hqueued h
    exact .mutate task _ hmutation
  | requeueTask taskId now =>
    obtain ⟨task, rfl, hmutation⟩ := mutation_of_mutateTask keepsTask_requeueTask hrunning h
    exact .mutate task _ hmutation
  | updateSyncMode taskId mode now =>
    obtain ⟨task, rfl, hmutation⟩ := mutation_of_mutateTask keepsTask_withSyncMode hrunning h
    exact .mutate task _ hmutation
  | touchTask taskId now =>
    obtain ⟨task, rfl, hmutation⟩ :=
      mutation_of_mutateTask keepsTask_touchedTask (fun _ hlive => hlive) h
    exact .mutate task _ hmutation
  | switchHandler =>
    simp only [step] at h
    split at h
    · rename_i h' rest hhandlers
      exact .switchHandler h' rest hhandlers (Option.some.inj h).symm
    · cases h
  | handle taskId now =>
    simp only [step] at h
    split at h
    · rename_i h' rest hhandlers
      exact .handle taskId now h' rest rfl hhandlers h
    · cases h

end Effect

/-! ## The invariant -/

/-- What `start_session` has still to enqueue, and the record that it has not stored. -/
structure Starting (specs : List DevqlTaskSpec) (s : InitSessionRecord) : Prop where
  required : s.followUpSyncRequired = false
  followUp : s.followUpSyncTaskId = none
  initialSeq : s.initialSyncCompletionSeq = none
  embeddingsSeq : s.embeddingsBootstrapCompletionSeq = none
  summarySeq : s.summaryBootstrapCompletionSeq = none
  followUpSeq : s.followUpSyncCompletionSeq = none
  runSync : s.selections.runSync → s.initialSyncTaskId.isSome ∨ autoSyncSpec ∈ specs
  runIngest : s.selections.runIngest → s.selections.runSync = false →
    s.ingestTaskId.isSome ∨ ingestSpec s.selections ∈ specs
  embeddings : ∀ spec ∈ s.selections.embeddingsBootstrap,
    s.embeddingsBootstrapTaskId.isSome ∨ .embeddingsBootstrap spec ∈ specs
  summaries : ∀ request ∈ s.selections.summariesBootstrap,
    s.summaryBootstrapTaskId.isSome ∨ .summaryBootstrap request ∈ specs

/-- What a handler has read or drawn, in the world that it stands in. -/
def HandlerOk (w : World) : Handler → Prop
  | .report task => Reported w.tasks task
  | .enqueueIngest => w.starting = none
  | .storeIngest taskId => w.starting = none ∧ Points w.tasks .ingest (some taskId)
  | .loadSession => True
  | .loadTasks s =>
    w.starting = none ∧ RecordOk w.tasks s ∧ HasSelected s ∧ s.followUpSyncRequired = true ∧
      s.initialSyncTaskId = w.record.initialSyncTaskId ∧
      w.record.initialSyncCompletionSeq.isSome
  | .enqueueFollowUp => w.starting = none ∧ w.record.initialSyncCompletionSeq.isSome
  | .storeFollowUp taskId =>
    w.starting = none ∧ Points w.tasks .sync (some taskId) ∧
      w.record.initialSyncTaskId ≠ some taskId

structure WellFormed (w : World) : Prop where
  tasks : TasksOk w.record.initSessionId w.tasks
  record : RecordOk w.tasks w.record
  handlers : ∀ h ∈ w.handlers, HandlerOk w h
  starting : ∀ specs, w.starting = some specs → Starting specs w.record
  stored : w.starting = none → HasSelected w.record

/-- What is known about a session that is stored stays known. -/
structure Advances (w w' : World) : Prop where
  tasks : Evolves w.tasks w'.tasks
  stored : w.starting = none → w'.starting = none ∧
    w'.record.initialSyncTaskId = w.record.initialSyncTaskId ∧
    (w.record.initialSyncCompletionSeq.isSome → w'.record.initialSyncCompletionSeq.isSome)

section Invariant

variable {w w' : World} {op : Op} {h : Handler} {taskId : String} {now : ℕ}

theorem HandlerOk.advances (hok : HandlerOk w h) (hw : Advances w w') : HandlerOk w' h := by
  cases h with
  | report task => exact hok.evolves hw.tasks
  | enqueueIngest => exact (hw.stored hok).1
  | storeIngest taskId => exact ⟨(hw.stored hok.1).1, hok.2.evolves hw.tasks⟩
  | loadSession => trivial
  | loadTasks s =>
    obtain ⟨hstored, hrecord, hselected, hrequired, hinitial, hsome⟩ := hok
    obtain ⟨hstored', hid, hseq⟩ := hw.stored hstored
    exact ⟨hstored', hrecord.evolves hw.tasks, hselected, hrequired, hinitial.trans hid.symm,
      hseq hsome⟩
  | enqueueFollowUp =>
    obtain ⟨hstored', -, hseq⟩ := hw.stored hok.1
    exact ⟨hstored', hseq hok.2⟩
  | storeFollowUp taskId =>
    obtain ⟨hstored', hid, -⟩ := hw.stored hok.1
    exact ⟨hstored', hok.2.1.evolves hw.tasks, hid ▸ hok.2.2⟩

theorem mutation_evolves {task : DevqlTaskRecord} {f : DevqlTaskRecord → DevqlTaskRecord}
    (htasks : TasksOk w.record.initSessionId w.tasks) (h : Mutation w w' task f) :
    Evolves w.tasks w'.tasks := by
  rw [h.tasks]
  refine evolves_updateAt h.keeps fun other hother hid => ?_
  obtain rfl := eq_of_taskId_eq htasks hother h.mem hid
  exact h.live

/-- What a mutation publishes is in the queue. -/
theorem mutation_reported {task : DevqlTaskRecord} {f : DevqlTaskRecord → DevqlTaskRecord}
    (h : Mutation w w' task f) : Reported w'.tasks (f task) := by
  refine ⟨f task, ?_, rfl, rfl, fun _ => rfl⟩
  rw [h.tasks]
  exact List.mem_map.mpr ⟨task, h.mem, if_pos rfl⟩

theorem Enqueued.reported {spec : DevqlTaskSpec} {initSessionId : String}
    {tasks tasks' : List DevqlTaskRecord} {task : DevqlTaskRecord}
    (h : Enqueued spec initSessionId tasks tasks' task) : Reported tasks' task :=
  ⟨task, h.mem, rfl, rfl, fun _ => rfl⟩

/-- The record with the id of an enqueued task. -/
theorem recordOk_withStartedTask {spec : DevqlTaskSpec} {specs : List DevqlTaskSpec}
    {tasks : List DevqlTaskRecord} {s : InitSessionRecord} {task : DevqlTaskRecord}
    (hrecord : RecordOk tasks s) (hstarting : Starting specs s) (hmem : task ∈ tasks)
    (hkind : task.kind = taskKindFromSpec spec) :
    RecordOk tasks (withStartedTask spec task.taskId s) := by
  have hpoints : Points tasks (taskKindFromSpec spec) (some task.taskId) := by
    rintro _ ⟨⟩
    exact ⟨task, hmem, rfl, hkind⟩
  have hnone {seq : Option ℕ} {p : Prop} (hseq : seq = none) (hsome : seq.isSome) : p := by
    rw [hseq] at hsome
    cases hsome
  cases spec with
  | sync _ =>
    exact
      { hrecord with
        initialSync := hpoints
        distinct := fun hsome => absurd hsome (by rw [withStartedTask, hstarting.followUp]; decide)
        terminals := { hrecord.terminals with initialSync := fun _ => rfl }
        initialSeq := hnone hstarting.initialSeq }
  | ingest _ =>
    exact
      { hrecord with
        ingest := hpoints
        terminals := { hrecord.terminals with ingest := fun _ => rfl } }
  | embeddingsBootstrap _ =>
    exact
      { hrecord with
        embeddings := hpoints
        terminals := { hrecord.terminals with embeddings := fun _ => rfl }
        embeddingsSeq := hnone hstarting.embeddingsSeq }
  | summaryBootstrap _ =>
    exact
      { hrecord with
        summary := hpoints
        terminals := { hrecord.terminals with summary := fun _ => rfl }
        summarySeq := hnone hstarting.summarySeq }

/-- An id that is set takes its task off the list. -/
theorem starting_withStartedTask {spec : DevqlTaskSpec} {specs : List DevqlTaskSpec}
    {s : InitSessionRecord} (hstarting : Starting (spec :: specs) s) :
    Starting specs (withStartedTask spec taskId s) := by
  have hrest {a : Option String} {spec' : DevqlTaskSpec} (h : a.isSome ∨ spec' ∈ spec :: specs)
      (hne : spec' ≠ spec) : a.isSome ∨ spec' ∈ specs :=
    h.imp_right fun hmem => (List.mem_cons.mp hmem).resolve_left hne
  cases spec with
  | sync _ =>
    exact
      { hstarting with
        runSync := fun _ => .inl rfl
        runIngest := fun h h' => hrest (hstarting.runIngest h h') DevqlTaskSpec.noConfusion
        embeddings := fun r h => hrest (hstarting.embeddings r h) DevqlTaskSpec.noConfusion
        summaries := fun r h => hrest (hstarting.summaries r h) DevqlTaskSpec.noConfusion }
  | ingest _ =>
    exact
      { hstarting with
        runSync := fun h => hrest (hstarting.runSync h) DevqlTaskSpec.noConfusion
        runIngest := fun _ _ => .inl rfl
        embeddings := fun r h => hrest (hstarting.embeddings r h) DevqlTaskSpec.noConfusion
        summaries := fun r h => hrest (hstarting.summaries r h) DevqlTaskSpec.noConfusion }
  | embeddingsBootstrap _ =>
    exact
      { hstarting with
        runSync := fun h => hrest (hstarting.runSync h) DevqlTaskSpec.noConfusion
        runIngest := fun h h' => hrest (hstarting.runIngest h h') DevqlTaskSpec.noConfusion
        embeddings := fun _ _ => .inl rfl
        summaries := fun r h => hrest (hstarting.summaries r h) DevqlTaskSpec.noConfusion }
  | summaryBootstrap _ =>
    exact
      { hstarting with
        runSync := fun h => hrest (hstarting.runSync h) DevqlTaskSpec.noConfusion
        runIngest := fun h h' => hrest (hstarting.runIngest h h') DevqlTaskSpec.noConfusion
        embeddings := fun r h => hrest (hstarting.embeddings r h) DevqlTaskSpec.noConfusion
        summaries := fun _ _ => .inl rfl }

theorem Starting.hasSelected {s : InitSessionRecord} (h : Starting [] s) : HasSelected s where
  initialSync hsync := (h.runSync hsync).resolve_right List.not_mem_nil
  ingest hingest hsync := (h.runIngest hingest hsync).resolve_right List.not_mem_nil
  embeddings hsome := by
    obtain ⟨spec, hspec⟩ := Option.isSome_iff_exists.mp hsome
    exact (h.embeddings spec hspec).resolve_right List.not_mem_nil
  summary hsome := by
    obtain ⟨request, hrequest⟩ := Option.isSome_iff_exists.mp hsome
    exact (h.summaries request hrequest).resolve_right List.not_mem_nil

/-! ## The steps -/

theorem Advances.of_tasks (htasks : Evolves w.tasks w'.tasks) (hstarting : w'.starting = w.starting)
    (hrecord : w'.record = w.record) : Advances w w' :=
  ⟨htasks, fun hstored => ⟨hstarting.trans hstored, by rw [hrecord], by rw [hrecord]; exact id⟩⟩

/-- The queue moves on and publishes a task. -/
theorem WellFormed.publish {task : DevqlTaskRecord} (hw : WellFormed w)
    (htasks : TasksOk w.record.initSessionId w'.tasks) (hevolves : Evolves w.tasks w'.tasks)
    (hreported : Reported w'.tasks task) (hhandlers : w'.handlers = w.handlers ++ [.report task])
    (hrecord : w'.record = w.record) (hstarting : w'.starting = w.starting) : WellFormed w' where
  tasks := hrecord ▸ htasks
  record := hrecord ▸ hw.record.evolves hevolves
  handlers := by
    intro h hmem
    rw [hhandlers, List.mem_append, List.mem_singleton] at hmem
    rcases hmem with hmem | rfl
    · exact (hw.handlers h hmem).advances (.of_tasks hevolves hstarting hrecord)
    · exact hreported
  starting := by rw [hstarting, hrecord]; exact hw.starting
  stored := by rw [hstarting, hrecord]; exact hw.stored

/-- A handler takes a step that does not touch the queue. -/
theorem WellFormed.handled {handlers : List Handler} {s : InitSessionRecord}
    (hw : WellFormed w) (hsession : s.initSessionId = w.record.initSessionId)
    (hadvances : Advances w { w with record := s, handlers })
    (hrecord : RecordOk w.tasks s) (hselected : w.starting = none → HasSelected s)
    (hstarting : ∀ specs, w.starting = some specs → s = w.record)
    (hhandlers : ∀ h ∈ handlers, h ∈ w.handlers ∨ HandlerOk { w with record := s, handlers } h) :
    WellFormed { w with record := s, handlers } where
  tasks := hsession ▸ hw.tasks
  record := hrecord
  handlers h hmem := (hhandlers h hmem).elim (fun hmem => (hw.handlers h hmem).advances hadvances) id
  starting specs hspecs := hstarting specs hspecs ▸ hw.starting specs hspecs
  stored := hselected

theorem advances_recordTaskUpdate {task : DevqlTaskRecord} {handlers : List Handler} :
    Advances w { w with record := (recordTaskUpdate w.tasks w.record task).1, handlers } := by
  obtain ⟨hsame, hseqs, -, -⟩ :
    Recorded w.tasks w.record task (recordTaskUpdate w.tasks w.record task).1 :=
      recordTaskUpdate_recorded
  refine ⟨Evolves.refl _, fun hstored => ⟨hstored, hsame.initialSync, fun hsome => ?_⟩⟩
  obtain ⟨n, hn⟩ := Option.isSome_iff_exists.mp hsome
  show Option.isSome (recordTaskUpdate w.tasks w.record task).1.initialSyncCompletionSeq
  rw [hseqs.initialSync, initialSyncCompletionSeq_mono hn]
  rfl

/-- A handler enqueues a task; it then holds the id of one that is live. -/
theorem handlerStep_enqueue {spec : DevqlTaskSpec} {task : DevqlTaskRecord} (hw : WellFormed w)
    (h : enqueue spec taskId now w = some (w', task)) :
    WellFormed w' ∧ Advances w w' ∧ Enqueued spec w.record.initSessionId w.tasks w'.tasks task ∧
      w' = { w with tasks := w'.tasks, handlers := w.handlers ++ [.report task] } := by
  obtain ⟨henqueued, heq⟩ := enqueue_cases h
  have hrecord : w'.record = w.record := by rw [heq]
  have hstarting : w'.starting = w.starting := by rw [heq]
  have hhandlers : w'.handlers = w.handlers ++ [.report task] := by rw [heq]
  exact ⟨hw.publish (henqueued.tasksOk hw.tasks) henqueued.evolves henqueued.reported hhandlers
    hrecord hstarting, .of_tasks henqueued.evolves hstarting hrecord, henqueued, heq⟩

theorem WellFormed.push {h : Handler} (hw : WellFormed w) (hok : HandlerOk w h) :
    WellFormed { w with handlers := h :: w.handlers } := by
  refine hw.handled rfl (.of_tasks (Evolves.refl _) rfl rfl) hw.record hw.stored (fun _ _ => rfl) ?_
  intro h' hmem
  rcases List.mem_cons.mp hmem with rfl | hmem
  · exact .inr (hok.advances (.of_tasks (Evolves.refl _) rfl rfl))
  · exact .inl hmem

theorem handlerStep_wellFormed (hw : WellFormed w) (hok : HandlerOk w h)
    (hstep : handlerStep taskId now w h = some w') : WellFormed w' ∧ Advances w w' := by
  have hrefl (handlers : List Handler) : Advances w { w with handlers } :=
    .of_tasks (Evolves.refl _) rfl rfl
  cases h with
  | report task =>
    rw [handlerStep] at hstep
    by_cases hstored : w.starting = none
    · rw [if_pos hstored] at hstep
      obtain rfl := Option.some.inj hstep
      obtain ⟨hsame, -, -, -⟩ :
        Recorded w.tasks w.record task (recordTaskUpdate w.tasks w.record task).1 :=
          recordTaskUpdate_recorded
      refine ⟨hw.handled hsame.initSessionId advances_recordTaskUpdate
        (recordTaskUpdate_recorded.recordOk hw.tasks hw.record hok)
        (fun _ => (hw.stored hstored).of_sameTasks hsame)
        (fun specs hspecs => by rw [hstored] at hspecs; cases hspecs) ?_,
        advances_recordTaskUpdate⟩
      intro h' hmem
      rcases List.mem_cons.mp hmem with rfl | hmem
      · right
        split_ifs
        · exact hstored
        · trivial
      · exact .inl hmem
    · rw [if_neg hstored] at hstep
      obtain rfl := Option.some.inj hstep
      have hpush : WellFormed { w with handlers := .loadSession :: w.handlers } := hw.push trivial
      exact ⟨hpush, hrefl _⟩
  | enqueueIngest =>
    simp only [handlerStep, Option.bind_eq_bind, Option.bind_eq_some_iff, Prod.exists] at hstep
    obtain ⟨w₁, task, henqueue, h⟩ := hstep
    obtain rfl := Option.some.inj h
    obtain ⟨hw₁, hadvances, henqueued, -⟩ := handlerStep_enqueue hw henqueue
    refine ⟨hw₁.push ⟨(hadvances.stored hok).1, ?_⟩, ⟨hadvances.tasks, hadvances.stored⟩⟩
    rintro _ ⟨⟩
    exact ⟨task, henqueued.mem, rfl, henqueued.kind⟩
  | storeIngest ingestTaskId =>
    obtain rfl := Option.some.inj hstep
    have hadvances : Advances w
        { w with
          record := { w.record with ingestTaskId := some ingestTaskId, ingestTerminal := none }
          handlers := .loadSession :: w.handlers } :=
      ⟨Evolves.refl _, fun hstored => ⟨hstored, rfl, fun h => h⟩⟩
    refine ⟨hw.handled rfl hadvances ?_ (fun hstored => ?_) ?_ ?_, hadvances⟩
    · exact { hw.record with ingest := hok.2, terminals := { hw.record.terminals with
        ingest := fun _ => rfl } }
    · exact { hw.stored hstored with ingest := fun _ _ => rfl }
    · intro specs hspecs
      rw [hok.1] at hspecs
      cases hspecs
    · intro h' hmem
      rcases List.mem_cons.mp hmem with rfl | hmem
      · exact .inr trivial
      · exact .inl hmem
  | loadSession =>
    simp only [handlerStep] at hstep
    split_ifs at hstep with hload
    · obtain rfl := Option.some.inj hstep
      exact ⟨hw.push ⟨hload.1, hw.record, hw.stored hload.1, hload.2, rfl,
        hw.record.required hload.2⟩, hrefl _⟩
    · obtain rfl := Option.some.inj hstep
      exact ⟨hw, hrefl _⟩
  | loadTasks s =>
    simp only [handlerStep] at hstep
    split_ifs at hstep with hdue
    · obtain rfl := Option.some.inj hstep
      exact ⟨hw.push ⟨hok.1, hok.2.2.2.2.2⟩, hrefl _⟩
    · obtain rfl := Option.some.inj hstep
      exact ⟨hw, hrefl _⟩
  | enqueueFollowUp =>
    simp only [handlerStep, Option.bind_eq_bind, Option.bind_eq_some_iff, Prod.exists] at hstep
    obtain ⟨w₁, task, henqueue, h⟩ := hstep
    obtain rfl := Option.some.inj h
    obtain ⟨hw₁, hadvances, henqueued, -⟩ := handlerStep_enqueue hw henqueue
    obtain ⟨hstored, hinitial, hseq⟩ := hadvances.stored hok.1
    refine ⟨hw₁.push ⟨hstored, ?_, ?_⟩, ⟨hadvances.tasks, hadvances.stored⟩⟩
    · rintro _ ⟨⟩
      exact ⟨task, henqueued.mem, rfl, henqueued.kind⟩
    · -- the initial sync is completed, and the enqueued task is live
      intro hid
      obtain ⟨initial, hinitial, hid', hcompleted⟩ := hw₁.record.initialSeq (hseq hok.2)
      obtain rfl := eq_of_taskId_eq hw₁.tasks hinitial henqueued.mem
        (Option.some.inj (hid'.symm.trans hid))
      have hlive := henqueued.live
      rw [hcompleted] at hlive
      cases hlive
  | storeFollowUp followUpTaskId =>
    obtain rfl := Option.some.inj hstep
    have hadvances : Advances w
        { w with
          record :=
            { w.record with
              followUpSyncTaskId := some followUpTaskId, followUpSyncTerminal := none } } :=
      ⟨Evolves.refl _, fun hstored => ⟨hstored, rfl, fun h => h⟩⟩
    refine ⟨hw.handled rfl hadvances ?_ (fun hstored => ?_) ?_ (fun h' hmem => .inl hmem),
      hadvances⟩
    · exact { hw.record with
        followUp := hok.2.1
        distinct := fun _ => hok.2.2
        terminals := { hw.record.terminals with followUp := fun _ => rfl } }
    · exact { hw.stored hstored with }
    · intro specs hspecs
      rw [hok.1] at hspecs
      cases hspecs

theorem wellFormed_of_effect (hw : WellFormed w) (heffect : Effect w op w') :
    WellFormed w' ∧ Advances w w' := by
  cases heffect with
  | startEnqueue spec specs task tasks hstarting henqueued heq =>
    subst heq
    have hs := hw.starting _ hstarting
    have hevolves := henqueued.evolves
    have hadvances : Advances w
        { w with
          tasks
          record := withStartedTask spec task.taskId w.record
          starting := some specs
          handlers := w.handlers ++ [.report task] } :=
      ⟨hevolves, fun hstored => by rw [hstarting] at hstored; cases hstored⟩
    have hsession : (withStartedTask spec task.taskId w.record).initSessionId =
        w.record.initSessionId := by
      cases spec <;> rfl
    refine ⟨⟨hsession ▸ henqueued.tasksOk hw.tasks, ?_, ?_, ?_, fun hstored => nomatch hstored⟩,
      hadvances⟩
    · exact recordOk_withStartedTask (hw.record.evolves hevolves) hs henqueued.mem henqueued.kind
    · intro h hmem
      rcases List.mem_append.mp hmem with hmem | hmem
      · exact (hw.handlers h hmem).advances hadvances
      · rw [List.mem_singleton.mp hmem]
        exact henqueued.reported
    · rintro _ ⟨⟩
      exact starting_withStartedTask hs
  | startStore hstarting heq =>
    subst heq
    have hs := hw.starting _ hstarting
    have hadvances : Advances w { w with starting := none } :=
      ⟨Evolves.refl _, fun _ => ⟨rfl, rfl, fun h => h⟩⟩
    exact ⟨⟨hw.tasks, hw.record, fun h hmem => (hw.handlers h hmem).advances hadvances,
      fun _ hspecs => (nomatch hspecs), fun _ => hs.hasSelected⟩, hadvances⟩
  | mutate task f hmutation =>
    have hevolves := mutation_evolves hw.tasks hmutation
    have htasks : TasksOk w.record.initSessionId w'.tasks := by
      rw [hmutation.tasks]
      exact tasksOk_updateAt hmutation.keeps hw.tasks
    exact ⟨hw.publish htasks hevolves (mutation_reported hmutation) hmutation.handlers
      hmutation.record hmutation.starting, .of_tasks hevolves hmutation.starting hmutation.record⟩
  | switchHandler h rest hhandlers heq =>
    subst heq
    have hadvances : Advances w { w with handlers := rest ++ [h] } :=
      .of_tasks (Evolves.refl _) rfl rfl
    refine ⟨hw.handled rfl hadvances hw.record hw.stored (fun _ _ => rfl) fun h' hmem => .inl ?_,
      hadvances⟩
    rw [hhandlers]
    exact (List.perm_append_singleton h rest).mem_iff.mp hmem
  | handle taskId now h rest hop hhandlers hstep =>
    have hadvances : Advances w { w with handlers := rest } := .of_tasks (Evolves.refl _) rfl rfl
    have hw₁ : WellFormed { w with handlers := rest } := by
      refine hw.handled rfl hadvances hw.record hw.stored (fun _ _ => rfl) fun h' hmem => .inl ?_
      rw [hhandlers]
      exact List.mem_cons_of_mem h hmem
    have hok : HandlerOk w h := hw.handlers h (hhandlers ▸ List.mem_cons_self)
    obtain ⟨hw', hadvances'⟩ := handlerStep_wellFormed hw₁ (hok.advances hadvances) hstep
    exact ⟨hw', hadvances'.tasks, hadvances'.stored⟩

/-- **Every step keeps the invariant.** -/
theorem wellFormed_step (hw : WellFormed w) (h : step w op = some w') : WellFormed w' :=
  (wellFormed_of_effect hw (step_effect hw.tasks h)).1

theorem starting_initial (initSessionId repoId : String)
    (selections : StartInitSessionSelections) :
    Starting (startSpecs selections) (newSession initSessionId repoId selections) where
  required := rfl
  followUp := rfl
  initialSeq := rfl
  embeddingsSeq := rfl
  summarySeq := rfl
  followUpSeq := rfl
  runSync hsync := by
    replace hsync : selections.runSync = true := hsync
    simp [startSpecs, hsync]
  runIngest hingest hsync := by
    replace hingest : selections.runIngest = true := hingest
    replace hsync : selections.runSync = false := hsync
    simp [startSpecs, newSession, hingest, hsync]
  embeddings spec hspec := by
    replace hspec : selections.embeddingsBootstrap = some spec := hspec
    simp [startSpecs, hspec]
  summaries request hrequest := by
    replace hrequest : selections.summariesBootstrap = some request := hrequest
    simp [startSpecs, hrequest]

theorem recordOk_newSession (initSessionId repoId : String)
    (selections : StartInitSessionSelections) :
    RecordOk [] (newSession initSessionId repoId selections) where
  initialSync := points_none
  ingest := points_none
  embeddings := points_none
  summary := points_none
  followUp := points_none
  distinct h := nomatch h
  terminals :=
    ⟨fun h => (nomatch h), fun h => (nomatch h), fun h => (nomatch h), fun h => (nomatch h),
      fun h => nomatch h⟩
  initialSeq h := nomatch h
  embeddingsSeq h := nomatch h
  summarySeq h := nomatch h
  initialBound _ h := nomatch h
  followUpBound _ h := nomatch h
  required h := nomatch h

theorem wellFormed_initial (initSessionId repoId : String)
    (selections : StartInitSessionSelections) :
    WellFormed (World.initial initSessionId repoId selections) where
  tasks := ⟨List.nodup_nil, fun _ h => (nomatch h), fun _ h => (nomatch h), fun _ h => nomatch h⟩
  record := recordOk_newSession initSessionId repoId selections
  handlers _ h := nomatch h
  starting := by
    rintro _ ⟨⟩
    exact starting_initial initSessionId repoId selections
  stored h := nomatch h

/-- **Every run of a session keeps the invariant.** -/
theorem wellFormed_exec {ops : List Op} (hw : WellFormed w)
    (h : Run.exec step w ops = some w') : WellFormed w' :=
  Run.exec_invariant WellFormed (fun _ _ _ hw hstep => wellFormed_step hw hstep) hw h

theorem evolves_exec {ops : List Op} (hw : WellFormed w) (h : Run.exec step w ops = some w') :
    Evolves w.tasks w'.tasks := by
  have hinv := Run.exec_invariant (fun m => WellFormed m ∧ Evolves w.tasks m.tasks)
    (fun m a m' hm hstep => ?_) ⟨hw, Evolves.refl _⟩ h
  · exact hinv.2
  · obtain ⟨hm', hadvances⟩ := wellFormed_of_effect hm.1 (step_effect hm.1.tasks hstep)
    exact ⟨hm', hm.2.trans hadvances.tasks⟩

end Invariant

end InitRuntime
end Bitloops
