import Bitloops.InitRuntime.WorldInvariant

/-!
# Follow-up syncs and bootstraps

A session that requires a follow-up sync is reported as completed when the last completion of a
sync has a greater number than the completions of the bootstraps.  The numbers are drawn when the
completions are reported, so a sync that was running when a bootstrap was completed has a greater
number too.

* `CountsStartedAfter`: a follow-up sync is numbered after those bootstraps only that were
  completed before it started.
* `followUpCovered_of_countsStartedAfter`: in a run in which every report does so, the session is
  not reported as completed too early.
* `running_followUp_counted`: a run in which a report does not.
-/

namespace Bitloops
namespace InitRuntime

open Daemon

/-! ## What a follow-up sync is for -/

/-- The task was completed before the last start of the sync. -/
def CompletedBefore (w : World) (taskId : Option String) (syncTaskId : String) : Prop :=
  ∃ c ∈ taskId.bind w.completedAt, c < w.startedAt syncTaskId

instance (w : World) (taskId : Option String) (syncTaskId : String) :
    Decidable (CompletedBefore w taskId syncTaskId) :=
  inferInstanceAs (Decidable (∃ c ∈ taskId.bind w.completedAt, c < w.startedAt syncTaskId))

/-- A sync that started after the completion of every selected bootstrap has completed. -/
def FollowUpCovered (w : World) : Prop :=
  ∃ sync ∈ w.tasks, sync.kind = .sync ∧ sync.status = .completed ∧
    ∀ b : Bootstrap, b.selected w.record → CompletedBefore w (b.taskId w.record) sync.taskId

/-- The tasks of the record, each as some state from `w` on has it. -/
structure ReadFrom (w : World) (loaded : LoadedTasks) : Prop where
  initialSync : ∃ ops w', Run.exec step w ops = some w' ∧
    loaded.initialSync = (loadTasks w'.tasks w.record).initialSync
  ingest : ∃ ops w', Run.exec step w ops = some w' ∧
    loaded.ingest = (loadTasks w'.tasks w.record).ingest
  followUpSync : ∃ ops w', Run.exec step w ops = some w' ∧
    loaded.followUpSync = (loadTasks w'.tasks w.record).followUpSync
  embeddings : ∃ ops w', Run.exec step w ops = some w' ∧
    loaded.embeddings = (loadTasks w'.tasks w.record).embeddings
  summaryRun : ∃ ops w', Run.exec step w ops = some w' ∧
    loaded.summaryRun = (loadTasks w'.tasks w.record).summaryRun

/-- A view of the session that has read the record in `w` says that it is completed. -/
def ReportedCompleted (w : World) : Prop :=
  ∃ session ∈ w.session, ∃ loaded stats, ReadFrom w loaded ∧ sessionCompleted session loaded stats

/-- The completion of a follow-up sync is numbered after those bootstraps only that were completed
before the sync started. -/
def CountsStartedAfter (w : World) : Op → Prop
  | .handle _ _ =>
    ∀ task ∈ w.nextReport, w.starting = none → task.status = .completed →
      w.record.followUpSyncTaskId = some task.taskId →
        ∀ b : Bootstrap, (b.completionSeq w.record).isSome →
          CompletedBefore w (b.taskId w.record) task.taskId
  | _ => True

instance (w : World) : ∀ op, Decidable (CountsStartedAfter w op)
  | .handle _ _ => by
    unfold CountsStartedAfter
    infer_instance
  | .startEnqueue _ _ | .startStore | .startTask _ _ | .finishTask _ _ _ | .cancelTask _ _
  | .requeueTask _ _ | .updateSyncMode _ _ _ | .touchTask _ _ | .switchHandler => isTrue trivial

/-! ## The invariant -/

/-- What the numbers of the completions say. -/
structure Numbered (w : World) : Prop where
  /-- A bootstrap was not completed when the initial sync was. -/
  outstanding : w.record.followUpSyncRequired → ∃ b : Bootstrap, b.selected w.record ∧
    ∀ n ∈ b.completionSeq w.record, ∀ m ∈ w.record.initialSyncCompletionSeq, m < n
  /-- A follow-up sync started after the bootstraps with smaller numbers. -/
  covered : ∀ n ∈ w.record.followUpSyncCompletionSeq,
    ∃ sync ∈ w.tasks, sync.kind = .sync ∧ sync.status = .completed ∧
      ∀ b : Bootstrap, ∀ m ∈ b.completionSeq w.record, m ≤ n →
        CompletedBefore w (b.taskId w.record) sync.taskId

section Steps

variable {w w' : World} {op : Op} {taskId : Option String}

theorem CompletedBefore.of_keepsTimes {sync : DevqlTaskRecord}
    (h : CompletedBefore w taskId sync.taskId) (htimes : KeepsTimes w w')
    (hsync : sync ∈ w.tasks) (hcompleted : sync.status = .completed)
    (hid : IsCompleted w.tasks taskId) : CompletedBefore w' taskId sync.taskId := by
  obtain ⟨c, hc, hlt⟩ := h
  obtain ⟨task, htask, rfl, hstatus⟩ := hid
  have htask := (htimes task htask (by rw [hstatus]; rfl)).2
  have hsync := (htimes sync hsync (by rw [hcompleted]; rfl)).1
  refine ⟨c, ?_, hsync.symm ▸ hlt⟩
  show w'.completedAt task.taskId = some c
  rw [htask]
  exact hc

/-- Without a follow-up sync there is nothing to say. -/
theorem numbered_of_starting {specs : List DevqlTaskSpec} (h : Starting specs w.record) :
    Numbered w where
  outstanding hrequired := by
    rw [h.required] at hrequired
    cases hrequired
  covered n hn := by
    rw [h.followUpSeq] at hn
    cases hn

/-- The invariant depends on the bootstraps of the record and on the numbers. -/
theorem Numbered.of_same (hn : Numbered w) (hw : WellFormed w) (htimes : KeepsTimes w w')
    (hevolves : Evolves w.tasks w'.tasks)
    (hrequired : w'.record.followUpSyncRequired = w.record.followUpSyncRequired)
    (hseqs : SameSeqs w.record w'.record)
    (hbootstrap : ∀ b : Bootstrap, b.taskId w'.record = b.taskId w.record ∧
      b.selected w'.record = b.selected w.record) : Numbered w' where
  outstanding hr := by
    obtain ⟨b, hselected, hlt⟩ := hn.outstanding (hrequired ▸ hr)
    refine ⟨b, (hbootstrap b).2.trans hselected, ?_⟩
    rw [hseqs.bootstrap, hseqs.initialSync]
    exact hlt
  covered n hseq := by
    rw [hseqs.followUp] at hseq
    obtain ⟨sync, hsync, hkind, hcompleted, hcovers⟩ := hn.covered n hseq
    obtain ⟨sync', hsync', hid', hkind', hstatus'⟩ := hevolves sync hsync
    refine ⟨sync', hsync', hkind'.trans hkind, ?_, fun b m hm hle => ?_⟩
    · exact (hstatus' (by rw [hcompleted]; rfl)).trans hcompleted
    · rw [hseqs.bootstrap] at hm
      rw [(hbootstrap b).1, hid']
      exact (hcovers b m hm hle).of_keepsTimes htimes hsync hcompleted
        (hw.record.isCompleted (Option.isSome_iff_exists.mpr ⟨m, hm⟩))

/-- **A report keeps the numbers right**, if it counts only what was completed before. -/
theorem numbered_report {task : DevqlTaskRecord} {handlers : List Handler} (hn : Numbered w)
    (hw : WellFormed w) (hreported : Reported w.tasks task) (hstored : w.starting = none)
    (hcounts : task.status = .completed → w.record.followUpSyncTaskId = some task.taskId →
      ∀ b : Bootstrap, (b.completionSeq w.record).isSome →
        CompletedBefore w (b.taskId w.record) task.taskId) :
    Numbered { w with record := (recordTaskUpdate w.tasks w.record task).1, handlers } := by
  have hrecorded : Recorded w.tasks w.record task (recordTaskUpdate w.tasks w.record task).1 :=
    recordTaskUpdate_recorded
  have hok := hrecorded.recordOk hw.tasks hw.record hreported
  generalize (recordTaskUpdate w.tasks w.record task).1 = s' at hrecorded hok
  obtain ⟨hsame, hseqs, -, hrequired⟩ := hrecorded
  refine ⟨fun hr => ?_, fun n hn' => ?_⟩
  · rcases hrequired hr with hr | ⟨hstatus, hid, hready⟩
    · obtain ⟨b, hselected, hlt⟩ := hn.outstanding hr
      refine ⟨b, hsame.bootstrap.2.trans hselected, ?_⟩
      obtain ⟨m, hm⟩ := Option.isSome_iff_exists.mp (hw.record.required hr)
      show ∀ n ∈ b.completionSeq s', ∀ m ∈ s'.initialSyncCompletionSeq, m < n
      rw [hseqs.bootstrap, hseqs.initialSync, initialSyncCompletionSeq_mono hm]
      rintro n hn' _ ⟨⟩
      rcases completionSeq_cases w.record task b with heq | ⟨-, heq⟩
      · rw [heq] at hn'
        exact hlt n hn' m hm
      · rw [heq] at hn'
        obtain rfl := Option.some.inj hn'
        exact Nat.lt_succ_of_le (hw.record.initialBound m hm)
    · -- the requirement is new, and a bootstrap that is not completed has no number
      have hrecorded' : Recorded w.tasks w.record task (recordedTask w.record task) :=
        recordedTask_recorded
      obtain ⟨b, hselected, hnot⟩ := exists_not_isCompleted hw.tasks
        (hrecorded'.recordOk hw.tasks hw.record hreported)
        ((hw.stored hstored).of_sameTasks hrecorded'.sameTasks) hready
      rw [hrecorded'.sameTasks.bootstrap.1] at hnot
      rw [hrecorded'.sameTasks.bootstrap.2] at hselected
      refine ⟨b, hsame.bootstrap.2.trans hselected, fun n hn' => absurd ?_ hnot⟩
      rw [← hsame.bootstrap.1]
      exact hok.isCompleted (Option.isSome_iff_exists.mpr ⟨n, hn'⟩)
  · change n ∈ s'.followUpSyncCompletionSeq at hn'
    rw [hseqs.followUp] at hn'
    rcases followUpSyncCompletionSeq_cases w.record task with
      heq | ⟨hstatus, hid, heq, hbootstraps⟩ <;> rw [heq] at hn'
    · obtain ⟨sync, hsync, hkind, hcompleted, hcovers⟩ := hn.covered n hn'
      refine ⟨sync, hsync, hkind, hcompleted, fun b m hm hle => ?_⟩
      change m ∈ b.completionSeq s' at hm
      show CompletedBefore w (b.taskId s') sync.taskId
      rw [hseqs.bootstrap] at hm
      rw [hsame.bootstrap.1]
      rcases completionSeq_cases w.record task b with heq' | ⟨-, heq'⟩
      · rw [heq'] at hm
        exact hcovers b m hm hle
      · -- the new number is greater than that of every sync
        rw [heq'] at hm
        obtain rfl := Option.some.inj hm
        exact absurd (hw.record.followUpBound n hn') (by omega)
    · obtain ⟨sync, hsync, hid', hkind, hcompleted⟩ := hreported
      obtain ⟨sync', hsync', hid'', hkind'⟩ := hw.record.followUp _ hid
      obtain rfl := eq_of_taskId_eq hw.tasks hsync hsync' (hid'.trans hid''.symm)
      refine ⟨sync, hsync, hkind', (hcompleted (by rw [hstatus]; rfl)).trans hstatus, ?_⟩
      intro b m hm _
      change m ∈ b.completionSeq s' at hm
      show CompletedBefore w (b.taskId s') sync.taskId
      rw [hseqs.bootstrap, hbootstraps] at hm
      rw [hsame.bootstrap.1, hid']
      exact hcounts hstatus hid b (Option.isSome_iff_exists.mpr ⟨m, hm⟩)

theorem numbered_handle {h : Handler} {id : String} {now : ℕ} {rest : List Handler}
    (hn : Numbered w) (hw : WellFormed w) (hhandlers : w.handlers = h :: rest)
    (hcounts : CountsStartedAfter w (.handle id now))
    (hstep : handlerStep id now { w with handlers := rest } h = some w') : Numbered w' := by
  have hsame : SameSeqs w.record w.record := ⟨rfl, rfl, rfl, rfl, rfl⟩
  have hkeeps {handlers : List Handler} : Numbered { w with handlers } :=
    { outstanding := hn.outstanding, covered := hn.covered }
  have henqueued {spec : DevqlTaskSpec} {w₁ : World} {task : DevqlTaskRecord}
      {handlers : List Handler}
      (henqueue : enqueue spec id now { w with handlers := rest } = some (w₁, task)) :
      Numbered { w₁ with handlers } := by
    obtain ⟨henqueued, heq⟩ := enqueue_cases henqueue
    rw [heq]
    exact hn.of_same hw (fun _ _ _ => ⟨rfl, rfl⟩) henqueued.evolves rfl hsame
      (fun _ => ⟨rfl, rfl⟩)
  have hok := hw.handlers h (hhandlers ▸ List.mem_cons_self)
  cases h with
  | report task =>
    rw [handlerStep] at hstep
    by_cases hstored : w.starting = none
    · rw [if_pos hstored] at hstep
      obtain rfl := Option.some.inj hstep
      have hnext : w.nextReport = some task := by rw [World.nextReport, hhandlers]
      have hreport : Numbered
          { w with
            record := (recordTaskUpdate w.tasks w.record task).1
            handlers := (if (recordTaskUpdate w.tasks w.record task).2 then
              Handler.enqueueIngest else .loadSession) :: rest } :=
        numbered_report hn hw hok hstored (hcounts task hnext hstored)
      exact hreport
    · rw [if_neg hstored] at hstep
      obtain rfl := Option.some.inj hstep
      exact hkeeps
  | enqueueIngest =>
    simp only [handlerStep, Option.bind_eq_bind, Option.bind_eq_some_iff, Prod.exists] at hstep
    obtain ⟨w₁, task, henqueue, hstep⟩ := hstep
    obtain rfl := Option.some.inj hstep
    exact henqueued henqueue
  | storeIngest ingestTaskId =>
    obtain rfl := Option.some.inj hstep
    exact hn.of_same hw (fun _ _ _ => ⟨rfl, rfl⟩) (Evolves.refl _) rfl ⟨rfl, rfl, rfl, rfl, rfl⟩
      (fun b => by cases b <;> exact ⟨rfl, rfl⟩)
  | loadSession =>
    simp only [handlerStep] at hstep
    split_ifs at hstep <;> obtain rfl := Option.some.inj hstep <;> exact hkeeps
  | loadTasks s =>
    simp only [handlerStep] at hstep
    split_ifs at hstep <;> obtain rfl := Option.some.inj hstep <;> exact hkeeps
  | enqueueFollowUp =>
    simp only [handlerStep, Option.bind_eq_bind, Option.bind_eq_some_iff, Prod.exists] at hstep
    obtain ⟨w₁, task, henqueue, hstep⟩ := hstep
    obtain rfl := Option.some.inj hstep
    exact henqueued henqueue
  | storeFollowUp followUpTaskId =>
    obtain rfl := Option.some.inj hstep
    exact hn.of_same hw (fun _ _ _ => ⟨rfl, rfl⟩) (Evolves.refl _) rfl ⟨rfl, rfl, rfl, rfl, rfl⟩
      (fun b => by cases b <;> exact ⟨rfl, rfl⟩)

/-- **Every step keeps the numbers right**, if the reports count only what was completed before. -/
theorem numbered_step (hn : Numbered w) (hw : WellFormed w) (hcounts : CountsStartedAfter w op)
    (h : step w op = some w') : Numbered w' := by
  have hw' := wellFormed_step hw h
  have hsame : SameSeqs w.record w.record := ⟨rfl, rfl, rfl, rfl, rfl⟩
  cases step_effect hw.tasks h with
  | startEnqueue spec specs task tasks hstarting henqueued heq =>
    exact numbered_of_starting (hw'.starting specs (by rw [heq]))
  | startStore hstarting heq =>
    rw [heq]
    have hstart := hw.starting [] hstarting
    exact { numbered_of_starting hstart with }
  | mutate task f hmutation =>
    refine hn.of_same hw hmutation.times (mutation_evolves hw.tasks hmutation) ?_ ?_ ?_
    all_goals rw [hmutation.record]
    · exact hsame
    · exact fun _ => ⟨rfl, rfl⟩
  | switchHandler handler rest hhandlers heq =>
    rw [heq]
    exact hn.of_same hw (fun _ _ _ => ⟨rfl, rfl⟩) (Evolves.refl _) rfl hsame
      (fun _ => ⟨rfl, rfl⟩)
  | handle id now handler rest hop hhandlers hstep =>
    exact numbered_handle hn hw hhandlers (hop ▸ hcounts) hstep

end Steps

/-! ## The report -/

section Report

variable {w : World} {s : InitSessionRecord} {loaded : LoadedTasks} {stats : SessionStats}

/-- The bootstraps have not failed, as a view of the session sees it. -/
theorem not_failed_of_readFrom (hw : WellFormed w) (hselected : HasSelected w.record)
    (hread : ReadFrom w loaded) (hfatal : hasFatalFailure loaded stats = false) :
    (Bootstrap.embeddings.selected w.record → embeddingsFailed w.record loaded = false) ∧
      (Bootstrap.summaries.selected w.record → summariesFailed w.record loaded = false) := by
  simp only [hasFatalFailure, Bool.or_eq_false_iff] at hfatal
  obtain ⟨⟨⟨-, hembeddings⟩, hsummary⟩, -⟩ := hfatal
  constructor
  · intro hsome
    obtain ⟨ops, w', hexec, hload⟩ := hread.embeddings
    have hpoints := hw.record.embeddings.evolves (evolves_exec hw hexec)
    have hrecord := (wellFormed_exec hw hexec).tasks
    obtain ⟨task, -, -, -, hfound⟩ :=
      exists_loadTaskById hrecord hpoints (hselected.embeddings hsome)
    rw [hload.trans hfound] at hembeddings
    simpa [embeddingsFailed, embeddingsBootstrapStatus, effectiveTaskStatus, hload.trans hfound,
      taskStatusIsFailed, taskFailed] using hembeddings
  · intro hsome
    obtain ⟨ops, w', hexec, hload⟩ := hread.summaryRun
    have hpoints := hw.record.summary.evolves (evolves_exec hw hexec)
    obtain ⟨task, -, -, run, hfound, -⟩ :=
      exists_summaryRun (wellFormed_exec hw hexec).tasks hpoints (hselected.summary hsome)
    rw [hload.trans hfound] at hsummary
    simpa [summariesFailed, summaryBootstrapStatus, hload.trans hfound] using hsummary

/-- Without a pending follow-up, every selected bootstrap has a number that no sync is behind. -/
theorem completionSeq_of_not_pending (hrequired : s.followUpSyncRequired = true)
    (hinitial : s.initialSyncCompletionSeq.isSome)
    (hfailed : (Bootstrap.embeddings.selected s → embeddingsFailed s loaded = false) ∧
      (Bootstrap.summaries.selected s → summariesFailed s loaded = false))
    (hpending : semanticFollowUpPending s loaded = false) (b : Bootstrap) (hb : b.selected s) :
    ∃ n ∈ b.completionSeq s, completedAfterSyncs s (some n) = false := by
  simp only [semanticFollowUpPending, semanticBootstrapStillOutstandingAfterInitialSync,
    semanticFollowUpReadyForSync, Bool.or_eq_false_iff] at hpending
  obtain ⟨⟨-, houtstanding⟩, hready⟩ := hpending
  cases b with
  | embeddings =>
    have houtstanding := houtstanding.1
    have hready := hready.1
    have hfailed := hfailed.1 hb
    simp only [Bootstrap.selected] at hb
    simp only [embeddingsBootstrapOutstandingAfterInitialSync, hb, hinitial, hfailed,
      Bool.not_false, Bool.and_true, Bool.true_and, Option.isNone_eq_false_iff] at houtstanding
    obtain ⟨n, hn⟩ := Option.isSome_iff_exists.mp houtstanding
    refine ⟨n, hn, ?_⟩
    simpa [embeddingsFollowUpPending, hrequired, hb, hfailed, hn] using hready
  | summaries =>
    have houtstanding := houtstanding.2
    have hready := hready.2
    have hfailed := hfailed.2 hb
    simp only [Bootstrap.selected] at hb
    simp only [summaryBootstrapOutstandingAfterInitialSync, hb, hinitial, hfailed,
      Bool.not_false, Bool.and_true, Bool.true_and, Option.isNone_eq_false_iff] at houtstanding
    obtain ⟨n, hn⟩ := Option.isSome_iff_exists.mp houtstanding
    refine ⟨n, hn, ?_⟩
    simpa [summariesFollowUpPending, hrequired, hb, hfailed, hn] using hready

/-- A number that is not after the syncs is bounded by one of theirs. -/
theorem le_of_completedAfterSyncs {n m : ℕ} (hm : s.initialSyncCompletionSeq = some m)
    (h : completedAfterSyncs s (some n) = false) :
    n ≤ m ∨ ∃ k ∈ s.followUpSyncCompletionSeq, n ≤ k := by
  unfold completedAfterSyncs latestCompletedSyncSeq at h
  rw [hm] at h
  cases hk : s.followUpSyncCompletionSeq with
  | none =>
    rw [hk] at h
    exact .inl (not_lt.mp (of_decide_eq_false h))
  | some k =>
    rw [hk] at h
    exact (le_max_iff.mp (not_lt.mp (of_decide_eq_false h))).imp_right fun hle => ⟨k, rfl, hle⟩

/-- A session with the right numbers is not reported as completed too early. -/
theorem Numbered.followUpCovered (hn : Numbered w) (hw : WellFormed w)
    (hreported : ReportedCompleted w) (hrequired : w.record.followUpSyncRequired = true) :
    FollowUpCovered w := by
  obtain ⟨session, hsession, loaded, stats, hread, hcompleted⟩ := hreported
  unfold World.session at hsession
  split_ifs at hsession with hstored
  · obtain rfl := Option.some.inj hsession
    simp only [sessionCompleted, hrequired, Bool.true_and, Bool.and_eq_true,
      Bool.not_eq_true'] at hcompleted
    have hpending : semanticFollowUpPending w.record loaded = false := hcompleted.1.1.1.1.1.1.2
    have hfatal : hasFatalFailure loaded stats = false := hcompleted.1.1.1.1.1.1.1.1.1
    have hinitial := hw.record.required hrequired
    obtain ⟨m, hm⟩ := Option.isSome_iff_exists.mp hinitial
    have hbound : ∀ b : Bootstrap, b.selected w.record →
        ∃ n ∈ b.completionSeq w.record, n ≤ m ∨ ∃ k ∈ w.record.followUpSyncCompletionSeq, n ≤ k := by
      intro b hb
      obtain ⟨n, hseq, hafter⟩ := completionSeq_of_not_pending hrequired hinitial
        (not_failed_of_readFrom hw (hw.stored hstored) hread hfatal) hpending b hb
      exact ⟨n, hseq, le_of_completedAfterSyncs hm hafter⟩
    -- the bootstrap that was outstanding has a number after that of the initial sync
    obtain ⟨b₀, hb₀, hlt⟩ := hn.outstanding hrequired
    obtain ⟨n₀, hn₀, hle₀⟩ := hbound b₀ hb₀
    have hlt₀ := hlt n₀ hn₀ m hm
    obtain ⟨k, hk, hle₀⟩ := hle₀.resolve_left (by omega)
    obtain ⟨sync, hsync, hkind, hstatus, hcovers⟩ := hn.covered k hk
    refine ⟨sync, hsync, hkind, hstatus, fun b hb => ?_⟩
    obtain ⟨n, hseq, hle⟩ := hbound b hb
    refine hcovers b n hseq ?_
    rcases hle with hle | ⟨k', hk', hle⟩
    · omega
    · rw [Option.some.inj (hk.symm.trans hk')]
      exact hle
  · cases hsession

/-- **A follow-up sync covers the bootstraps**, in every run whose reports number a follow-up sync
after those bootstraps only that were completed before it started. -/
theorem followUpCovered_of_countsStartedAfter {initSessionId repoId : String}
    {selections : StartInitSessionSelections} {ops : List Op}
    (hcounts : Run.Meets step CountsStartedAfter (World.initial initSessionId repoId selections)
      ops) :
    ∀ pre w, pre <+: ops →
      Run.exec step (World.initial initSessionId repoId selections) pre = some w →
        ReportedCompleted w → w.record.followUpSyncRequired = true → FollowUpCovered w := by
  rintro pre w ⟨rest, rfl⟩ hexec hreported hrequired
  have hpre := (Run.meets_append.mp hcounts).1
  have hinitial := wellFormed_initial initSessionId repoId selections
  have hnumbered : Numbered (World.initial initSessionId repoId selections) :=
    numbered_of_starting (starting_initial initSessionId repoId selections)
  have hinv := Run.exec_invariant_of_meets (fun w => WellFormed w ∧ Numbered w)
    (fun w op w' hw hop hstep =>
      ⟨wellFormed_step hw.1 hstep, numbered_step hw.2 hw.1 hop hstep⟩) ⟨hinitial, hnumbered⟩
    hpre hexec
  exact hinv.2.followUpCovered hinv.1 hreported hrequired

end Report

/-! ## Two runs -/

instance (w : World) : Decidable (FollowUpCovered w) := by
  unfold FollowUpCovered
  infer_instance

/-- A view of the session that finds every task, and nothing else to wait for. -/
def idleStats : SessionStats where
  failedCurrentStateDetail := none
  currentStateHasPendingOrRunning := false
  embeddingJobsPendingOrRunning := false
  summaryJobsPendingOrRunning := false
  blockedEmbeddingReason := none
  blockedSummaryReason := none
  selectedLaneBlockingReason := none

/-- The session is reported as completed by a view that reads everything at once. -/
def completedNow (w : World) : Bool :=
  w.session.any fun session => sessionCompleted session (loadTasks w.tasks session) idleStats

theorem reportedCompleted_of_completedNow {w : World} (h : completedNow w = true) :
    ReportedCompleted w := by
  unfold completedNow World.session at h
  split_ifs at h with hstored
  · refine ⟨w.record, ?_, loadTasks w.tasks w.record, idleStats, ?_, h⟩
    · rw [World.session, if_pos hstored]
      rfl
    · exact ⟨⟨[], w, rfl, rfl⟩, ⟨[], w, rfl, rfl⟩, ⟨[], w, rfl, rfl⟩, ⟨[], w, rfl, rfl⟩,
        ⟨[], w, rfl, rfl⟩⟩
  · cases h

/-- A sync, an embeddings bootstrap and a summary bootstrap are selected. -/
def bothBootstraps : StartInitSessionSelections where
  runSync := true
  runIngest := false
  ingestBackfill := none
  embeddingsBootstrap := some
    { configPath := "config.toml", profileName := "local", mode := .local,
      gatewayUrlOverride := none, apiKeyEnv := none }
  summariesBootstrap := some
    { action := .configureLocal, message := none, modelName := none, gatewayUrlOverride := none,
      apiKeyEnv := none }

/-- The first handler takes its next steps. -/
def handleNext (taskId : String) (steps : ℕ) : List Op := List.replicate steps (.handle taskId 10)

/-- The session is stored, and the initial sync is completed before both bootstraps. -/
def initialSyncOps : List Op :=
  [.startEnqueue "t1" 1, .startEnqueue "t2" 1, .startEnqueue "t3" 1] ++ handleNext "t4" 6 ++
    [.startStore, .startTask "t1" 2] ++ handleNext "t4" 2 ++ [.finishTask "t1" (.ok ()) 3] ++
    handleNext "t4" 3

/-- Both bootstraps are completed before the follow-up sync starts. -/
def coveredOps : List Op :=
  initialSyncOps ++ [.startTask "t2" 4, .startTask "t3" 4, .finishTask "t2" (.ok ()) 5,
    .finishTask "t3" (.ok ()) 5] ++ handleNext "t4" 11 ++ handleNext "t5" 5 ++
    [.startTask "t4" 6] ++ handleNext "t4" 9 ++ [.finishTask "t4" (.ok ()) 7] ++
    handleNext "t4" 3

/-- The summary bootstrap is completed while the follow-up sync of the other one is running. -/
def uncoveredOps : List Op :=
  initialSyncOps ++ [.startTask "t2" 4, .finishTask "t2" (.ok ()) 5] ++ handleNext "t4" 8 ++
    [.startTask "t4" 6] ++ handleNext "t4" 6 ++ [.startTask "t3" 6, .finishTask "t3" (.ok ()) 7] ++
    handleNext "t4" 6 ++ [.finishTask "t4" (.ok ()) 8] ++ handleNext "t4" 3

theorem bothBootstraps_covered :
    ∃ w, Run.exec step (World.initial "session" "repo" bothBootstraps) coveredOps = some w ∧
      w.record.followUpSyncRequired = true ∧ ReportedCompleted w ∧ FollowUpCovered w := by
  have hrun : (Run.exec step (World.initial "session" "repo" bothBootstraps) coveredOps).map
      (fun w => (w.record.followUpSyncRequired, completedNow w)) = some (true, true) := by
    decide
  obtain ⟨w, hw, hfacts⟩ := Option.map_eq_some_iff.mp hrun
  obtain ⟨hrequired, hcompleted⟩ := Prod.mk.inj hfacts
  have hreported := reportedCompleted_of_completedNow hcompleted
  exact ⟨w, hw, hrequired, hreported, followUpCovered_of_countsStartedAfter
    (by decide +kernel) coveredOps w (List.prefix_refl _) hw hreported hrequired⟩

theorem running_followUp_counted :
    ∃ w, Run.exec step (World.initial "session" "repo" bothBootstraps) uncoveredOps = some w ∧
      w.record.followUpSyncRequired = true ∧ ReportedCompleted w ∧ ¬ FollowUpCovered w := by
  have hrun : (Run.exec step (World.initial "session" "repo" bothBootstraps) uncoveredOps).map
      (fun w => (w.record.followUpSyncRequired, completedNow w, decide (FollowUpCovered w))) =
        some (true, true, false) := by
    decide
  obtain ⟨w, hw, hfacts⟩ := Option.map_eq_some_iff.mp hrun
  simp only [Prod.mk.injEq, decide_eq_false_iff_not] at hfacts
  exact ⟨w, hw, hfacts.1, reportedCompleted_of_completedNow hfacts.2.1, hfacts.2.2⟩

/-! ## Tasks of a session -/

end InitRuntime
end Bitloops
