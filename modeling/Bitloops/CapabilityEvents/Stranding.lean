import Bitloops.CapabilityEvents.CursorSafety

/-!
# Stranded generations

A mailbox is *settled* if, once it has no active run and its last run neither failed nor was
cleared, its cursor is the latest generation of the repository.  A generation that is
recorded while a run of the mailbox is running schedules nothing, and the completion of that
run schedules nothing either, so a run that completes behind the latest generation leaves the
mailbox unsettled until the next sync.

A mailbox that subscribes to all generations stays settled in all states of a run exactly
when each accepted result of its consumer reports the generation that is the latest one at
that time.
-/

namespace Bitloops
namespace CapabilityEvents

open CapabilityHost

/-- The operation, if it records a generation of the repository, registers the mailbox. -/
def Subscribes (mailbox : CursorMailbox) : Op → Prop
  | .recordSyncGeneration target summary _ _ =>
    ¬ summary.skipped → target.repoId = mailbox.repoId →
      ∃ registration ∈ target.registrations,
        registeredMailbox? target.repoId registration = some mailbox
  | _ => True

instance (mailbox : CursorMailbox) : DecidablePred (Subscribes mailbox)
  | .recordSyncGeneration target summary _ _ =>
    inferInstanceAs (Decidable (¬ summary.skipped → target.repoId = mailbox.repoId →
      ∃ registration ∈ target.registrations,
        registeredMailbox? target.repoId registration = some mailbox))
  | .forceConsumerRun _ | .launchRunnableRuns _ | .buildExecutionPlan _ _ | .finishRun _ _ _
  | .loseRun _ | .restart _ | .clearQueuedRunsForRepo _ => isTrue trivial

/-- An idle mailbox whose last run neither failed nor was cleared has caught up. -/
def Settled (mailbox : CursorMailbox) (w : World) : Prop :=
  ¬ hasActiveRun w.store mailbox → mailbox ∉ w.excused →
    lastApplied w.store mailbox = latestGenerationSeq w.store mailbox.repoId

instance (mailbox : CursorMailbox) (w : World) : Decidable (Settled mailbox w) :=
  inferInstanceAs (Decidable (_ → _ → _))

/-- If the result is accepted for the plan in flight, it reports the latest generation. -/
def InFlightRun.AppliesLatest (s : Store) (result : CurrentStateConsumerResult)
    (execution : InFlightRun) : Prop :=
  match execution.stage with
  | .planned plan => validateConsumerResult plan.request result = .ok () →
      latestGenerationSeq s execution.mailbox.repoId = some result.appliedToGenerationSeq
  | _ => True

instance (s : Store) (result : CurrentStateConsumerResult) (execution : InFlightRun) :
    Decidable (execution.AppliesLatest s result) := by
  unfold InFlightRun.AppliesLatest
  split <;> infer_instance

/-- An accepted result for the mailbox reports the latest generation of its repository. -/
def AppliesLatest (mailbox : CursorMailbox) (w : World) : Op → Prop
  | .finishRun runId (.ok result) _ => ∀ execution ∈ w.inFlight, execution.runId = runId →
      execution.mailbox = mailbox → execution.AppliesLatest w.store result
  | _ => True

instance (mailbox : CursorMailbox) (w : World) : DecidablePred (AppliesLatest mailbox w)
  | .finishRun runId (.ok result) _ =>
    inferInstanceAs (Decidable (∀ execution ∈ w.inFlight, execution.runId = runId →
      execution.mailbox = mailbox → execution.AppliesLatest w.store result))
  | .finishRun _ (.error _) _ | .recordSyncGeneration _ _ _ _ | .forceConsumerRun _
  | .launchRunnableRuns _ | .buildExecutionPlan _ _ | .loseRun _ | .restart _
  | .clearQueuedRunsForRepo _ => isTrue trivial

/-! ## Generations and active runs -/

section Store

variable {s s' : Store} {mailbox : CursorMailbox} {request : ConsumerRunRequest}

theorem latestGenerationSeq_congr (h : s'.generations = s.generations) (repoId : String) :
    latestGenerationSeq s' repoId = latestGenerationSeq s repoId := by
  rw [latestGenerationSeq, latestGenerationSeq, generationSeqs, generationSeqs, h]

theorem scheduleRun_generations (request : ConsumerRunRequest) (fromSeq toSeq : ℕ)
    (mode : Option ReconcileMode) (s : Store) :
    (scheduleRun request fromSeq toSeq mode s).1.generations = s.generations := by
  unfold scheduleRun
  split
  · split_ifs <;> rfl
  · rfl

theorem ensureConsumerRun_generations (request : ConsumerRunRequest) (s : Store) :
    (ensureConsumerRun request s).1.generations = s.generations := by
  unfold ensureConsumerRun
  split
  · rfl
  · dsimp only
    split_ifs
    · rfl
    all_goals exact scheduleRun_generations _ _ _ _ _

theorem forceConsumerRun_generations {result : Store × StoredRunRecord}
    (h : forceConsumerRun request s = .ok result) : result.1.generations = s.generations := by
  unfold forceConsumerRun at h
  split at h
  · cases h
  · obtain rfl := Except.ok.inj h
    exact scheduleRun_generations _ _ _ _ _

theorem scheduleRegistration_generations (target : SyncTarget) (input : SyncGenerationInput)
    (now : ℕ) (acc : Store × List StoredRunRecord)
    (registration : CapabilityMailboxRegistration) :
    (scheduleRegistration target input now acc registration).1.generations =
      acc.1.generations := by
  unfold scheduleRegistration
  split
  · rfl
  · exact ensureConsumerRun_generations _ _

theorem scheduleRegistrations_generations (target : SyncTarget) (input : SyncGenerationInput)
    (now : ℕ) : ∀ (registrations : List CapabilityMailboxRegistration)
      (acc : Store × List StoredRunRecord),
      (registrations.foldl (scheduleRegistration target input now) acc).1.generations =
        acc.1.generations
  | [], _ => rfl
  | registration :: rest, acc =>
    (scheduleRegistrations_generations target input now rest _).trans
      (scheduleRegistration_generations target input now acc registration)

/-- A recorded sync adds a generation to its own repository only. -/
theorem latestGenerationSeq_recordSyncGeneration {target : SyncTarget} {summary : SyncSummary}
    {input : SyncGenerationInput} {now : ℕ} {repoId : String} (hrepo : repoId ≠ target.repoId) :
    latestGenerationSeq (recordSyncGeneration target summary input now s).1 repoId =
      latestGenerationSeq s repoId := by
  unfold recordSyncGeneration
  split_ifs
  · rfl
  · refine (latestGenerationSeq_congr (s := insertGeneration target summary input now s)
      ?_ repoId).trans ?_
    · exact scheduleRegistrations_generations target input now target.registrations _
    · rw [latestGenerationSeq_insertGeneration, if_neg hrepo]

theorem claimRuns_generations (now : ℕ) : ∀ (runs : List StoredRunRecord) (s : Store),
    (runs.foldl (claimRun now) s).generations = s.generations
  | [], _ => rfl
  | _ :: rest, _ => (claimRuns_generations now rest _).trans rfl

/-- Whatever was scheduled, the mailbox of the request has an active run afterwards. -/
theorem hasActiveRun_scheduleRun (request : ConsumerRunRequest) (fromSeq toSeq : ℕ)
    (mode : Option ReconcileMode) (s : Store) :
    hasActiveRun (scheduleRun request fromSeq toSeq mode s).1 request.mailbox := by
  unfold scheduleRun
  split
  · rename_i run hrun
    obtain ⟨hmem, hmailbox, hactive⟩ := mem_of_loadActiveRunForLane hrun
    split_ifs with hqueued
    · refine ⟨_, mem_updateRun_self (f := refreshRun request fromSeq toSeq mode) (fun _ => rfl)
        hmem, hmailbox, .inr hqueued⟩
    · exact ⟨run, hmem, hmailbox, hactive⟩
  · refine ⟨newRun request fromSeq toSeq (mode.getD .mergedDelta) (s.runs.last + 1), ?_, rfl,
      .inr rfl⟩
    exact List.mem_append_right _ List.mem_cons_self

theorem hasActiveRun_ensureConsumerRun (latest : ℕ)
    (hlatest : latestGenerationSeq s request.mailbox.repoId = some latest)
    (hlt : (lastApplied s request.mailbox).getD 0 < latest) :
    hasActiveRun (ensureConsumerRun request s).1 request.mailbox := by
  simp only [ensureConsumerRun, hlatest, not_le.mpr hlt, ↓reduceIte]
  exact hasActiveRun_scheduleRun _ _ _ _ _

/-- The loop over the registrations schedules a run for each registered mailbox that is behind
the latest generation. -/
theorem hasActiveRun_scheduleRegistrations (target : SyncTarget) (input : SyncGenerationInput)
    (now latest : ℕ) (hmailbox : mailbox.repoId = target.repoId) :
    ∀ (registrations : List CapabilityMailboxRegistration) (acc : Store × List StoredRunRecord),
      acc.1.Consistent → latestGenerationSeq acc.1 mailbox.repoId = some latest →
      (lastApplied acc.1 mailbox).getD 0 < latest →
      (∃ registration ∈ registrations,
        registeredMailbox? target.repoId registration = some mailbox) →
      hasActiveRun (registrations.foldl (scheduleRegistration target input now) acc).1 mailbox
  | [], _, _, _, _, h => by simp at h
  | registration :: rest, acc, hacc, hlatest, hlt, h => by
    have hhead := scheduleRegistration_preserves target input now hacc registration
    have hrest := scheduleRegistrations_preserve target input now rest _ hhead.consistent
    by_cases hreg : registeredMailbox? target.repoId registration = some mailbox
    · refine hrest.active.hasActiveRun ?_
      simp only [scheduleRegistration, hreg]
      refine hasActiveRun_ensureConsumerRun latest hlatest ?_
      rwa [lastApplied_upsertConsumerRow]
    · obtain ⟨other, hother, hsome⟩ := h
      have hother' : other ∈ rest := by
        rcases List.mem_cons.mp hother with rfl | hother
        · exact absurd hsome hreg
        · exact hother
      refine hasActiveRun_scheduleRegistrations target input now latest hmailbox rest _
        hhead.consistent ?_ ?_ ⟨other, hother', hsome⟩
      · rwa [latestGenerationSeq_congr (scheduleRegistration_generations _ _ _ _ _)]
      · rwa [(hhead.frame mailbox).cursor]

/-- After a recorded sync, each registered mailbox of the repository has an active run. -/
theorem hasActiveRun_recordSyncGeneration (hs : s.Consistent) {target : SyncTarget}
    {summary : SyncSummary} {input : SyncGenerationInput} {now : ℕ} (hskipped : ¬ summary.skipped)
    (hrepo : mailbox.repoId = target.repoId)
    (hsub : ∃ registration ∈ target.registrations,
      registeredMailbox? target.repoId registration = some mailbox) :
    hasActiveRun (recordSyncGeneration target summary input now s).1 mailbox := by
  have hinsert := insertGeneration_preserves hs target summary input now
  have hlatest := latestGenerationSeq_insertGeneration target summary input now s mailbox.repoId
  rw [if_pos hrepo] at hlatest
  have hlt : (lastApplied (insertGeneration target summary input now s) mailbox).getD 0 <
      nextGenerationSeq s mailbox.repoId := by
    rw [(hinsert.frame mailbox).cursor, nextGenerationSeq]
    cases hold : latestGenerationSeq s mailbox.repoId with
    | some latest => exact Nat.lt_succ_of_le (hs.cursor_getD_le hold)
    | none =>
      cases hcursor : lastApplied s mailbox with
      | none => exact Nat.succ_pos _
      | some n =>
        obtain ⟨latest, hsome, -⟩ := hs.cursor_le mailbox n hcursor
        rw [hold] at hsome
        cases hsome
  have hscheduled := hasActiveRun_scheduleRegistrations target input now _ hrepo
    target.registrations (insertGeneration target summary input now s, []) hinsert.consistent
    hlatest hlt hsub
  have hfold := scheduleRegistrations_preserve target input now target.registrations
    (insertGeneration target summary input now s, []) hinsert.consistent
  simp only [recordSyncGeneration, hskipped, ↓reduceIte]
  exact (pruneTerminalRuns_preserves hfold.consistent).active.hasActiveRun hscheduled

end Store

/-! ## Settled mailboxes -/

variable {w w' : World} {mailbox : CursorMailbox} {s : Store} {lost : List CursorMailbox}

theorem mem_excused_withStore :
    mailbox ∈ (w.withStore s lost).excused ↔
      (mailbox ∈ w.excused ∨ mailbox ∈ lost) ∧ ¬ hasActiveRun s mailbox := by
  simp [World.withStore, or_and_right]

/-- A transaction that neither moves the cursor nor ends the active run of the mailbox. -/
theorem Settled.withStore (h : Settled mailbox w) (hcursor : lastApplied s mailbox =
    lastApplied w.store mailbox) (hlatest : latestGenerationSeq s mailbox.repoId =
    latestGenerationSeq w.store mailbox.repoId)
    (hactive : hasActiveRun w.store mailbox → hasActiveRun s mailbox) :
    Settled mailbox (w.withStore s lost) := by
  intro hidle hexcused
  have hidle' : ¬ hasActiveRun s mailbox := hidle
  rw [mem_excused_withStore] at hexcused
  have hold : mailbox ∉ w.excused := fun hmem => hexcused ⟨.inl hmem, hidle'⟩
  calc lastApplied s mailbox = lastApplied w.store mailbox := hcursor
    _ = latestGenerationSeq w.store mailbox.repoId := h (mt hactive hidle') hold
    _ = latestGenerationSeq s mailbox.repoId := hlatest.symm

theorem Settled.of_preserves (h : Settled mailbox w) (hpreserves : Preserves w.store s)
    (hgenerations : s.generations = w.store.generations) :
    Settled mailbox (w.withStore s lost) :=
  h.withStore (hpreserves.frame mailbox).cursor (latestGenerationSeq_congr hgenerations _)
    hpreserves.active.hasActiveRun

/-- An active or excused mailbox is settled. -/
theorem Settled.of_active (h : hasActiveRun s mailbox) : Settled mailbox (w.withStore s lost) :=
  fun hidle => absurd h hidle

theorem Settled.of_lost (h : mailbox ∈ lost) : Settled mailbox (w.withStore s lost) :=
  fun hidle hexcused => absurd (mem_excused_withStore.mpr ⟨.inr h, hidle⟩) hexcused

theorem settled_clearQueuedRunsForRepo (h : Settled mailbox w) (repoId : String) :
    Settled mailbox (w.withStore (clearQueuedRunsForRepo repoId w.store)
      ((w.store.runs.rows.filter fun run => queuedOfRepo repoId run).map
        fun run => run.record.mailbox)) := by
  by_cases hcleared : ∃ run ∈ w.store.runs.rows,
      run.record.mailbox = mailbox ∧ queuedOfRepo repoId run
  · obtain ⟨run, hrun, rfl, hqueued⟩ := hcleared
    exact .of_lost (List.mem_map.mpr ⟨run, by simp [hrun, hqueued], rfl⟩)
  · refine h.withStore rfl rfl ?_
    rintro ⟨run, hrun, hmailbox, hactive⟩
    refine ⟨run, mem_clearQueuedRunsForRepo.mpr ⟨hrun, fun hqueued => ?_⟩, hmailbox, hactive⟩
    exact hcleared ⟨run, hrun, hmailbox, hqueued⟩

/-! ## Completions -/

section Finish

variable {execution : InFlightRun} {outcome : Except String CurrentStateConsumerResult}
  {completion : RunCompletion}

/-- A sound execution ends with the result of its consumer, with a retry or with a failure. -/
theorem completion_of_sound (hsound : execution.Sound w.store)
    (h : execution.completion? outcome = some completion) :
    (∃ plan result, execution.stage = .planned plan ∧ outcome = .ok result ∧
        validateConsumerResult plan.request result = .ok () ∧
        completion = .completed plan.record result.appliedToGenerationSeq) ∨
      ∃ run error, completion = terminalOrRetry run error := by
  unfold InFlightRun.completion? at h
  split at h
  · rename_i hstage
    simp only [InFlightRun.Sound, hstage] at hsound
  · exact .inr ⟨_, _, (Option.some.inj h).symm⟩
  · cases h
  · exact .inr ⟨_, _, (Option.some.inj h).symm⟩
  · rename_i plan result hstage
    split at h
    · rename_i hvalid
      exact .inl ⟨plan, result, hstage, rfl, hvalid, (Option.some.inj h).symm⟩
    · exact .inr ⟨_, _, (Option.some.inj h).symm⟩

/-- A run of another mailbox stays active. -/
theorem hasActiveRun_applyCompletion_of_ne (now : ℕ) {row : StoredRunRecord} {s : Store}
    (hrow : row ∈ s.runs.rows) (hid : row.record.runId = completion.run.runId)
    (hne : mailbox ≠ row.record.mailbox) (h : hasActiveRun s mailbox) :
    hasActiveRun (applyCompletion completion now s) mailbox := by
  obtain ⟨run, hrun, rfl, hactive⟩ := h
  refine ⟨run, mem_applyCompletion_of_ne hrun hactive fun hsame => hne ?_, rfl, hactive⟩
  rw [s.runs.eq_of_key_eq hrun hrow (hsame.trans hid.symm)]

/-- A retried run is active. -/
theorem hasActiveRun_applyCompletion_retry (now : ℕ) {row : StoredRunRecord} {s : Store}
    {run : CapabilityEventRunRecord} {error : String} (hrow : row ∈ s.runs.rows)
    (hid : row.record.runId = run.runId) :
    hasActiveRun (applyCompletion (.retryableFailure run error) now s) row.record.mailbox := by
  refine ⟨{ row with record := completeRun (.retryableFailure run error) now row.record },
    mem_pruneTerminalRuns_of_active ?_ (.inr rfl), rfl, .inr rfl⟩
  exact mem_updateRun.mpr ⟨row, hrow, if_pos hid⟩

/-- After a successful completion the mailbox has no active run. -/
theorem not_hasActiveRun_applyCompletion (now : ℕ) {row : StoredRunRecord} {s : Store}
    (hs : s.Consistent)
    (hrow : row ∈ s.runs.rows) (hactive : row.active)
    (hid : row.record.runId = completion.run.runId) {applied : ℕ}
    (happlied : completion.applied? = some applied) :
    ¬ hasActiveRun (applyCompletion completion now s) row.record.mailbox := by
  rintro ⟨a, ha, hmailbox, ha_active⟩
  obtain ⟨a₀, ha₀, ha_eq⟩ := active_applyCompletion ha ha_active
  split_ifs at ha_eq with hsame
  · rw [ha_eq.1] at happlied
    cases happlied
  · subst ha_eq
    exact hsame ((hs.one_active a ha₀ row hrow ha_active hactive hmailbox) ▸ hid)

theorem settled_finish (now : ℕ) (hw : w.Consistent) (h : Settled mailbox w)
    (hexecution : execution ∈ w.inFlight)
    (hcompletion : execution.completion? outcome = some completion)
    (hok : ∀ result, outcome = .ok result → execution.mailbox = mailbox →
      execution.AppliesLatest w.store result) :
    Settled mailbox
      (w.withStore (applyCompletion completion now w.store) completion.failedMailbox?.toList) := by
  have hsound := hw.sound execution hexecution
  obtain ⟨hid, hbox⟩ := hsound.completion_run hcompletion
  obtain ⟨row, hrow, hrow_id, hrow_box, hrunning⟩ := hw.running execution hexecution
  have hid' : row.record.runId = completion.run.runId := hrow_id.trans hid.symm
  by_cases hmailbox : mailbox = execution.mailbox
  · rcases completion_of_sound hsound hcompletion with
      ⟨plan, result, hstage, houtcome, hvalid, rfl⟩ | ⟨run, error, rfl⟩
    · -- The run succeeded: the cursor is the generation that the consumer reported.
      intro _ _
      have hlatest := hok result houtcome hmailbox.symm
      simp only [InFlightRun.AppliesLatest, hstage] at hlatest
      have hcursor_row : (loadConsumerCursor w.store plan.record.mailbox).isSome := by
        have hpending := hw.store.pending row hrow (.inl hrunning)
        rw [show plan.record.mailbox = row.record.mailbox from hbox.trans hrow_box.symm]
        exact hpending.row
      rw [hmailbox]
      refine Eq.trans ?_ (hlatest hvalid).symm
      rw [← hbox]
      exact lastApplied_applyCompletion_self now hcursor_row
    · unfold terminalOrRetry at hbox hid hid' ⊢
      split_ifs at hbox hid hid' ⊢
      · refine .of_lost (List.mem_singleton.mpr ?_)
        exact hmailbox.trans hbox.symm
      · refine .of_active ?_
        rw [hmailbox, ← hrow_box]
        exact hasActiveRun_applyCompletion_retry now hrow hid'
  · have hne : mailbox ≠ completion.run.mailbox := fun hsame => hmailbox (hsame.trans hbox)
    refine h.withStore (applyCompletion_frame now fun hsame => absurd hsame hne).cursor rfl ?_
    exact hasActiveRun_applyCompletion_of_ne now hrow hid' fun hsame =>
      hmailbox (hsame.trans hrow_box)

/-- An accepted result behind the latest generation strands the mailbox. -/
theorem not_settled_finish (now : ℕ) (hw : w.Consistent)
    (hexcused : ∀ mailbox ∈ w.excused, ¬ hasActiveRun w.store mailbox)
    (hexecution : execution ∈ w.inFlight) {result : CurrentStateConsumerResult}
    (hcompletion : execution.completion? (.ok result) = some completion)
    (hbehind : ¬ execution.AppliesLatest w.store result) :
    ¬ Settled execution.mailbox
      (w.withStore (applyCompletion completion now w.store)
        completion.failedMailbox?.toList) := by
  have hsound := hw.sound execution hexecution
  obtain ⟨row, hrow, hrow_id, hrow_box, hrunning⟩ := hw.running execution hexecution
  obtain ⟨hid, hbox⟩ := hsound.completion_run hcompletion
  unfold InFlightRun.AppliesLatest at hbehind
  split at hbehind
  · rename_i plan hstage
    push Not at hbehind
    obtain ⟨hvalid, hlatest⟩ := hbehind
    have hcompleted : completion = .completed plan.record result.appliedToGenerationSeq := by
      simp only [InFlightRun.completion?, hstage, hvalid, Option.some.injEq] at hcompletion
      exact hcompletion.symm
    subst hcompleted
    have hidle := not_hasActiveRun_applyCompletion now hw.store hrow (.inl hrunning)
      (hrow_id.trans hid.symm) rfl
    have hcursor_row : (loadConsumerCursor w.store plan.record.mailbox).isSome := by
      have hpending := hw.store.pending row hrow (.inl hrunning)
      rw [show plan.record.mailbox = row.record.mailbox from hbox.trans hrow_box.symm]
      exact hpending.row
    intro hsettled
    rw [hrow_box] at hidle
    have hcaught := hsettled hidle (by
      rw [mem_excused_withStore]
      rintro ⟨hmem | hmem, -⟩
      · exact hexcused _ hmem ⟨row, hrow, hrow_box, .inl hrunning⟩
      · cases hmem)
    refine hlatest (Eq.trans ?_ (lastApplied_applyCompletion_self now hcursor_row))
    refine Eq.trans hcaught.symm ?_
    rw [← hbox]
    rfl
  · exact absurd trivial hbehind

end Finish

/-! ## Runs of the coordinator -/

/-- Besides the invariant, no mailbox with an active run is excused. -/
def Tracked (w : World) : Prop :=
  w.Consistent ∧ ∀ mailbox ∈ w.excused, ¬ hasActiveRun w.store mailbox

theorem Tracked.empty : Tracked World.empty :=
  ⟨World.Consistent.empty, fun _ h => absurd h List.not_mem_nil⟩

theorem excused_withStore (w : World) (s : Store) (lost : List CursorMailbox) :
    ∀ mailbox ∈ (w.withStore s lost).excused, ¬ hasActiveRun s mailbox :=
  fun _ h => (mem_excused_withStore.mp h).2

theorem tracked_step {op : Op} (hw : Tracked w) (h : step w op = some w') : Tracked w' := by
  refine ⟨(step_consistent hw.1 h).1, ?_⟩
  cases op with
  | recordSyncGeneration target summary input now =>
    obtain rfl := Option.some.inj h
    exact excused_withStore _ _ _
  | forceConsumerRun request =>
    simp only [step] at h
    split at h <;> obtain rfl := Option.some.inj h
    · exact excused_withStore _ _ _
    · exact hw.2
  | launchRunnableRuns now =>
    obtain rfl := Option.some.inj h
    exact excused_withStore _ _ _
  | buildExecutionPlan runId now =>
    simp only [step, Option.bind_eq_bind, Option.bind_eq_some_iff] at h
    obtain ⟨execution, -, h⟩ := h
    split_ifs at h
    obtain rfl := Option.some.inj h
    exact excused_withStore _ _ _
  | finishRun runId outcome now =>
    simp only [step, Option.bind_eq_bind, Option.bind_eq_some_iff] at h
    obtain ⟨execution, -, completion, -, h⟩ := h
    obtain rfl := Option.some.inj h
    exact excused_withStore _ _ _
  | loseRun runId =>
    obtain rfl := Option.some.inj h
    exact hw.2
  | restart now =>
    obtain rfl := Option.some.inj h
    exact excused_withStore _ _ _
  | clearQueuedRunsForRepo repoId =>
    obtain rfl := Option.some.inj h
    exact excused_withStore _ _ _

theorem settled_step {op : Op} (hw : Tracked w) (hset : Settled mailbox w)
    (hsub : Subscribes mailbox op) (hok : AppliesLatest mailbox w op)
    (h : step w op = some w') : Settled mailbox w' := by
  obtain ⟨hw, -⟩ := hw
  cases op with
  | recordSyncGeneration target summary input now =>
    obtain rfl := Option.some.inj h
    by_cases hnew : ¬ summary.skipped ∧ mailbox.repoId = target.repoId
    · exact .of_active
        (hasActiveRun_recordSyncGeneration hw.store hnew.1 hnew.2 (hsub hnew.1 hnew.2.symm))
    · have hpreserves := recordSyncGeneration_preserves hw.store target summary input now
      refine hset.withStore (hpreserves.frame mailbox).cursor ?_ hpreserves.active.hasActiveRun
      by_cases hskipped : summary.skipped
      · simp only [recordSyncGeneration, hskipped, ↓reduceIte]
      · exact latestGenerationSeq_recordSyncGeneration fun hrepo => hnew ⟨hskipped, hrepo⟩
  | forceConsumerRun request =>
    simp only [step] at h
    split at h <;> obtain rfl := Option.some.inj h
    · rename_i s run hforce
      exact hset.of_preserves (forceConsumerRun_preserves hw.store hforce)
        (forceConsumerRun_generations hforce)
    · exact hset
  | launchRunnableRuns now =>
    obtain rfl := Option.some.inj h
    exact hset.of_preserves (launchRunnableRuns_preserves hw.store now)
      (claimRuns_generations now _ _)
  | buildExecutionPlan runId now =>
    simp only [step, Option.bind_eq_bind, Option.bind_eq_some_iff] at h
    obtain ⟨execution, hfind, h⟩ := h
    split_ifs at h with hstage
    obtain rfl := Option.some.inj h
    obtain ⟨s, plan, hplan, hpreserves, -, hgenerations⟩ :=
      hw.planExecution_spec (List.mem_of_find?_eq_some hfind) hstage now
    rw [hplan]
    exact hset.of_preserves hpreserves hgenerations
  | finishRun runId outcome now =>
    simp only [step, Option.bind_eq_bind, Option.bind_eq_some_iff] at h
    obtain ⟨execution, hfind, completion, hcompletion, h⟩ := h
    obtain rfl := Option.some.inj h
    have hexecution := List.mem_of_find?_eq_some hfind
    have hid : execution.runId = runId := by simpa using List.find?_some hfind
    refine settled_finish now hw hset hexecution hcompletion fun result houtcome hbox => ?_
    subst houtcome
    exact hok execution hexecution hid hbox
  | loseRun runId =>
    obtain rfl := Option.some.inj h
    exact hset
  | restart now =>
    obtain rfl := Option.some.inj h
    exact hset.withStore rfl rfl (hasActiveRun_recoverRunningRuns now)
  | clearQueuedRunsForRepo repoId =>
    obtain rfl := Option.some.inj h
    exact settled_clearQueuedRunsForRepo hset repoId

theorem not_settled_step {op : Op} (hw : Tracked w) (hbehind : ¬ AppliesLatest mailbox w op)
    (h : step w op = some w') : ¬ Settled mailbox w' := by
  obtain ⟨hw, hexcused⟩ := hw
  unfold AppliesLatest at hbehind
  split at hbehind
  · rename_i runId result now
    push Not at hbehind
    obtain ⟨execution, hexecution, rfl, rfl, hbehind⟩ := hbehind
    simp only [step, Option.bind_eq_bind, Option.bind_eq_some_iff] at h
    obtain ⟨found, hfind, completion, hcompletion, h⟩ := h
    obtain rfl := Option.some.inj h
    have hid : found.runId = execution.runId := by simpa using List.find?_some hfind
    obtain rfl : found = execution :=
      List.inj_on_of_nodup_map hw.distinct (List.mem_of_find?_eq_some hfind) hexecution hid
    exact not_settled_finish now hw hexcused hexecution hcompletion hbehind
  · exact absurd trivial hbehind

/-- **No generation is stranded, exactly if results report the latest generation.**  A mailbox
that subscribes to all generations of its repository is settled in every state of a run if and
only if each accepted result of its consumer reports the generation that is the latest one
when it is applied. -/
theorem settled_iff_appliesLatest {mailbox : CursorMailbox} {ops : List Op} {w : World}
    (hsub : ∀ op ∈ ops, Subscribes mailbox op)
    (h : Run.exec step World.empty ops = some w) :
    (∀ pre w', pre <+: ops → Run.exec step World.empty pre = some w' → Settled mailbox w') ↔
      Run.Meets step (AppliesLatest mailbox) World.empty ops := by
  refine Run.forall_prefix_iff_meets Tracked (Settled mailbox) (fun _ _ _ => tracked_step) ?_
    (fun _ _ _ => not_settled_step) Tracked.empty (fun _ _ => rfl) h
  exact fun op hop _ _ hw hset hok hstep => settled_step hw hset (hsub op hop) hok hstep

/-- A generation that is recorded before the plan is built is applied by the run. -/
def caughtUpOps : List Op :=
  [sampleSync "full" "blob-1" 10, .launchRunnableRuns 11, sampleSync "paths" "blob-2" 12,
    .buildExecutionPlan 1 13, .finishRun 1 (.ok ⟨2⟩) 14]

theorem caughtUpOps_settled : ∃ w, Run.exec step World.empty caughtUpOps = some w ∧
    ¬ hasActiveRun w.store sampleMailbox ∧ lastApplied w.store sampleMailbox = some 2 ∧
    ∀ pre w', pre <+: caughtUpOps → Run.exec step World.empty pre = some w' →
      Settled sampleMailbox w' := by
  have hrun : (Run.exec step World.empty caughtUpOps).map (fun w =>
      (decide (hasActiveRun w.store sampleMailbox), lastApplied w.store sampleMailbox)) =
        some (false, some 2) := by
    decide
  obtain ⟨w, hw, hfacts⟩ := Option.map_eq_some_iff.mp hrun
  obtain ⟨hidle, hcursor⟩ := Prod.mk.inj hfacts
  refine ⟨w, hw, of_decide_eq_false hidle, hcursor, ?_⟩
  exact (settled_iff_appliesLatest (by decide) hw).mpr (by decide)

/-- A generation that is recorded between the plan and the completion is stranded. -/
def strandedOps : List Op :=
  [sampleSync "full" "blob-1" 10, .launchRunnableRuns 11, .buildExecutionPlan 1 11,
    sampleSync "paths" "blob-2" 12, .finishRun 1 (.ok ⟨1⟩) 13]

theorem generation_stranded : ∃ w, Run.exec step World.empty strandedOps = some w ∧
    (∀ op ∈ strandedOps, Subscribes sampleMailbox op) ∧
    ¬ hasActiveRun w.store sampleMailbox ∧ sampleMailbox ∉ w.excused ∧
    lastApplied w.store sampleMailbox = some 1 ∧
    latestGenerationSeq w.store sampleMailbox.repoId = some 2 := by
  have hrun : (Run.exec step World.empty strandedOps).map (fun w =>
      (decide (hasActiveRun w.store sampleMailbox), decide (sampleMailbox ∈ w.excused),
        lastApplied w.store sampleMailbox, latestGenerationSeq w.store sampleMailbox.repoId)) =
        some (false, false, some 1, some 2) := by
    decide
  obtain ⟨w, hw, hfacts⟩ := Option.map_eq_some_iff.mp hrun
  simp only [Prod.mk.injEq, decide_eq_false_iff_not] at hfacts
  exact ⟨w, hw, by decide, hfacts⟩

end CapabilityEvents
end Bitloops
