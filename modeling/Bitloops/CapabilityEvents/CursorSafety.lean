import Bitloops.CapabilityEvents.StoreInvariant

/-!
# Cursor safety

In every state that the coordinator reaches, a cursor mailbox has at most one active run, a
merged delta starts exactly at the cursor, and every generation up to the cursor was covered
by a completed request: it lay in the interval of a merged delta, or at or below the target
of a full reconcile.  The cursor never moves back.

The invariant follows each spawned execution from its claim to its completion.  What keeps
it across the interleaved transactions is that a mailbox has one active run, so that the
cursor of a mailbox moves only when its own execution completes.
-/

namespace Bitloops
namespace CapabilityEvents

open CapabilityHost

/-- The generation was applied by the completed request. -/
def CompletedRequest.Covers (completed : CompletedRequest) (generation : ℕ) : Prop :=
  generation ≤ completed.appliedToGenerationSeq ∧
    completed.appliedToGenerationSeq ≤ completed.request.toGenerationSeqInclusive ∧
    (completed.request.reconcileMode = .mergedDelta →
      completed.request.fromGenerationSeqExclusive < generation)

def activeRuns (s : Store) (mailbox : CursorMailbox) : List StoredRunRecord :=
  s.runs.rows.filter fun run => run.record.mailbox = mailbox ∧ run.active

theorem Store.Consistent.length_activeRuns {s : Store} (hs : s.Consistent)
    (mailbox : CursorMailbox) : (activeRuns s mailbox).length ≤ 1 := by
  have hnodup : (activeRuns s mailbox).Nodup := by
    have hrows : s.runs.rows.Nodup := List.Nodup.of_map _ s.runs.nodup_keys
    exact hrows.filter _
  have hmem (run : StoredRunRecord) (h : run ∈ activeRuns s mailbox) :
      run ∈ s.runs.rows ∧ run.record.mailbox = mailbox ∧ run.active := by
    simpa [activeRuns] using h
  match hruns : activeRuns s mailbox with
  | [] => exact Nat.zero_le 1
  | [_] => exact le_refl 1
  | a :: b :: rest =>
    obtain ⟨ha, ha_box, ha_active⟩ := hmem a (by simp [hruns])
    obtain ⟨hb, hb_box, hb_active⟩ := hmem b (by simp [hruns])
    have hab := hs.one_active a ha b hb ha_active hb_active (ha_box.trans hb_box.symm)
    rw [hruns] at hnodup
    exact absurd hab (List.rel_of_pairwise_cons hnodup List.mem_cons_self)

/-! ## Executions in flight -/

/-- What holds of the plan of a run from the time it is built until the run completes. -/
structure Planned (s : Store) (run : CapabilityEventRunRecord) (plan : ExecutionPlan) : Prop where
  runId : plan.record.runId = run.runId
  mailbox : plan.record.mailbox = run.mailbox
  target : ∃ latest, latestGenerationSeq s run.mailbox.repoId = some latest ∧
    plan.request.toGenerationSeqInclusive ≤ latest
  mergedDelta : plan.request.reconcileMode = .mergedDelta →
    lastApplied s run.mailbox = some plan.request.fromGenerationSeqExclusive
  cursor_le :
    (lastApplied s run.mailbox).getD 0 ≤ plan.request.fromGenerationSeqExclusive + 1

theorem Planned.frame {s s' : Store} {run : CapabilityEventRunRecord} {plan : ExecutionPlan}
    (h : Planned s run plan) (hframe : Frame run.mailbox s s') : Planned s' run plan where
  runId := h.runId
  mailbox := h.mailbox
  target := by
    obtain ⟨latest, hlatest, hle⟩ := h.target
    obtain ⟨latest', hlatest', hle'⟩ := hframe.latest latest hlatest
    exact ⟨latest', hlatest', hle.trans hle'⟩
  mergedDelta := by
    rw [hframe.cursor]
    exact h.mergedDelta
  cursor_le := by
    rw [hframe.cursor]
    exact h.cursor_le

/-- What holds of an execution at its stage; a pending run always has a plan, so no execution
ends without one. -/
def InFlightRun.Sound (s : Store) (execution : InFlightRun) : Prop :=
  match execution.stage with
  | .claimed => Pending s execution.run.record
  | .noop => False
  | .planned plan => Planned s execution.run.record plan

theorem InFlightRun.Sound.frame {s s' : Store} {execution : InFlightRun}
    (h : execution.Sound s) (hframe : Frame execution.mailbox s s') : execution.Sound s' := by
  unfold InFlightRun.Sound at h ⊢
  cases hstage : execution.stage <;> rw [hstage] at h
  case claimed => exact Pending.frame h hframe
  case noop => exact h
  case planned plan => exact Planned.frame h hframe

structure World.Consistent (w : World) : Prop where
  store : w.store.Consistent
  distinct : (w.inFlight.map InFlightRun.runId).Nodup
  running : ∀ execution ∈ w.inFlight, ∃ run ∈ w.store.runs.rows,
    run.record.runId = execution.runId ∧ run.record.mailbox = execution.mailbox ∧
      run.record.status = .running
  sound : ∀ execution ∈ w.inFlight, execution.Sound w.store
  covered : ∀ mailbox n, lastApplied w.store mailbox = some n →
    ∀ generation, 1 ≤ generation → generation ≤ n →
      ∃ completed ∈ w.completed, completed.mailbox = mailbox ∧ completed.Covers generation

theorem World.Consistent.empty : World.empty.Consistent where
  store := Store.Consistent.empty
  distinct := List.nodup_nil
  running _ h := absurd h List.not_mem_nil
  sound _ h := absurd h List.not_mem_nil
  covered _ _ h := by cases h

/-! ## The completion of an execution -/

theorem run_terminalOrRetry (run : CapabilityEventRunRecord) (error : String) :
    (terminalOrRetry run error).run = run := by
  unfold terminalOrRetry
  split_ifs <;> rfl

theorem applied?_terminalOrRetry (run : CapabilityEventRunRecord) (error : String) :
    (terminalOrRetry run error).applied? = none := by
  unfold terminalOrRetry
  split_ifs <;> rfl

section Completion

variable {s : Store} {execution : InFlightRun} {completion : RunCompletion}
  {outcome : Except String CurrentStateConsumerResult}

/-- The record of a completion is the claimed run, or the run of the plan. -/
theorem run_of_completion (h : execution.completion? outcome = some completion) :
    completion.run = execution.run.record ∨
      ∃ plan, execution.stage = .planned plan ∧ completion.run = plan.record := by
  unfold InFlightRun.completion? at h
  split at h
  · obtain rfl := Option.some.inj h
    exact .inl rfl
  · obtain rfl := Option.some.inj h
    exact .inl (run_terminalOrRetry _ _)
  · cases h
  · rename_i plan error hstage
    obtain rfl := Option.some.inj h
    exact .inr ⟨plan, hstage, run_terminalOrRetry _ _⟩
  · rename_i plan result hstage
    split at h <;> obtain rfl := Option.some.inj h
    · exact .inr ⟨plan, hstage, rfl⟩
    · exact .inr ⟨plan, hstage, run_terminalOrRetry _ _⟩

theorem InFlightRun.Sound.completion_run (hsound : execution.Sound s)
    (h : execution.completion? outcome = some completion) :
    completion.run.runId = execution.runId ∧ completion.run.mailbox = execution.mailbox := by
  rcases run_of_completion h with hrun | ⟨plan, hstage, hrun⟩
  · rw [hrun]
    exact ⟨rfl, rfl⟩
  · have hplanned : Planned s execution.run.record plan := by
      simpa only [InFlightRun.Sound, hstage] using hsound
    rw [hrun]
    exact ⟨hplanned.runId, hplanned.mailbox⟩

/-- The cursor is moved only by the completion of a planned request, within its interval. -/
theorem applied_of_completion (h : execution.completion? outcome = some completion) {applied : ℕ}
    (happlied : completion.applied? = some applied) :
    ∃ plan, execution.stage = .planned plan ∧ completion = .completed plan.record applied ∧
      plan.request.fromGenerationSeqExclusive + 1 ≤ applied ∧
      applied ≤ plan.request.toGenerationSeqInclusive ∧
      execution.completedRequest? completion =
        some ⟨plan.record.mailbox, plan.request, applied⟩ := by
  unfold InFlightRun.completion? at h
  split at h
  · obtain rfl := Option.some.inj h
    cases happlied
  · obtain rfl := Option.some.inj h
    rw [applied?_terminalOrRetry] at happlied
    cases happlied
  · cases h
  · obtain rfl := Option.some.inj h
    rw [applied?_terminalOrRetry] at happlied
    cases happlied
  · rename_i plan result hstage
    split at h <;> obtain rfl := Option.some.inj h
    · rename_i hvalid
      obtain rfl := Option.some.inj happlied
      unfold validateConsumerResult at hvalid
      split_ifs at hvalid with hrange
      push Not at hrange
      refine ⟨plan, hstage, rfl, hrange.1, hrange.2, ?_⟩
      simp only [InFlightRun.completedRequest?, hstage]
    · rw [applied?_terminalOrRetry] at happlied
      cases happlied

end Completion

namespace World.Consistent

variable {w w' : World} {s : Store} {execution : InFlightRun}

/-- A transaction on the store alone. -/
theorem of_store (hw : w.Consistent) (hconsistent : w'.store.Consistent)
    (hframe : ∀ mailbox, Frame mailbox w.store w'.store) (hrunning : KeepsRunning w.store w'.store)
    (hinFlight : w'.inFlight = w.inFlight) (hcompleted : w'.completed = w.completed) :
    w'.Consistent := by
  refine ⟨hconsistent, ?_, ?_, ?_, ?_⟩
  · rw [hinFlight]
    exact hw.distinct
  · intro execution hexecution
    rw [hinFlight] at hexecution
    obtain ⟨run, hrun, hid, hbox, hstatus⟩ := hw.running execution hexecution
    obtain ⟨run', hrun', hid', hbox', hstatus'⟩ := hrunning run hrun hstatus
    exact ⟨run', hrun', hid'.trans hid, hbox'.trans hbox, hstatus'⟩
  · intro execution hexecution
    rw [hinFlight] at hexecution
    exact (hw.sound execution hexecution).frame (hframe _)
  · intro mailbox n hn
    rw [(hframe mailbox).cursor] at hn
    rw [hcompleted]
    exact hw.covered mailbox n hn

theorem withStore (hw : w.Consistent) (h : Preserves w.store s) (lost : List CursorMailbox) :
    (w.withStore s lost).Consistent :=
  hw.of_store h.consistent h.frame h.active.keepsRunning rfl rfl

/-- Some executions end without a completion. -/
theorem of_sublist (hw : w.Consistent) {inFlight : List InFlightRun}
    (hsub : inFlight.Sublist w.inFlight) : World.Consistent { w with inFlight } where
  store := hw.store
  distinct := (hsub.map _).nodup hw.distinct
  running execution h := hw.running execution (hsub.subset h)
  sound execution h := hw.sound execution (hsub.subset h)
  covered := hw.covered

/-- Two executions are not of the same mailbox. -/
theorem eq_of_mailbox_eq (hw : w.Consistent) {other : InFlightRun}
    (hexecution : execution ∈ w.inFlight) (hother : other ∈ w.inFlight)
    (hbox : other.mailbox = execution.mailbox) : other.runId = execution.runId := by
  obtain ⟨run, hrun, hid, hmailbox, hstatus⟩ := hw.running execution hexecution
  obtain ⟨run', hrun', hid', hmailbox', hstatus'⟩ := hw.running other hother
  have hsame : run' = run := hw.store.one_active run' hrun' run hrun (.inl hstatus')
    (.inl hstatus) (hmailbox'.trans (hbox.trans hmailbox.symm))
  rw [← hid, ← hid', hsame]

/-! ## Launching and planning -/

theorem launch (hw : w.Consistent) (now : ℕ) :
    World.Consistent
      { w.withStore (launchRunnableRuns now w.store).1 [] with
        inFlight := w.inFlight ++ (launchRunnableRuns now w.store).2.map
          fun run => { run, stage := .claimed } } := by
  have hpreserves := launchRunnableRuns_preserves hw.store now
  have hold : (w.withStore (launchRunnableRuns now w.store).1 []).Consistent :=
    hw.withStore hpreserves []
  refine ⟨hold.store, ?_, ?_, ?_, hold.covered⟩
  · have hspawned : ((launchRunnableRuns now w.store).2.map fun run => run.record.runId).Nodup := by
      simpa [launchRunnableRuns, claimRecord, Function.comp_def] using
        nodup_loadClaimableRuns now w.store
    rw [List.map_append, List.map_map]
    refine hw.distinct.append hspawned ?_
    -- An execution in flight has a running run, a spawned one was queued.
    intro runId hinFlight hmem
    obtain ⟨execution, hexecution, rfl⟩ := List.mem_map.mp hinFlight
    obtain ⟨spawned, hspawn, hid⟩ := List.mem_map.mp hmem
    obtain ⟨run, hrun, hrun_id, -, hrunning⟩ := hw.running execution hexecution
    obtain ⟨⟨queued, hqueued, hqueued_id, hstatus⟩, -, -⟩ :=
      spawned_launchRunnableRuns hw.store now hspawn
    have hsame : queued = run := w.store.runs.eq_of_key_eq hqueued hrun
      (hqueued_id.trans (Eq.trans hid hrun_id.symm))
    rw [hsame, hrunning] at hstatus
    cases hstatus
  · intro execution hexecution
    rcases List.mem_append.mp hexecution with hexecution | hexecution
    · exact hold.running execution hexecution
    · obtain ⟨spawned, hspawn, rfl⟩ := List.mem_map.mp hexecution
      exact (spawned_launchRunnableRuns hw.store now hspawn).2.1
  · intro execution hexecution
    rcases List.mem_append.mp hexecution with hexecution | hexecution
    · exact hold.sound execution hexecution
    · obtain ⟨spawned, hspawn, rfl⟩ := List.mem_map.mp hexecution
      exact (spawned_launchRunnableRuns hw.store now hspawn).2.2.frame (hpreserves.frame _)

/-- Planning a claimed run preserves the store and yields a plan for it. -/
theorem planExecution_spec (hw : w.Consistent) (hexecution : execution ∈ w.inFlight)
    (hstage : execution.stage = .claimed) (now : ℕ) :
    ∃ s plan, planExecution execution now w.store = (s, .planned plan) ∧
      Preserves w.store s ∧ Planned s execution.run.record plan ∧
      s.generations = w.store.generations := by
  have hpending : Pending w.store execution.run.record := by
    simpa only [InFlightRun.Sound, hstage] using hw.sound execution hexecution
  obtain ⟨⟨s, plan⟩, hplan⟩ := Option.isSome_iff_exists.mp
    (hpending.buildExecutionPlan_isSome execution.run.repoRoot now)
  have hspec := plannedFor_of_buildExecutionPlan hplan
  obtain ⟨row, hrow, hid, hbox, hrunning⟩ := hw.running execution hexecution
  have hpreserves := hspec.preserves hw.store hpending hrow hid hbox (.inl hrunning)
  have hframe : Frame execution.run.record.mailbox w.store s := hpreserves.frame _
  refine ⟨s, plan, by simp only [planExecution, hplan], hpreserves, ⟨?_, ?_, ?_, ?_, ?_⟩, ?_⟩
  · rw [hspec.record]
    rfl
  · rw [hspec.record]
    rfl
  · exact hframe.latest _ hspec.latest
  · intro hmode
    rw [hframe.cursor]
    exact hspec.from_eq_cursor hmode
  · rw [hframe.cursor]
    exact hspec.cursor_le hw.store hpending
  · rw [hspec.store]
    rfl

theorem plan (hw : w.Consistent) (hexecution : execution ∈ w.inFlight)
    (hstage : execution.stage = .claimed) (now : ℕ) :
    World.Consistent
      { w.withStore (planExecution execution now w.store).1 [] with
        inFlight := updateAt InFlightRun.runId execution.runId
          (fun other => { other with stage := (planExecution execution now w.store).2 })
          w.inFlight } := by
  obtain ⟨s, plan, hplan, hpreserves, hplanned, -⟩ := hw.planExecution_spec hexecution hstage now
  have hold : (w.withStore s []).Consistent := hw.withStore hpreserves []
  rw [hplan]
  have hstem : ∀ updated ∈ updateAt InFlightRun.runId execution.runId
      (fun other => { other with stage := .planned plan }) w.inFlight,
      ∃ other ∈ w.inFlight, updated.run = other.run ∧
        (updated = other ∨ other = execution ∧ updated.stage = .planned plan) := by
    intro updated hupdated
    obtain ⟨other, hother, rfl⟩ := List.mem_map.mp hupdated
    refine ⟨other, hother, ?_⟩
    split_ifs with hid
    · exact ⟨rfl, .inr ⟨List.inj_on_of_nodup_map hw.distinct hother hexecution hid, rfl⟩⟩
    · exact ⟨rfl, .inl rfl⟩
  refine ⟨hold.store, ?_, ?_, ?_, hold.covered⟩
  · have hids : (updateAt InFlightRun.runId execution.runId
        (fun other => { other with stage := .planned plan }) w.inFlight).map InFlightRun.runId =
        w.inFlight.map InFlightRun.runId := by
      rw [updateAt, List.map_map]
      refine List.map_congr_left fun other _ => ?_
      simp only [Function.comp_apply]
      split_ifs <;> rfl
    rw [hids]
    exact hw.distinct
  · intro updated hupdated
    obtain ⟨other, hother, hrun, -⟩ := hstem updated hupdated
    have hrow := hold.running other hother
    rwa [InFlightRun.runId, InFlightRun.mailbox, ← hrun] at hrow
  · intro updated hupdated
    obtain ⟨other, hother, hrun, rfl | ⟨rfl, hstage'⟩⟩ := hstem updated hupdated
    · exact hold.sound updated hother
    · simp only [InFlightRun.Sound, hstage', hrun]
      exact hplanned

/-! ## Completing -/

/-- The completed requests cover the cursor after a completion: if it moves, a generation up to
the lower end of a merged delta was covered before, and the others are covered now. -/
theorem covered_finish (hw : w.Consistent) (hexecution : execution ∈ w.inFlight)
    {outcome : Except String CurrentStateConsumerResult} {completion : RunCompletion}
    (hcompletion : execution.completion? outcome = some completion) {now n generation : ℕ}
    {mailbox : CursorMailbox}
    (hn : lastApplied (applyCompletion completion now w.store) mailbox = some n)
    (hpos : 1 ≤ generation) (hle : generation ≤ n) :
    ∃ completed ∈ w.completed ++ (execution.completedRequest? completion).toList,
      completed.mailbox = mailbox ∧ completed.Covers generation := by
  have hold (k : ℕ) (hk : lastApplied w.store mailbox = some k) (hle : generation ≤ k) :
      ∃ completed ∈ w.completed ++ (execution.completedRequest? completion).toList,
        completed.mailbox = mailbox ∧ completed.Covers generation := by
    obtain ⟨completed, hmem, hcovers⟩ := hw.covered mailbox k hk generation hpos hle
    exact ⟨completed, List.mem_append_left _ hmem, hcovers⟩
  by_cases hframe : mailbox = completion.run.mailbox → completion.applied? = none
  · have hcursor := (applyCompletion_frame (s := w.store) now hframe).cursor
    exact hold n (hcursor ▸ hn) hle
  · push Not at hframe
    obtain ⟨rfl, hne⟩ := hframe
    obtain ⟨applied, happlied⟩ := Option.ne_none_iff_exists'.mp hne
    obtain ⟨plan, hstage, rfl, -, hto, hrequest⟩ := applied_of_completion hcompletion happlied
    have hplanned : Planned w.store execution.run.record plan := by
      simpa only [InFlightRun.Sound, hstage] using hw.sound execution hexecution
    have hbox : plan.record.mailbox = execution.run.record.mailbox := hplanned.mailbox
    have hrow : (loadConsumerCursor w.store plan.record.mailbox).isSome := by
      obtain ⟨row, hrow, -, hrow_box, hrunning⟩ := hw.running execution hexecution
      have hpending := hw.store.pending row hrow (.inl hrunning)
      rw [hbox, ← show row.record.mailbox = execution.run.record.mailbox from hrow_box]
      exact hpending.row
    obtain rfl := Option.some.inj ((lastApplied_applyCompletion_self now hrow).symm.trans hn)
    by_cases hbelow : plan.request.reconcileMode = .mergedDelta ∧
        generation ≤ plan.request.fromGenerationSeqExclusive
    · refine hold _ ?_ hbelow.2
      rw [RunCompletion.run, hbox]
      exact hplanned.mergedDelta hbelow.1
    · refine ⟨⟨plan.record.mailbox, plan.request, applied⟩, ?_, rfl, hle, hto, fun hmode => ?_⟩
      · rw [hrequest]
        exact List.mem_append_right _ List.mem_cons_self
      · exact not_le.mp fun hle' => hbelow ⟨hmode, hle'⟩

theorem finish (hw : w.Consistent) (hexecution : execution ∈ w.inFlight)
    {outcome : Except String CurrentStateConsumerResult} {completion : RunCompletion}
    (hcompletion : execution.completion? outcome = some completion) (now : ℕ)
    (lost : List CursorMailbox) :
    World.Consistent
      { w.withStore (applyCompletion completion now w.store) lost with
        inFlight := w.inFlight.filter fun other => other.runId ≠ execution.runId
        completed := w.completed ++ (execution.completedRequest? completion).toList } := by
  have hsound := hw.sound execution hexecution
  obtain ⟨hid, hbox⟩ := hsound.completion_run hcompletion
  obtain ⟨row, hrow, hrow_id, hrow_box, hrow_running⟩ := hw.running execution hexecution
  have hother {other : InFlightRun}
      (hmem : other ∈ w.inFlight.filter fun other => other.runId ≠ execution.runId) :
      other ∈ w.inFlight ∧ other.runId ≠ execution.runId := by
    simpa using hmem
  refine ⟨?_, ?_, ?_, ?_, ?_⟩
  · refine applyCompletion_consistent hw.store hrow (hrow_id.trans hid.symm)
      (hrow_box.trans hbox.symm) (.inl hrow_running) fun applied happlied => ?_
    obtain ⟨plan, hstage, -, -, hto, -⟩ := applied_of_completion hcompletion happlied
    have hplanned : Planned w.store execution.run.record plan := by
      simpa only [InFlightRun.Sound, hstage] using hsound
    obtain ⟨latest, hlatest, hle⟩ := hplanned.target
    exact ⟨latest, hbox ▸ hlatest, hto.trans hle⟩
  · exact (List.filter_sublist.map _).nodup hw.distinct
  · intro other hmem
    obtain ⟨hother_mem, hne⟩ := hother hmem
    obtain ⟨run, hrun, hrun_id, hrun_box, hrunning⟩ := hw.running other hother_mem
    have hne' : run.record.runId ≠ completion.run.runId := by
      rw [hrun_id, hid]
      exact hne
    exact ⟨run, mem_applyCompletion_of_ne hrun (.inl hrunning) hne', hrun_id, hrun_box, hrunning⟩
  · intro other hmem
    obtain ⟨hother_mem, hne⟩ := hother hmem
    refine (hw.sound other hother_mem).frame (applyCompletion_frame now fun hsame => absurd ?_ hne)
    exact hw.eq_of_mailbox_eq hexecution hother_mem (hsame.trans hbox)
  · intro mailbox n hn generation hpos hle
    exact hw.covered_finish hexecution hcompletion hn hpos hle

/-- The executions of the old process are gone when the next one recovers. -/
theorem restart (hw : w.Consistent) (now : ℕ) :
    World.Consistent
      { w.withStore (recoverRunningRuns now w.store) [] with inFlight := [] } := by
  refine ⟨recoverRunningRuns_consistent hw.store now, List.nodup_nil, ?_, ?_, hw.covered⟩
  · exact fun _ h => absurd h List.not_mem_nil
  · exact fun _ h => absurd h List.not_mem_nil

end World.Consistent

/-! ## Runs of the coordinator -/

/-- No cursor has moved back. -/
def CursorsAdvance (w w' : World) : Prop :=
  ∀ mailbox n, lastApplied w.store mailbox = some n →
    ∃ n', lastApplied w'.store mailbox = some n' ∧ n ≤ n'

instance : Std.Refl CursorsAdvance := ⟨fun _ _ n hn => ⟨n, hn, le_refl n⟩⟩

instance : IsTrans World CursorsAdvance where
  trans w w' w'' h h' mailbox n hn := by
    obtain ⟨n', hn', hle⟩ := h mailbox n hn
    obtain ⟨n'', hn'', hle'⟩ := h' mailbox n' hn'
    exact ⟨n'', hn'', hle.trans hle'⟩

theorem CursorsAdvance.of_frame {w w' : World}
    (h : ∀ mailbox, Frame mailbox w.store w'.store) : CursorsAdvance w w' :=
  fun mailbox n hn => ⟨n, (h mailbox).cursor.trans hn, le_refl n⟩

/-- A completion moves the cursor of its mailbox forward. -/
theorem World.Consistent.finish_advances {w w' : World} (hw : w.Consistent)
    {execution : InFlightRun} (hexecution : execution ∈ w.inFlight)
    {outcome : Except String CurrentStateConsumerResult} {completion : RunCompletion}
    (hcompletion : execution.completion? outcome = some completion) {now : ℕ}
    (hstore : w'.store = applyCompletion completion now w.store) : CursorsAdvance w w' := by
  intro mailbox n hn
  rw [hstore]
  by_cases hframe : mailbox = completion.run.mailbox → completion.applied? = none
  · exact ⟨n, (applyCompletion_frame now hframe).cursor.trans hn, le_refl n⟩
  · push Not at hframe
    obtain ⟨rfl, hne⟩ := hframe
    obtain ⟨applied, happlied⟩ := Option.ne_none_iff_exists'.mp hne
    obtain ⟨plan, hstage, rfl, hfrom, -, -⟩ := applied_of_completion hcompletion happlied
    have hplanned : Planned w.store execution.run.record plan := by
      simpa only [InFlightRun.Sound, hstage] using hw.sound execution hexecution
    have hrow : (loadConsumerCursor w.store plan.record.mailbox).isSome := by
      by_contra hnone
      rw [Option.not_isSome_iff_eq_none] at hnone
      simp [lastApplied, RunCompletion.run, hnone] at hn
    have hcursor := hplanned.cursor_le
    rw [← hplanned.mailbox, show lastApplied w.store plan.record.mailbox = some n from hn,
      Option.getD_some] at hcursor
    exact ⟨applied, lastApplied_applyCompletion_self now hrow, hcursor.trans hfrom⟩

/-- What one transaction preserves. -/
theorem step_consistent {w w' : World} {op : Op} (hw : w.Consistent)
    (h : step w op = some w') : w'.Consistent ∧ CursorsAdvance w w' := by
  cases op with
  | recordSyncGeneration target summary input now =>
    obtain rfl := Option.some.inj h
    have hpreserves := recordSyncGeneration_preserves hw.store target summary input now
    exact ⟨hw.withStore hpreserves [], .of_frame hpreserves.frame⟩
  | forceConsumerRun request =>
    simp only [step] at h
    split at h <;> obtain rfl := Option.some.inj h
    · rename_i s run hforce
      have hpreserves := forceConsumerRun_preserves hw.store hforce
      exact ⟨hw.withStore hpreserves [], .of_frame hpreserves.frame⟩
    · exact ⟨hw, refl_of CursorsAdvance w⟩
  | launchRunnableRuns now =>
    obtain rfl := Option.some.inj h
    exact ⟨hw.launch now, .of_frame (launchRunnableRuns_preserves hw.store now).frame⟩
  | buildExecutionPlan runId now =>
    simp only [step, Option.bind_eq_bind, Option.bind_eq_some_iff] at h
    obtain ⟨execution, hfind, h⟩ := h
    have hexecution := List.mem_of_find?_eq_some hfind
    have hid : execution.runId = runId := by simpa using List.find?_some hfind
    subst hid
    split_ifs at h with hstage
    obtain rfl := Option.some.inj h
    obtain ⟨s, plan, hplan, hpreserves, -⟩ := hw.planExecution_spec hexecution hstage now
    refine ⟨hw.plan hexecution hstage now, .of_frame fun mailbox => ?_⟩
    simpa only [World.withStore, hplan] using hpreserves.frame mailbox
  | finishRun runId outcome now =>
    simp only [step, Option.bind_eq_bind, Option.bind_eq_some_iff] at h
    obtain ⟨execution, hfind, completion, hcompletion, h⟩ := h
    obtain rfl := Option.some.inj h
    have hexecution := List.mem_of_find?_eq_some hfind
    have hid : execution.runId = runId := by simpa using List.find?_some hfind
    subst hid
    exact ⟨hw.finish hexecution hcompletion now _,
      hw.finish_advances hexecution hcompletion rfl⟩
  | loseRun runId =>
    obtain rfl := Option.some.inj h
    exact ⟨hw.of_sublist List.filter_sublist, fun _ n hn => ⟨n, hn, le_refl n⟩⟩
  | restart now =>
    obtain rfl := Option.some.inj h
    exact ⟨hw.restart now, .of_frame fun _ => Frame.of_runs rfl rfl⟩
  | clearQueuedRunsForRepo repoId =>
    obtain rfl := Option.some.inj h
    have hframe (mailbox : CursorMailbox) :
        Frame mailbox w.store (clearQueuedRunsForRepo repoId w.store) := Frame.of_runs rfl rfl
    refine ⟨hw.of_store ?_ hframe ?_ rfl rfl, .of_frame hframe⟩
    · exact deleteRuns_consistent hw.store _
    · exact clearQueuedRunsForRepo_keepsRunning repoId w.store

theorem run_consistent {w w' : World} {ops : List Op} (hw : w.Consistent)
    (h : Run.exec step w ops = some w') : w'.Consistent :=
  Run.exec_invariant World.Consistent (fun _ _ _ hw h => (step_consistent hw h).1) hw h

theorem run_advances {w w' : World} {ops : List Op} (hw : w.Consistent)
    (h : Run.exec step w ops = some w') : CursorsAdvance w w' :=
  Run.exec_monotone World.Consistent CursorsAdvance
    (fun _ _ _ hw h => (step_consistent hw h).1) (fun _ _ _ hw h => (step_consistent hw h).2) hw h

/-- **Cursor safety.**  In every state that the coordinator reaches from a fresh database, a
mailbox has at most one active run, no later state has a smaller cursor, a planned merged
delta starts at the cursor, and every generation up to the cursor was covered. -/
theorem cursor_safety {ops : List Op} {w : World} (h : Run.exec step World.empty ops = some w) :
    (∀ mailbox, (activeRuns w.store mailbox).length ≤ 1) ∧
    (∀ later w', Run.exec step w later = some w' → CursorsAdvance w w') ∧
    (∀ execution ∈ w.inFlight, ∀ plan, execution.stage = .planned plan →
      plan.request.reconcileMode = .mergedDelta →
      lastApplied w.store execution.mailbox = some plan.request.fromGenerationSeqExclusive) ∧
    (∀ mailbox n, lastApplied w.store mailbox = some n →
      ∀ generation, 1 ≤ generation → generation ≤ n →
        ∃ completed ∈ w.completed, completed.mailbox = mailbox ∧
          completed.Covers generation) := by
  have hw := run_consistent World.Consistent.empty h
  refine ⟨hw.store.length_activeRuns, fun _ _ hlater => run_advances hw hlater, ?_, hw.covered⟩
  intro execution hexecution plan hstage hmode
  have hplanned : Planned w.store execution.run.record plan := by
    simpa only [InFlightRun.Sound, hstage] using hw.sound execution hexecution
  exact hplanned.mergedDelta hmode

/-- A full sync that is applied, and a second sync whose merged delta is in flight. -/
def sampleOps : List Op :=
  [sampleSync "full" "blob-1" 10, .launchRunnableRuns 11, .buildExecutionPlan 1 11,
    .finishRun 1 (.ok ⟨1⟩) 12, sampleSync "paths" "blob-2" 20, .launchRunnableRuns 21,
    .buildExecutionPlan 2 21]

theorem cursor_safety_of_second_sync :
    ∃ w, Run.exec step World.empty sampleOps = some w ∧
      lastApplied w.store sampleMailbox = some 1 ∧
      (w.inFlight.map fun execution => execution.stage).length = 1 ∧
      (activeRuns w.store sampleMailbox).length ≤ 1 ∧
      (∀ execution ∈ w.inFlight, ∀ plan, execution.stage = .planned plan →
        plan.request.reconcileMode = .mergedDelta →
        lastApplied w.store execution.mailbox = some plan.request.fromGenerationSeqExclusive) ∧
      ∃ completed ∈ w.completed, completed.mailbox = sampleMailbox ∧ completed.Covers 1 := by
  have hrun : (Run.exec step World.empty sampleOps).map
      (fun w => (lastApplied w.store sampleMailbox, w.inFlight.length)) = some (some 1, 1) := by
    decide
  obtain ⟨w, hw, hfacts⟩ := Option.map_eq_some_iff.mp hrun
  obtain ⟨hcursor, hflight⟩ := Prod.mk.inj hfacts
  obtain ⟨hactive, -, hmerged, hcovered⟩ := cursor_safety hw
  refine ⟨w, hw, hcursor, ?_, hactive _, hmerged, hcovered _ 1 hcursor 1 le_rfl le_rfl⟩
  rw [List.length_map, hflight]

/-- **Executions and runs.**  In every state that is reached, the executions are of different
mailboxes and each is recorded as running, and an active run whose mode is the merged delta has a
generation to apply. -/
theorem executions_recorded {ops : List Op} {w : World}
    (h : Run.exec step World.empty ops = some w) :
    (∀ execution ∈ w.inFlight, ∀ other ∈ w.inFlight, other.mailbox = execution.mailbox →
      other.runId = execution.runId) ∧
    (w.inFlight.map InFlightRun.runId).Nodup ∧
    (∀ execution ∈ w.inFlight, ∃ run ∈ w.store.runs.rows,
      run.record.runId = execution.runId ∧ run.record.mailbox = execution.mailbox ∧
        run.record.status = .running) ∧
    ∀ run ∈ w.store.runs.rows, run.active → run.record.reconcileMode = .mergedDelta →
      ∃ latest, latestGenerationSeq w.store run.record.mailbox.repoId = some latest ∧
        (lastApplied w.store run.record.mailbox).getD 0 < latest := by
  have hw := run_consistent World.Consistent.empty h
  refine ⟨fun execution hexecution other hother hbox => hw.eq_of_mailbox_eq hexecution hother hbox,
    hw.distinct, hw.running, fun run hrun hactive hmode => ?_⟩
  obtain ⟨latest, hlatest, -, hlt⟩ := (hw.store.pending run hrun hactive).generation
  exact ⟨latest, hlatest, hlt hmode⟩

theorem executions_recorded_of_second_sync :
    ∃ w, Run.exec step World.empty sampleOps = some w ∧ w.inFlight.length = 1 ∧
      ∀ execution ∈ w.inFlight, ∃ run ∈ w.store.runs.rows,
        run.record.runId = execution.runId ∧ run.record.mailbox = execution.mailbox ∧
          run.record.status = .running := by
  have hrun : (Run.exec step World.empty sampleOps).map (fun w => w.inFlight.length) = some 1 := by
    decide
  obtain ⟨w, hw, hflight⟩ := Option.map_eq_some_iff.mp hrun
  exact ⟨w, hw, hflight, (executions_recorded hw).2.2.1⟩

end CapabilityEvents
end Bitloops
