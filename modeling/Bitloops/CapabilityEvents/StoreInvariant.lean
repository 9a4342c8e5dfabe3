import Bitloops.CapabilityEvents.Coordinator

/-!
# The invariant of the store

A cursor mailbox has at most one active run, its cursor stays at or below the latest
generation, and an active run is *pending*: there is something left to apply, and a run that
was forced into a full reconcile does not start past the cursor's successor.

`Frame` says that a transaction does not move the cursor of a mailbox.  Every transaction
except a successful completion frames every mailbox.
-/

namespace Bitloops
namespace CapabilityEvents

open CapabilityHost

variable {s s' s'' : Store} {mailbox : CursorMailbox} {record : CapabilityEventRunRecord}

/-- The cursor of the mailbox stays where it is, and generations are only added. -/
structure Frame (mailbox : CursorMailbox) (s s' : Store) : Prop where
  cursor : lastApplied s' mailbox = lastApplied s mailbox
  row : (loadConsumerCursor s mailbox).isSome → (loadConsumerCursor s' mailbox).isSome
  latest : ∀ n, latestGenerationSeq s mailbox.repoId = some n →
    ∃ n', latestGenerationSeq s' mailbox.repoId = some n' ∧ n ≤ n'

theorem Frame.refl (mailbox : CursorMailbox) (s : Store) : Frame mailbox s s :=
  ⟨rfl, id, fun n hn => ⟨n, hn, le_refl n⟩⟩

theorem Frame.trans (h : Frame mailbox s s') (h' : Frame mailbox s' s'') :
    Frame mailbox s s'' where
  cursor := h'.cursor.trans h.cursor
  row hrow := h'.row (h.row hrow)
  latest n hn := by
    obtain ⟨n', hn', hle⟩ := h.latest n hn
    obtain ⟨n'', hn'', hle'⟩ := h'.latest n' hn'
    exact ⟨n'', hn'', hle.trans hle'⟩

/-- A change of the runs alone. -/
theorem Frame.of_runs (hgenerations : s'.generations = s.generations)
    (hmailboxes : s'.mailboxes = s.mailboxes) : Frame mailbox s s' := by
  have hcursor : loadConsumerCursor s' mailbox = loadConsumerCursor s mailbox := by
    rw [loadConsumerCursor, loadConsumerCursor, hmailboxes]
  have hlatest : latestGenerationSeq s' mailbox.repoId = latestGenerationSeq s mailbox.repoId := by
    rw [latestGenerationSeq, latestGenerationSeq, generationSeqs, generationSeqs, hgenerations]
  refine ⟨?_, ?_, ?_⟩
  · rw [lastApplied, lastApplied, hcursor]
  · rw [hcursor]
    exact id
  · intro n hn
    exact ⟨n, hlatest ▸ hn, le_refl n⟩

/-- The run has something to apply. -/
structure Pending (s : Store) (record : CapabilityEventRunRecord) : Prop where
  row : (loadConsumerCursor s record.mailbox).isSome
  generation : ∃ latest, latestGenerationSeq s record.mailbox.repoId = some latest ∧ 1 ≤ latest ∧
    (record.reconcileMode = .mergedDelta → (lastApplied s record.mailbox).getD 0 < latest)
  forced : record.reconcileMode = .fullReconcile →
    (lastApplied s record.mailbox).getD 0 ≤ record.fromGenerationSeq + 1

theorem Pending.frame (h : Pending s record) (hframe : Frame record.mailbox s s') :
    Pending s' record where
  row := hframe.row h.row
  generation := by
    obtain ⟨latest, hlatest, hpos, hlt⟩ := h.generation
    obtain ⟨latest', hlatest', hle⟩ := hframe.latest latest hlatest
    refine ⟨latest', hlatest', hpos.trans hle, fun hmode => ?_⟩
    rw [hframe.cursor]
    exact (hlt hmode).trans_le hle
  forced := by
    rw [hframe.cursor]
    exact h.forced

/-- The columns that `Pending` reads. -/
theorem Pending.congr {record' : CapabilityEventRunRecord} (h : Pending s record)
    (hmailbox : record'.mailbox = record.mailbox)
    (hmode : record'.reconcileMode = record.reconcileMode)
    (hfrom : record'.fromGenerationSeq = record.fromGenerationSeq) : Pending s record' := by
  obtain ⟨hrow, hgeneration, hforced⟩ := h
  refine ⟨?_, ?_, ?_⟩
  · rwa [hmailbox]
  · rwa [hmailbox, hmode]
  · rwa [hmailbox, hmode, hfrom]

structure Store.Consistent (s : Store) : Prop where
  one_active : ∀ a ∈ s.runs.rows, ∀ b ∈ s.runs.rows, a.active → b.active →
    a.record.mailbox = b.record.mailbox → a = b
  positive : ∀ repoId n, latestGenerationSeq s repoId = some n → 1 ≤ n
  cursor_le : ∀ mailbox n, lastApplied s mailbox = some n →
    ∃ latest, latestGenerationSeq s mailbox.repoId = some latest ∧ n ≤ latest
  pending : ∀ run ∈ s.runs.rows, run.active → Pending s run.record

theorem Store.Consistent.empty : Store.empty.Consistent where
  one_active _ ha := absurd ha List.not_mem_nil
  positive _ _ h := by cases h
  cursor_le _ _ h := by cases h
  pending _ h := absurd h List.not_mem_nil

namespace Store.Consistent

/-- The cursor, read as zero before the first completion, is at most the latest generation. -/
theorem cursor_getD_le (hs : s.Consistent) {latest : ℕ}
    (hlatest : latestGenerationSeq s mailbox.repoId = some latest) :
    (lastApplied s mailbox).getD 0 ≤ latest := by
  cases hcursor : lastApplied s mailbox with
  | none => exact Nat.zero_le _
  | some n =>
    obtain ⟨latest', hlatest', hle⟩ := hs.cursor_le mailbox n hcursor
    rw [hlatest, Option.some.injEq] at hlatest'
    exact hlatest' ▸ hle

/-- The cursors of mailboxes that are framed stay below the latest generation. -/
theorem frame_cursor_le (hs : s.Consistent) (hframe : Frame mailbox s s') {n : ℕ}
    (hn : lastApplied s' mailbox = some n) :
    ∃ latest, latestGenerationSeq s' mailbox.repoId = some latest ∧ n ≤ latest := by
  rw [hframe.cursor] at hn
  obtain ⟨latest, hlatest, hle⟩ := hs.cursor_le mailbox n hn
  obtain ⟨latest', hlatest', hle'⟩ := hframe.latest latest hlatest
  exact ⟨latest', hlatest', hle.trans hle'⟩

/-- Each active run of `s'` continues an active run of `s`. -/
theorem of_stem (hs : s.Consistent)
    (hpositive : ∀ repoId n, latestGenerationSeq s' repoId = some n → 1 ≤ n)
    (hcursor : ∀ mailbox n, lastApplied s' mailbox = some n →
      ∃ latest, latestGenerationSeq s' mailbox.repoId = some latest ∧ n ≤ latest)
    (hstem : ∀ a ∈ s'.runs.rows, a.active → ∃ a₀ ∈ s.runs.rows, a₀.active ∧
      a₀.record.runId = a.record.runId ∧ a₀.record.mailbox = a.record.mailbox ∧
      Pending s' a.record) : s'.Consistent where
  one_active := by
    intro a ha b hb hactive hactive' hmailbox
    obtain ⟨a₀, ha₀, hact, hid, hbox, -⟩ := hstem a ha hactive
    obtain ⟨b₀, hb₀, hact', hid', hbox', -⟩ := hstem b hb hactive'
    have hsame : a₀ = b₀ :=
      hs.one_active a₀ ha₀ b₀ hb₀ hact hact' (hbox.trans (hmailbox.trans hbox'.symm))
    exact s'.runs.eq_of_key_eq ha hb (hid.symm.trans (hsame ▸ hid'))
  positive := hpositive
  cursor_le := hcursor
  pending := by
    intro run hrun hactive
    obtain ⟨-, -, -, -, -, hpending⟩ := hstem run hrun hactive
    exact hpending

/-- The runs stay as they are. -/
theorem of_same_runs (hs : s.Consistent) (hframe : ∀ mailbox, Frame mailbox s s')
    (hpositive : ∀ repoId n, latestGenerationSeq s' repoId = some n → 1 ≤ n)
    (hruns : s'.runs = s.runs) : s'.Consistent := by
  refine hs.of_stem hpositive (fun _ _ => hs.frame_cursor_le (hframe _)) fun a ha hactive => ?_
  rw [hruns] at ha
  exact ⟨a, ha, hactive, rfl, rfl, (hs.pending a ha hactive).frame (hframe _)⟩

end Store.Consistent

/-- The running runs of `s` are running in `s'`. -/
def KeepsRunning (s s' : Store) : Prop :=
  ∀ run ∈ s.runs.rows, run.record.status = .running →
    ∃ run' ∈ s'.runs.rows, run'.record.runId = run.record.runId ∧
      run'.record.mailbox = run.record.mailbox ∧ run'.record.status = .running

/-- The active runs of `s` are active in `s'`, and the running ones are running. -/
def KeepsActive (s s' : Store) : Prop :=
  ∀ run ∈ s.runs.rows, run.active →
    ∃ run' ∈ s'.runs.rows, run'.record.runId = run.record.runId ∧
      run'.record.mailbox = run.record.mailbox ∧ run'.active ∧
      (run.record.status = .running → run'.record.status = .running)

theorem KeepsActive.of_subset
    (h : ∀ run ∈ s.runs.rows, run.active → run ∈ s'.runs.rows) : KeepsActive s s' :=
  fun run hrun hactive => ⟨run, h run hrun hactive, rfl, rfl, hactive, id⟩

theorem KeepsActive.trans (h : KeepsActive s s') (h' : KeepsActive s' s'') :
    KeepsActive s s'' := by
  intro run hrun hactive
  obtain ⟨run', hrun', hid, hbox, hactive', hrunning⟩ := h run hrun hactive
  obtain ⟨run'', hrun'', hid', hbox', hactive'', hrunning'⟩ := h' run' hrun' hactive'
  exact ⟨run'', hrun'', hid'.trans hid, hbox'.trans hbox, hactive'', hrunning' ∘ hrunning⟩

theorem KeepsActive.keepsRunning (h : KeepsActive s s') : KeepsRunning s s' := by
  intro run hrun hstatus
  obtain ⟨run', hrun', hid, hbox, -, hrunning⟩ := h run hrun (.inl hstatus)
  exact ⟨run', hrun', hid, hbox, hrunning hstatus⟩

theorem KeepsActive.hasActiveRun (h : KeepsActive s s') (hs : hasActiveRun s mailbox) :
    hasActiveRun s' mailbox := by
  obtain ⟨run, hrun, hmailbox, hactive⟩ := hs
  obtain ⟨run', hrun', -, hbox, hactive', -⟩ := h run hrun hactive
  exact ⟨run', hrun', hbox.trans hmailbox, hactive'⟩

/-- What a transaction that neither completes nor deletes an active run leaves intact. -/
structure Preserves (s s' : Store) : Prop where
  consistent : s'.Consistent
  frame : ∀ mailbox, Frame mailbox s s'
  active : KeepsActive s s'

theorem Preserves.refl (hs : s.Consistent) : Preserves s s :=
  ⟨hs, fun mailbox => Frame.refl mailbox s, KeepsActive.of_subset fun _ h _ => h⟩

theorem Preserves.trans (h : Preserves s s') (h' : Preserves s' s'') : Preserves s s'' :=
  ⟨h'.consistent, fun mailbox => (h.frame mailbox).trans (h'.frame mailbox),
    h.active.trans h'.active⟩

/-! ## Generations and mailbox rows -/

theorem insertGeneration_preserves (hs : s.Consistent) (target : SyncTarget)
    (summary : SyncSummary) (input : SyncGenerationInput) (now : ℕ) :
    Preserves s (insertGeneration target summary input now s) := by
  have hframe (mailbox : CursorMailbox) :
      Frame mailbox s (insertGeneration target summary input now s) := by
    refine ⟨rfl, id, fun n hn => ?_⟩
    rw [latestGenerationSeq_insertGeneration]
    split_ifs
    · refine ⟨_, rfl, ?_⟩
      rw [nextGenerationSeq, hn]
      exact Nat.le_succ n
    · exact ⟨n, hn, le_refl n⟩
  refine ⟨hs.of_same_runs hframe ?_ rfl, hframe, KeepsActive.of_subset fun _ h _ => h⟩
  intro repoId n hn
  rw [latestGenerationSeq_insertGeneration] at hn
  split_ifs at hn
  · obtain rfl := Option.some.inj hn
    exact Nat.le_add_left 1 _
  · exact hs.positive repoId n hn

theorem upsertConsumerRow_preserves (hs : s.Consistent) (mailbox : CursorMailbox) (now : ℕ) :
    Preserves s (upsertConsumerRow mailbox now s) := by
  have hframe (mailbox' : CursorMailbox) :
      Frame mailbox' s (upsertConsumerRow mailbox now s) := by
    refine ⟨lastApplied_upsertConsumerRow now, fun hrow => ?_, fun n hn => ⟨n, hn, le_refl n⟩⟩
    rw [loadConsumerCursor_upsertConsumerRow]
    split_ifs
    · rfl
    · exact hrow
  exact ⟨hs.of_same_runs hframe hs.positive rfl, hframe, KeepsActive.of_subset fun _ h _ => h⟩

/-! ## Scheduling -/

/-- Insert a pending run for a mailbox without an active run. -/
theorem insertRun_preserves (hs : s.Consistent) {mk : ℕ → StoredRunRecord}
    (hmk : ∀ n, (mk n).record.runId = n)
    (hnone : ∀ n, ∀ run ∈ s.runs.rows, run.record.mailbox = (mk n).record.mailbox → ¬ run.active)
    (hpending : ∀ n, Pending s (mk n).record) :
    Preserves s { s with runs := s.runs.insert mk hmk } := by
  have hframe (mailbox : CursorMailbox) :
      Frame mailbox s { s with runs := s.runs.insert mk hmk } := Frame.of_runs rfl rfl
  have hmem (run : StoredRunRecord) (h : run ∈ (s.runs.insert mk hmk).rows) :
      run ∈ s.runs.rows ∨ run = mk (s.runs.last + 1) := by
    simpa using h
  refine ⟨⟨?_, hs.positive, hs.cursor_le, ?_⟩, hframe, KeepsActive.of_subset ?_⟩
  · intro a ha b hb hactive hactive' hmailbox
    rcases hmem a ha with ha | rfl <;> rcases hmem b hb with hb | rfl
    · exact hs.one_active a ha b hb hactive hactive' hmailbox
    · exact absurd hactive (hnone _ a ha hmailbox)
    · exact absurd hactive' (hnone _ b hb hmailbox.symm)
    · rfl
  · intro run hrun hactive
    rcases hmem run hrun with hrun | rfl
    · exact (hs.pending run hrun hactive).frame (hframe _)
    · exact (hpending _).frame (hframe _)
  · intro run hrun _
    simp [hrun]

/-- Rewrite an active run in its mailbox, keeping its status or claiming it. -/
theorem updateRun_preserves (hs : s.Consistent) {run : StoredRunRecord} (hrun : run ∈ s.runs.rows)
    (hactive : run.active) {f : CapabilityEventRunRecord → CapabilityEventRunRecord}
    (hf : ∀ record, (f record).runId = record.runId)
    (hmailbox : (f run.record).mailbox = run.record.mailbox)
    (hstatus : (f run.record).status = run.record.status ∨ (f run.record).status = .running)
    (hpending : Pending s (f run.record)) :
    Preserves s (updateRun run.record.runId f hf s) := by
  have hframe (mailbox : CursorMailbox) : Frame mailbox s (updateRun run.record.runId f hf s) :=
    Frame.of_runs rfl rfl
  have hsame {a : StoredRunRecord} (ha : a ∈ s.runs.rows)
      (hid : a.record.runId = run.record.runId) : a = run :=
    s.runs.eq_of_key_eq ha hrun hid
  refine ⟨hs.of_stem hs.positive hs.cursor_le ?_, hframe, ?_⟩
  · intro a ha ha_active
    obtain ⟨a₀, ha₀, rfl⟩ := mem_updateRun.mp ha
    by_cases hid : a₀.record.runId = run.record.runId
    · obtain rfl := hsame ha₀ hid
      simp only [↓reduceIte]
      exact ⟨a₀, ha₀, hactive, (hf _).symm, hmailbox.symm, hpending.frame (hframe _)⟩
    · simp only [hid, ↓reduceIte] at ha_active ⊢
      exact ⟨a₀, ha₀, ha_active, rfl, rfl, (hs.pending a₀ ha₀ ha_active).frame (hframe _)⟩
  · intro a ha ha_active
    refine ⟨_, mem_updateRun.mpr ⟨a, ha, rfl⟩, ?_⟩
    by_cases hid : a.record.runId = run.record.runId
    · obtain rfl := hsame ha hid
      simp only [↓reduceIte]
      refine ⟨hf _, hmailbox, ?_, fun hrunning => ?_⟩
      · exact hstatus.elim (fun h => by simpa only [StoredRunRecord.active, h] using hactive) .inl
      · exact hstatus.elim (fun h => h.trans hrunning) id
    · simp only [hid, ↓reduceIte]
      exact ⟨trivial, trivial, ha_active, id⟩

theorem scheduleRun_preserves (hs : s.Consistent) {request : ConsumerRunRequest}
    {fromSeq toSeq : ℕ} {mode : Option ReconcileMode}
    (hpending : ∀ record : CapabilityEventRunRecord, record.mailbox = request.mailbox →
      record.fromGenerationSeq = fromSeq →
      (∀ m, mode = some m → record.reconcileMode = m) → Pending s record) :
    Preserves s (scheduleRun request fromSeq toSeq mode s).1 := by
  unfold scheduleRun
  split
  · rename_i run hrun
    obtain ⟨hmem, hmailbox, -⟩ := mem_of_loadActiveRunForLane hrun
    split_ifs with hqueued
    · refine updateRun_preserves hs hmem (.inr hqueued)
        (f := refreshRun request fromSeq toSeq mode) (fun _ => rfl) rfl (.inl rfl)
        (hpending _ hmailbox rfl ?_)
      rintro m rfl
      rfl
    · exact Preserves.refl hs
  · rename_i hnone
    refine insertRun_preserves hs (fun _ => rfl) ?_ ?_
    · exact fun _ => loadActiveRunForLane_eq_none_iff.mp hnone
    · refine fun _ => hpending _ rfl rfl ?_
      rintro m rfl
      rfl

theorem ensureConsumerRun_preserves (hs : s.Consistent) {request : ConsumerRunRequest}
    (hrow : (loadConsumerCursor s request.mailbox).isSome) :
    Preserves s (ensureConsumerRun request s).1 := by
  unfold ensureConsumerRun
  split
  · exact Preserves.refl hs
  · rename_i latest hlatest
    by_cases hle : latest ≤ (lastApplied s request.mailbox).getD 0
    · simp only [hle, ↓reduceIte]
      exact Preserves.refl hs
    · simp only [hle, ↓reduceIte]
      refine scheduleRun_preserves hs fun record hmailbox hfrom _ => ⟨?_, ?_, ?_⟩
      · rwa [hmailbox]
      · rw [hmailbox]
        exact ⟨latest, hlatest, hs.positive _ _ hlatest, fun _ => not_le.mp hle⟩
      · rw [hmailbox, hfrom]
        exact fun _ => Nat.le_succ _

theorem forceConsumerRun_preserves (hs : s.Consistent) {request : ConsumerRunRequest}
    {result : Store × StoredRunRecord} (h : forceConsumerRun request s = .ok result) :
    Preserves s result.1 := by
  unfold forceConsumerRun at h
  split at h
  · cases h
  · rename_i latest hlatest
    obtain rfl := Except.ok.inj h
    have hupsert := upsertConsumerRow_preserves hs request.mailbox request.now
    refine hupsert.trans (scheduleRun_preserves hupsert.consistent ?_)
    intro record hmailbox hfrom hmode
    have hcursor := hs.cursor_getD_le hlatest
    have hpositive := hs.positive _ _ hlatest
    refine ⟨?_, ?_, ?_⟩
    · rw [hmailbox, loadConsumerCursor_upsertConsumerRow, if_pos rfl]
      rfl
    · rw [hmailbox]
      refine ⟨latest, hlatest, hpositive, fun hmerged => ?_⟩
      rw [hmode _ rfl] at hmerged
      cases hmerged
    · rw [hmailbox, hfrom, lastApplied_upsertConsumerRow]
      omega

/-! ## Pruning, clearing and recording -/

theorem deleteRuns_consistent (hs : s.Consistent) (keep : StoredRunRecord → Bool) :
    Store.Consistent { s with runs := s.runs.delete keep } := by
  refine hs.of_stem hs.positive hs.cursor_le fun a ha hactive => ?_
  have ha' : a ∈ s.runs.rows := List.mem_of_mem_filter ha
  exact ⟨a, ha', hactive, rfl, rfl, (hs.pending a ha' hactive).frame (Frame.of_runs rfl rfl)⟩

/-- Pruning deletes terminal runs only. -/
theorem mem_pruneTerminalRuns_of_active {run : StoredRunRecord} (hrun : run ∈ s.runs.rows)
    (hactive : run.active) : run ∈ (pruneTerminalRuns s).runs.rows := by
  simp only [pruneTerminalRuns, SeqTable.rows_delete, List.mem_filter, decide_eq_true_eq]
  refine ⟨hrun, fun hstale => ?_⟩
  obtain ⟨old, hold, hid⟩ := List.mem_map.mp hstale
  have hold' := mem_orderBy.mp (List.mem_of_mem_drop hold)
  simp only [List.mem_filter, decide_eq_true_eq] at hold'
  obtain rfl := s.runs.eq_of_key_eq hold'.1 hrun hid
  exact StoredRunRecord.not_active_of_terminal hold'.2 hactive

theorem pruneTerminalRuns_preserves (hs : s.Consistent) : Preserves s (pruneTerminalRuns s) :=
  ⟨deleteRuns_consistent hs _, fun _ => Frame.of_runs rfl rfl,
    KeepsActive.of_subset fun _ hrun hactive => mem_pruneTerminalRuns_of_active hrun hactive⟩

theorem mem_clearQueuedRunsForRepo {repoId : String} {run : StoredRunRecord} :
    run ∈ (clearQueuedRunsForRepo repoId s).runs.rows ↔
      run ∈ s.runs.rows ∧ ¬ queuedOfRepo repoId run := by
  simp [clearQueuedRunsForRepo]

theorem clearQueuedRunsForRepo_keepsRunning (repoId : String) (s : Store) :
    KeepsRunning s (clearQueuedRunsForRepo repoId s) := by
  intro run hrun hrunning
  refine ⟨run, mem_clearQueuedRunsForRepo.mpr ⟨hrun, fun hqueued => ?_⟩, rfl, rfl, hrunning⟩
  rw [hqueued.2] at hrunning
  cases hrunning

theorem scheduleRegistration_preserves (target : SyncTarget) (input : SyncGenerationInput)
    (now : ℕ) {acc : Store × List StoredRunRecord} (hacc : acc.1.Consistent)
    (registration : CapabilityMailboxRegistration) :
    Preserves acc.1 (scheduleRegistration target input now acc registration).1 := by
  unfold scheduleRegistration
  split
  · exact Preserves.refl hacc
  · rename_i mailbox _
    have hupsert := upsertConsumerRow_preserves hacc mailbox now
    refine hupsert.trans (ensureConsumerRun_preserves hupsert.consistent ?_)
    rw [loadConsumerCursor_upsertConsumerRow, if_pos rfl]
    rfl

theorem scheduleRegistrations_preserve (target : SyncTarget) (input : SyncGenerationInput)
    (now : ℕ) : ∀ (registrations : List CapabilityMailboxRegistration)
      (acc : Store × List StoredRunRecord), acc.1.Consistent →
      Preserves acc.1 (registrations.foldl (scheduleRegistration target input now) acc).1
  | [], _, hacc => Preserves.refl hacc
  | registration :: rest, acc, hacc => by
    have hhead := scheduleRegistration_preserves target input now hacc registration
    exact hhead.trans (scheduleRegistrations_preserve target input now rest _ hhead.consistent)

theorem recordSyncGeneration_preserves (hs : s.Consistent) (target : SyncTarget)
    (summary : SyncSummary) (input : SyncGenerationInput) (now : ℕ) :
    Preserves s (recordSyncGeneration target summary input now s).1 := by
  unfold recordSyncGeneration
  split_ifs
  · exact Preserves.refl hs
  · have hinsert := insertGeneration_preserves hs target summary input now
    have hschedule := scheduleRegistrations_preserve target input now target.registrations
      (insertGeneration target summary input now s, []) hinsert.consistent
    exact (hinsert.trans hschedule).trans (pruneTerminalRuns_preserves hschedule.consistent)

/-! ## Launching and recovering -/

theorem takeClaimable_sublist (now : ℕ) : ∀ (slots : ℕ) (lanes : List String)
    (runs : List StoredRunRecord), (takeClaimable now slots lanes runs).Sublist runs
  | 0, _, runs => by
    rw [takeClaimable]
    exact List.nil_sublist runs
  | _ + 1, _, [] => by
    simp [takeClaimable]
  | slots + 1, lanes, run :: rest => by
    rw [takeClaimable]
    split_ifs
    · exact (takeClaimable_sublist now (slots + 1) lanes rest).cons run
    · exact (takeClaimable_sublist now (slots + 1) lanes rest).cons run
    · exact (takeClaimable_sublist now slots _ rest).cons_cons run

theorem mem_of_mem_loadClaimableRuns {now : ℕ} {run : StoredRunRecord}
    (h : run ∈ loadClaimableRuns now s) : run ∈ s.runs.rows ∧ run.record.status = .queued := by
  have hmem := mem_orderBy.mp ((takeClaimable_sublist now _ _ _).subset h)
  simpa using hmem

theorem nodup_loadClaimableRuns (now : ℕ) (s : Store) :
    ((loadClaimableRuns now s).map fun run => run.record.runId).Nodup := by
  refine ((takeClaimable_sublist now _ _ _).map _).nodup ?_
  have hqueued : ((s.runs.rows.filter fun run => run.record.status = .queued).map
      fun run => run.record.runId).Nodup :=
    (List.filter_sublist.map _).nodup s.runs.nodup_keys
  exact ((perm_orderBy _ _).map _).nodup_iff.mpr hqueued

/-- Claiming queued runs one after the other: each of them is running afterwards. -/
theorem claimRuns_preserve (now : ℕ) : ∀ (runs : List StoredRunRecord) (s : Store),
    s.Consistent → (∀ run ∈ runs, run ∈ s.runs.rows ∧ run.record.status = .queued) →
    (runs.map fun run => run.record.runId).Nodup →
    Preserves s (runs.foldl (claimRun now) s) ∧
      ∀ run ∈ runs, ∃ run' ∈ (runs.foldl (claimRun now) s).runs.rows,
        run'.record.runId = run.record.runId ∧ run'.record.mailbox = run.record.mailbox ∧
          run'.record.status = .running
  | [], s, hs, _, _ => ⟨Preserves.refl hs, fun _ h => absurd h List.not_mem_nil⟩
  | run :: rest, s, hs, hmem, hnodup => by
    obtain ⟨hrun, hqueued⟩ := hmem run List.mem_cons_self
    obtain ⟨hfresh, hnodup⟩ := List.nodup_cons.mp hnodup
    have hpending : Pending s (claimRecord now run.record.attempts run.record) :=
      (hs.pending run hrun (.inr hqueued)).congr rfl rfl rfl
    have hclaim : Preserves s (claimRun now s run) :=
      updateRun_preserves hs hrun (.inr hqueued) _ rfl (.inr rfl) hpending
    have hclaimed : { run with record := claimRecord now run.record.attempts run.record } ∈
        (claimRun now s run).runs.rows :=
      mem_updateRun_self (f := claimRecord now run.record.attempts) (fun _ => rfl) hrun
    have hrest : ∀ other ∈ rest,
        other ∈ (claimRun now s run).runs.rows ∧ other.record.status = .queued := by
      intro other hother
      obtain ⟨hother_mem, hother_queued⟩ := hmem other (List.mem_cons_of_mem _ hother)
      refine ⟨mem_updateRun.mpr ⟨other, hother_mem, if_neg fun hid => ?_⟩, hother_queued⟩
      exact hfresh (List.mem_map.mpr ⟨other, hother, hid⟩)
    obtain ⟨hpreserves, hrunning⟩ :=
      claimRuns_preserve now rest _ hclaim.consistent hrest hnodup
    have hhead := hpreserves.active.keepsRunning _ hclaimed rfl
    refine ⟨hclaim.trans hpreserves, fun other hother => ?_⟩
    rcases List.mem_cons.mp hother with rfl | hother
    · exact hhead
    · exact hrunning other hother

theorem launchRunnableRuns_preserves (hs : s.Consistent) (now : ℕ) :
    Preserves s (launchRunnableRuns now s).1 :=
  (claimRuns_preserve now _ s hs (fun _ => mem_of_mem_loadClaimableRuns)
    (nodup_loadClaimableRuns now s)).1

/-- What is spawned: a pending run that was queued and is running now. -/
theorem spawned_launchRunnableRuns (hs : s.Consistent) (now : ℕ) {spawned : StoredRunRecord}
    (h : spawned ∈ (launchRunnableRuns now s).2) :
    (∃ run ∈ s.runs.rows, run.record.runId = spawned.record.runId ∧
      run.record.status = .queued) ∧
    (∃ run ∈ (launchRunnableRuns now s).1.runs.rows, run.record.runId = spawned.record.runId ∧
      run.record.mailbox = spawned.record.mailbox ∧ run.record.status = .running) ∧
    Pending s spawned.record := by
  obtain ⟨run, hrun, rfl⟩ := List.mem_map.mp h
  obtain ⟨hmem, hqueued⟩ := mem_of_mem_loadClaimableRuns hrun
  refine ⟨⟨run, hmem, rfl, hqueued⟩, ?_, (hs.pending run hmem (.inr hqueued)).congr rfl rfl rfl⟩
  exact (claimRuns_preserve now _ s hs (fun _ => mem_of_mem_loadClaimableRuns)
    (nodup_loadClaimableRuns now s)).2 run hrun

theorem recoverRunningRuns_consistent (hs : s.Consistent) (now : ℕ) :
    (recoverRunningRuns now s).Consistent := by
  refine hs.of_stem hs.positive hs.cursor_le fun a ha hactive => ?_
  obtain ⟨a₀, ha₀, rfl⟩ := List.mem_map.mp ha
  have hframe : Frame a₀.record.mailbox s (recoverRunningRuns now s) := Frame.of_runs rfl rfl
  split_ifs at hactive ⊢ with hrunning
  · have hpending := (hs.pending a₀ ha₀ (.inl hrunning)).frame hframe
    exact ⟨a₀, ha₀, .inl hrunning, rfl, rfl, hpending.congr rfl rfl rfl⟩
  · exact ⟨a₀, ha₀, hactive, rfl, rfl, (hs.pending a₀ ha₀ hactive).frame hframe⟩

theorem hasActiveRun_recoverRunningRuns (now : ℕ) (h : hasActiveRun s mailbox) :
    hasActiveRun (recoverRunningRuns now s) mailbox := by
  obtain ⟨run, hrun, hmailbox, hactive⟩ := h
  refine ⟨_, List.mem_map.mpr ⟨run, hrun, rfl⟩, ?_⟩
  split_ifs
  · exact ⟨hmailbox, .inr rfl⟩
  · exact ⟨hmailbox, hactive⟩

/-! ## Planning -/

section Planning

variable {run : CapabilityEventRunRecord} {now : ℕ} {plan : ExecutionPlan}

/-- A merged delta starts at the cursor. -/
theorem PlannedFor.from_eq_cursor (h : PlannedFor run now s s' plan)
    (hmode : plan.request.reconcileMode = .mergedDelta) :
    lastApplied s run.mailbox = some plan.request.fromGenerationSeqExclusive := by
  obtain ⟨hnotfull, hsome⟩ := h.mergedDelta hmode
  obtain ⟨n, hn⟩ := Option.isSome_iff_exists.mp hsome
  rw [h.lower, fromGenerationSeqExclusive, if_neg hnotfull, hn, Option.getD_some]

/-- A plan starts at most one generation before the cursor. -/
theorem PlannedFor.cursor_le (h : PlannedFor run now s s' plan) (hs : s.Consistent)
    (hrun : Pending s run) :
    (lastApplied s run.mailbox).getD 0 ≤ plan.request.fromGenerationSeqExclusive + 1 := by
  rw [h.lower, fromGenerationSeqExclusive]
  split_ifs with hfull
  · have hforced := hrun.forced hfull
    have hlatest := hs.cursor_getD_le h.latest
    omega
  · exact Nat.le_succ _

/-- The bounds of the plan keep the run pending. -/
theorem PlannedFor.pending (h : PlannedFor run now s s' plan) (hs : s.Consistent)
    (hrun : Pending s run) (hmailbox : record.mailbox = run.mailbox) :
    Pending s (withBounds plan.request.fromGenerationSeqExclusive
      plan.request.toGenerationSeqInclusive plan.request.reconcileMode record) := by
  refine ⟨?_, ⟨plan.request.toGenerationSeqInclusive, ?_, ?_, fun hmode => ?_⟩, fun _ => ?_⟩
  · exact hmailbox ▸ hrun.row
  · exact hmailbox ▸ h.latest
  · exact hs.positive _ _ h.latest
  · have hcursor := h.from_eq_cursor hmode
    rw [← hmailbox] at hcursor
    simpa [withBounds, hcursor] using h.nonempty
  · have hcursor := h.cursor_le hs hrun
    rwa [← hmailbox] at hcursor

theorem PlannedFor.preserves (h : PlannedFor run now s s' plan) (hs : s.Consistent)
    (hrun : Pending s run) {row : StoredRunRecord} (hrow : row ∈ s.runs.rows)
    (hid : row.record.runId = run.runId) (hmailbox : row.record.mailbox = run.mailbox)
    (hactive : row.active) : Preserves s s' := by
  have hupdate := updateRun_preserves hs hrow hactive
    (f := fun row =>
      { withBounds plan.request.fromGenerationSeqExclusive plan.request.toGenerationSeqInclusive
          plan.request.reconcileMode row with updatedAtUnix := now })
    (fun _ => rfl) rfl (.inl rfl) ((h.pending hs hrun hmailbox).congr rfl rfl rfl)
  rw [hid] at hupdate
  exact h.store ▸ hupdate

/-- The plan of a pending run exists. -/
theorem Pending.buildExecutionPlan_isSome (hrun : Pending s run) (repoRoot : String) (now : ℕ) :
    (buildExecutionPlan run repoRoot now s).isSome := by
  obtain ⟨row, hrow⟩ := Option.isSome_iff_exists.mp hrun.row
  obtain ⟨latest, hlatest, hpositive, hlt⟩ := hrun.generation
  refine CapabilityEvents.buildExecutionPlan_isSome hrow hlatest ?_
  rw [fromGenerationSeqExclusive]
  cases hmode : run.reconcileMode with
  | fullReconcile =>
    rw [if_pos rfl]
    omega
  | mergedDelta =>
    have hcursor := hlt hmode
    rw [lastApplied, hrow, Option.bind_some] at hcursor
    simpa using hcursor

end Planning

/-! ## Completing -/

section Completing

variable {completion : RunCompletion} {now : ℕ}

/-- The generation to which a completion moves the cursor. -/
def RunCompletion.applied? : RunCompletion → Option ℕ
  | .completed _ applied => some applied
  | _ => none

theorem lastAppliedGenerationSeq_completeCursor (row : ConsumerCursorRow) :
    (completeCursor completion now row).lastAppliedGenerationSeq =
      completion.applied?.or row.lastAppliedGenerationSeq := by
  cases completion <;> rfl

theorem loadConsumerCursor_applyCompletion :
    loadConsumerCursor (applyCompletion completion now s) mailbox =
      if mailbox = completion.run.mailbox then
        (loadConsumerCursor s mailbox).map (completeCursor completion now)
      else loadConsumerCursor s mailbox :=
  loadConsumerCursor_updateCursorRow fun _ => by cases completion <;> rfl

/-- The cursor moves to the generation that was applied. -/
theorem lastApplied_applyCompletion_self (now : ℕ) {run : CapabilityEventRunRecord} {applied : ℕ}
    (hrow : (loadConsumerCursor s run.mailbox).isSome) :
    lastApplied (applyCompletion (.completed run applied) now s) run.mailbox = some applied := by
  obtain ⟨row, hrow⟩ := Option.isSome_iff_exists.mp hrow
  rw [lastApplied, loadConsumerCursor_applyCompletion, RunCompletion.run, if_pos rfl, hrow]
  rfl

/-- A completion frames the other mailboxes, and its own one unless the run succeeded. -/
theorem applyCompletion_frame (now : ℕ)
    (h : mailbox = completion.run.mailbox → completion.applied? = none) :
    Frame mailbox s (applyCompletion completion now s) := by
  refine ⟨?_, fun hrow => ?_, fun n hn => ⟨n, hn, le_refl n⟩⟩
  · rw [lastApplied, lastApplied, loadConsumerCursor_applyCompletion]
    split_ifs with hmailbox
    · rw [Option.bind_map]
      congr 1
      funext row
      simp [lastAppliedGenerationSeq_completeCursor, h hmailbox]
    · rfl
  · rw [loadConsumerCursor_applyCompletion]
    split_ifs
    · simpa using hrow
    · exact hrow

/-- A run that is active after a completion was active before; the completed run itself is
active only if it is retried. -/
theorem active_applyCompletion {a : StoredRunRecord}
    (ha : a ∈ (applyCompletion completion now s).runs.rows) (hactive : a.active) :
    ∃ a₀ ∈ s.runs.rows, if a₀.record.runId = completion.run.runId then
        completion.applied? = none ∧
          a = { a₀ with record := completeRun completion now a₀.record }
      else a = a₀ := by
  have ha' := mem_updateRun.mp (List.mem_of_mem_filter ha)
  obtain ⟨a₀, ha₀, rfl⟩ := ha'
  refine ⟨a₀, ha₀, ?_⟩
  split_ifs at hactive ⊢ with hid
  · refine ⟨?_, rfl⟩
    cases completion <;> first | rfl | simp [StoredRunRecord.active, completeRun] at hactive
  · rfl

/-- The other runs that are active stay in the table. -/
theorem mem_applyCompletion_of_ne {a : StoredRunRecord} (ha : a ∈ s.runs.rows)
    (hactive : a.active) (hid : a.record.runId ≠ completion.run.runId) :
    a ∈ (applyCompletion completion now s).runs.rows :=
  mem_pruneTerminalRuns_of_active (mem_updateRun.mpr ⟨a, ha, if_neg hid⟩) hactive

theorem applyCompletion_consistent (hs : s.Consistent) {row : StoredRunRecord}
    (hrow : row ∈ s.runs.rows) (hid : row.record.runId = completion.run.runId)
    (hmailbox : row.record.mailbox = completion.run.mailbox) (hactive : row.active)
    (happlied : ∀ applied, completion.applied? = some applied →
      ∃ latest, latestGenerationSeq s completion.run.mailbox.repoId = some latest ∧
        applied ≤ latest) :
    (applyCompletion completion now s).Consistent := by
  have hpending := hs.pending row hrow hactive
  refine hs.of_stem hs.positive ?_ ?_
  · intro mailbox n hn
    by_cases hframe : mailbox = completion.run.mailbox → completion.applied? = none
    · exact hs.frame_cursor_le (applyCompletion_frame now hframe) hn
    · push Not at hframe
      obtain ⟨rfl, hne⟩ := hframe
      obtain ⟨applied, hsome⟩ := Option.ne_none_iff_exists'.mp hne
      rw [lastApplied, loadConsumerCursor_applyCompletion, if_pos rfl, ← hmailbox] at hn
      obtain ⟨cursor, hcursor⟩ := Option.isSome_iff_exists.mp hpending.row
      rw [hcursor, Option.map_some, Option.bind_some, lastAppliedGenerationSeq_completeCursor,
        hsome, Option.some_or, Option.some.injEq] at hn
      exact hn ▸ happlied applied hsome
  · intro a ha ha_active
    obtain ⟨a₀, ha₀, ha_eq⟩ := active_applyCompletion ha ha_active
    by_cases hsame : a₀.record.runId = completion.run.runId
    · rw [if_pos hsame] at ha_eq
      obtain ⟨hnone, rfl⟩ := ha_eq
      obtain rfl : a₀ = row := s.runs.eq_of_key_eq ha₀ hrow (hsame.trans hid.symm)
      refine ⟨a₀, ha₀, hactive, (completeRun_runId _ _ _).symm, ?_⟩
      have hframe := hpending.frame (applyCompletion_frame now fun _ => hnone)
      cases completion with
      | retryableFailure run error => exact ⟨rfl, hframe.congr rfl rfl rfl⟩
      | completed run applied => cases hnone
      | noopCompleted run => simp [StoredRunRecord.active, completeRun] at ha_active
      | failed run error => simp [StoredRunRecord.active, completeRun] at ha_active
    · rw [if_neg hsame] at ha_eq
      subst ha_eq
      refine ⟨a, ha₀, ha_active, rfl, rfl, (hs.pending a ha₀ ha_active).frame ?_⟩
      refine applyCompletion_frame now fun hbox => absurd ?_ hsame
      rw [hs.one_active a ha₀ row hrow ha_active hactive (hbox.trans hmailbox.symm), hid]

end Completing

end CapabilityEvents
end Bitloops
