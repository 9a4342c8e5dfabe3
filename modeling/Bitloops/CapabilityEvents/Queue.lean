import Bitloops.Foundation.KeyedTable
import Bitloops.Foundation.OrderBy
import Bitloops.Foundation.SeqTable
import Bitloops.CapabilityHost.Events

/-!
# The tables of the capability event queue

A sync records a *generation* of its repository, with the file and artefact changes of its
diff.  A *cursor mailbox* (repository, capability, mailbox name) remembers the last
generation that its consumer has applied, and *runs* bring the cursor forward.  This file
models the tables and the operations of `queue.rs` on them.

A run is identified by the uuid in its name; `Uuid::new_v4` is modelled by the sequence
number of the table, which is never handed out twice.
-/

namespace Bitloops
namespace CapabilityEvents

open CapabilityHost

def removedArtefactPlaceholderName : String := "<removed>"

inductive CapabilityEventRunStatus where
  | queued
  | running
  | completed
  | failed
  | cancelled
  deriving DecidableEq, Repr

/-- The primary key of `capability_workplane_cursor_mailboxes`. -/
structure CursorMailbox where
  repoId : String
  capabilityId : String
  mailboxName : String
  deriving DecidableEq, Repr

/-- A row of `capability_workplane_cursor_runs`; `mailbox` holds the columns `repo_id`,
`capability_id` and `mailbox_name`. -/
structure CapabilityEventRunRecord where
  runId : ℕ
  mailbox : CursorMailbox
  initSessionId : Option String
  fromGenerationSeq : ℕ
  toGenerationSeq : ℕ
  reconcileMode : ReconcileMode
  status : CapabilityEventRunStatus
  attempts : ℕ
  submittedAtUnix : ℕ
  startedAtUnix : Option ℕ
  updatedAtUnix : ℕ
  completedAtUnix : Option ℕ
  error : Option String
  deriving DecidableEq, Repr

/-- `build_lane_key`. -/
def CapabilityEventRunRecord.laneKey (run : CapabilityEventRunRecord) : String :=
  run.mailbox.repoId ++ ":" ++ run.mailbox.mailboxName

structure StoredRunRecord where
  record : CapabilityEventRunRecord
  repoRoot : String
  deriving DecidableEq, Repr

namespace StoredRunRecord

/-- `status IN ('running', 'queued')`. -/
def active (run : StoredRunRecord) : Prop :=
  run.record.status = .running ∨ run.record.status = .queued

/-- `status IN ('completed', 'failed', 'cancelled')`. -/
def terminal (run : StoredRunRecord) : Prop :=
  run.record.status = .completed ∨ run.record.status = .failed ∨ run.record.status = .cancelled

instance : DecidablePred active := fun _ => inferInstanceAs (Decidable (_ ∨ _))

instance : DecidablePred terminal := fun _ => inferInstanceAs (Decidable (_ ∨ _ ∨ _))

theorem not_active_of_terminal {run : StoredRunRecord} (h : run.terminal) : ¬ run.active := by
  rcases h with h | h | h <;> simp [active, h]

end StoredRunRecord

structure GenerationRow where
  repoId : String
  generationSeq : ℕ
  sourceTaskId : Option String
  syncMode : String
  activeBranch : Option String
  headCommitSha : Option String
  requiresFullReconcile : Bool
  createdAtUnix : ℕ
  deriving DecidableEq, Repr

inductive ChangeKind where
  | added
  | changed
  | removed
  deriving DecidableEq, Repr

structure FileChangeRow where
  repoId : String
  generationSeq : ℕ
  path : String
  changeKind : ChangeKind
  language : Option String
  contentId : Option String
  deriving DecidableEq, Repr

structure ArtefactChangeRow where
  repoId : String
  generationSeq : ℕ
  symbolId : String
  changeKind : ChangeKind
  artefactId : String
  path : String
  canonicalKind : Option String
  name : String
  deriving DecidableEq, Repr

/-- A row of `capability_workplane_cursor_mailboxes`. -/
structure ConsumerCursorRow where
  mailbox : CursorMailbox
  lastAppliedGenerationSeq : Option ℕ
  lastError : Option String
  updatedAtUnix : ℕ
  deriving DecidableEq, Repr

/-- The runs, under the uuids in their names. -/
abbrev RunTable := SeqTable StoredRunRecord fun run => run.record.runId

structure Store where
  generations : List GenerationRow
  fileChanges : List FileChangeRow
  artefactChanges : List ArtefactChangeRow
  mailboxes : List ConsumerCursorRow
  runs : RunTable

/-- The store of a fresh database. -/
def Store.empty : Store := ⟨[], [], [], [], SeqTable.empty⟩

structure ConsumerRunRequest where
  mailbox : CursorMailbox
  repoRoot : String
  initSessionId : Option String
  now : ℕ
  deriving DecidableEq, Repr

/-! ## Recording the changes of a generation -/

/-- The rows that `insert_file_changes` inserts. -/
def fileChangeRows (repoId : String) (generationSeq : ℕ) (diff : SyncFileDiff) :
    List FileChangeRow :=
  let upserted (changeKind : ChangeKind) (file : ChangedFile) : FileChangeRow :=
    { repoId, generationSeq, path := file.path, changeKind,
      language := some file.language, contentId := some file.contentId }
  diff.added.map (upserted .added) ++ diff.changed.map (upserted .changed) ++
    diff.removed.map fun file =>
      { repoId, generationSeq, path := file.path, changeKind := .removed,
        language := none, contentId := none }

/-- The rows that `insert_artefact_changes` inserts. -/
def artefactChangeRows (repoId : String) (generationSeq : ℕ) (diff : SyncArtefactDiff) :
    List ArtefactChangeRow :=
  let upserted (changeKind : ChangeKind) (artefact : ChangedArtefact) : ArtefactChangeRow :=
    { repoId, generationSeq, symbolId := artefact.symbolId, changeKind,
      artefactId := artefact.artefactId, path := artefact.path,
      canonicalKind := artefact.canonicalKind, name := artefact.name }
  diff.added.map (upserted .added) ++ diff.changed.map (upserted .changed) ++
    diff.removed.map fun artefact =>
      { repoId, generationSeq, symbolId := artefact.symbolId, changeKind := .removed,
        artefactId := artefact.artefactId, path := artefact.path,
        canonicalKind := none, name := removedArtefactPlaceholderName }

def insertFileChanges (repoId : String) (generationSeq : ℕ) (diff : SyncFileDiff)
    (s : Store) : Store :=
  { s with fileChanges := s.fileChanges ++ fileChangeRows repoId generationSeq diff }

def insertArtefactChanges (repoId : String) (generationSeq : ℕ) (diff : SyncArtefactDiff)
    (s : Store) : Store :=
  { s with artefactChanges := s.artefactChanges ++ artefactChangeRows repoId generationSeq diff }

/-! ## Generations and cursors -/

/-- The generation numbers recorded for a repository. -/
def generationSeqs (s : Store) (repoId : String) : List ℕ :=
  (s.generations.filter fun g => g.repoId = repoId).map (·.generationSeq)

/-- `SELECT MAX(generation_seq) …`. -/
def latestGenerationSeq (s : Store) (repoId : String) : Option ℕ := (generationSeqs s repoId).max?

/-- `SELECT COALESCE(MAX(generation_seq), 0) + 1 …`. -/
def nextGenerationSeq (s : Store) (repoId : String) : ℕ :=
  (latestGenerationSeq s repoId).getD 0 + 1

def loadConsumerCursor (s : Store) (mailbox : CursorMailbox) : Option ConsumerCursorRow :=
  findRow (·.mailbox) mailbox s.mailboxes

/-- `last_applied_generation_seq` of a mailbox. -/
def lastApplied (s : Store) (mailbox : CursorMailbox) : Option ℕ :=
  (loadConsumerCursor s mailbox).bind (·.lastAppliedGenerationSeq)

def upsertConsumerRow (mailbox : CursorMailbox) (now : ℕ) (s : Store) : Store :=
  { s with
    mailboxes :=
      match loadConsumerCursor s mailbox with
      | some _ =>
        updateAt (·.mailbox) mailbox (fun row => { row with updatedAtUnix := now }) s.mailboxes
      | none =>
        s.mailboxes ++
          [{ mailbox, lastAppliedGenerationSeq := none, lastError := none, updatedAtUnix := now }] }

/-- `UPDATE capability_workplane_cursor_mailboxes … WHERE` the mailbox. -/
def updateCursorRow (mailbox : CursorMailbox) (f : ConsumerCursorRow → ConsumerCursorRow)
    (s : Store) : Store :=
  { s with mailboxes := updateAt (·.mailbox) mailbox f s.mailboxes }

section Cursors

variable {s : Store} {mailbox mailbox' : CursorMailbox} {repoId : String} {n : ℕ}

theorem mem_generationSeqs_iff :
    n ∈ generationSeqs s repoId ↔ ∃ g ∈ s.generations, g.repoId = repoId ∧ g.generationSeq = n := by
  simp [generationSeqs, and_assoc]

theorem latestGenerationSeq_eq_some_iff :
    latestGenerationSeq s repoId = some n ↔
      n ∈ generationSeqs s repoId ∧ ∀ k ∈ generationSeqs s repoId, k ≤ n :=
  List.max?_eq_some_iff

/-- A generation inserted under the next number is the latest one of its repository. -/
theorem latestGenerationSeq_append {s' : Store} {g : GenerationRow}
    (hs' : s'.generations = s.generations ++ [g])
    (hg : g.generationSeq = nextGenerationSeq s g.repoId) (repoId : String) :
    latestGenerationSeq s' repoId =
      if repoId = g.repoId then some (nextGenerationSeq s repoId)
      else latestGenerationSeq s repoId := by
  by_cases hrepo : repoId = g.repoId
  · subst hrepo
    have hseqs : generationSeqs s' g.repoId = generationSeqs s g.repoId ++ [g.generationSeq] := by
      simp [generationSeqs, hs']
    rw [if_pos rfl, latestGenerationSeq_eq_some_iff, hseqs, hg]
    refine ⟨by simp, fun k hk => ?_⟩
    rcases List.mem_append.mp hk with hk | hk
    · cases hlatest : latestGenerationSeq s g.repoId with
      | none =>
        rw [latestGenerationSeq, List.max?_eq_none_iff] at hlatest
        simp [hlatest] at hk
      | some latest =>
        have hle : k ≤ latest := (latestGenerationSeq_eq_some_iff.mp hlatest).2 k hk
        simp only [nextGenerationSeq, hlatest, Option.getD_some]
        omega
    · exact (List.mem_singleton.mp hk).le
  · have hseqs : generationSeqs s' repoId = generationSeqs s repoId := by
      simp [generationSeqs, hs', Ne.symm hrepo]
    rw [if_neg hrepo, latestGenerationSeq, latestGenerationSeq, hseqs]

/-- The row that an upsert leaves under its mailbox. -/
def upsertedRow (mailbox : CursorMailbox) (now : ℕ) : Option ConsumerCursorRow → ConsumerCursorRow
  | some row => { row with updatedAtUnix := now }
  | none => { mailbox, lastAppliedGenerationSeq := none, lastError := none, updatedAtUnix := now }

theorem loadConsumerCursor_upsertConsumerRow (now : ℕ) :
    loadConsumerCursor (upsertConsumerRow mailbox now s) mailbox' =
      if mailbox' = mailbox then some (upsertedRow mailbox now (loadConsumerCursor s mailbox))
      else loadConsumerCursor s mailbox' := by
  cases hrow : loadConsumerCursor s mailbox with
  | some row =>
    have hmailboxes : (upsertConsumerRow mailbox now s).mailboxes =
        updateAt (·.mailbox) mailbox (fun row => { row with updatedAtUnix := now })
          s.mailboxes := by
      simp [upsertConsumerRow, hrow]
    rw [loadConsumerCursor] at hrow
    rw [loadConsumerCursor, hmailboxes]
    by_cases hne : mailbox' = mailbox
    · subst hne
      rw [findRow_updateAt_self (by intro _; rfl), hrow, if_pos rfl]
      rfl
    · rw [findRow_updateAt_of_ne (by intro _; rfl) hne, if_neg hne, loadConsumerCursor]
  | none =>
    have hmailboxes : (upsertConsumerRow mailbox now s).mailboxes =
        s.mailboxes ++ [upsertedRow mailbox now none] := by
      simp [upsertConsumerRow, hrow, upsertedRow]
    rw [loadConsumerCursor] at hrow
    rw [loadConsumerCursor, hmailboxes]
    exact findRow_append_singleton hrow

@[simp] theorem lastApplied_upsertConsumerRow (now : ℕ) :
    lastApplied (upsertConsumerRow mailbox now s) mailbox' = lastApplied s mailbox' := by
  rw [lastApplied, lastApplied, loadConsumerCursor_upsertConsumerRow]
  split_ifs with hm
  · subst hm
    cases loadConsumerCursor s mailbox' <;> rfl
  · rfl

theorem loadConsumerCursor_updateCursorRow {f : ConsumerCursorRow → ConsumerCursorRow}
    (hf : ∀ row, (f row).mailbox = row.mailbox) :
    loadConsumerCursor (updateCursorRow mailbox f s) mailbox' =
      if mailbox' = mailbox then (loadConsumerCursor s mailbox').map f
      else loadConsumerCursor s mailbox' := by
  simp only [loadConsumerCursor, updateCursorRow]
  split_ifs with hm
  · subst hm
    exact findRow_updateAt_self hf
  · exact findRow_updateAt_of_ne hf hm

end Cursors

/-! ## Runs -/

/-- `UPDATE capability_workplane_cursor_runs … WHERE run_id = …`. -/
def updateRun (runId : ℕ) (f : CapabilityEventRunRecord → CapabilityEventRunRecord)
    (hf : ∀ record, (f record).runId = record.runId) (s : Store) : Store :=
  { s with
    runs := s.runs.modify
      (fun run => if run.record.runId = runId then { run with record := f run.record } else run)
      (by intro run; split <;> simp [hf]) }

theorem mem_updateRun {runId : ℕ} {f : CapabilityEventRunRecord → CapabilityEventRunRecord}
    {hf : ∀ record, (f record).runId = record.runId} {s : Store} {run' : StoredRunRecord} :
    run' ∈ (updateRun runId f hf s).runs.rows ↔
      ∃ run ∈ s.runs.rows,
        (if run.record.runId = runId then { run with record := f run.record } else run) = run' := by
  simp [updateRun]

theorem mem_updateRun_self {f : CapabilityEventRunRecord → CapabilityEventRunRecord}
    (hf : ∀ record, (f record).runId = record.runId) {s : Store} {run : StoredRunRecord}
    (h : run ∈ s.runs.rows) :
    { run with record := f run.record } ∈ (updateRun run.record.runId f hf s).runs.rows :=
  mem_updateRun.mpr ⟨run, h, if_pos rfl⟩

def loadActiveRunForLane (s : Store) (mailbox : CursorMailbox) : Option StoredRunRecord :=
  (orderBy
    (fun run => toLex (if run.record.status = .running then 0 else 1, run.record.submittedAtUnix))
    (s.runs.rows.filter fun run => run.record.mailbox = mailbox ∧ run.active)).head?

theorem loadActiveRunForLane_eq_none_iff {s : Store} {mailbox : CursorMailbox} :
    loadActiveRunForLane s mailbox = none ↔
      ∀ run ∈ s.runs.rows, run.record.mailbox = mailbox → ¬ run.active := by
  rw [loadActiveRunForLane, orderBy_head?_eq_none, List.filter_eq_nil_iff]
  simp

theorem mem_of_loadActiveRunForLane {s : Store} {mailbox : CursorMailbox} {run : StoredRunRecord}
    (h : loadActiveRunForLane s mailbox = some run) :
    run ∈ s.runs.rows ∧ run.record.mailbox = mailbox ∧ run.active := by
  simpa using (orderBy_head? h).1

/-- A new queued run. -/
def newRun (request : ConsumerRunRequest) (fromSeq toSeq : ℕ) (mode : ReconcileMode)
    (runId : ℕ) : StoredRunRecord where
  record :=
    { runId
      mailbox := request.mailbox
      initSessionId := request.initSessionId
      fromGenerationSeq := fromSeq
      toGenerationSeq := toSeq
      reconcileMode := mode
      status := .queued
      attempts := 0
      submittedAtUnix := request.now
      startedAtUnix := none
      updatedAtUnix := request.now
      completedAtUnix := none
      error := none }
  repoRoot := request.repoRoot

/-- The new bounds of a queued run; `mode` is set only when it is forced. -/
def refreshRun (request : ConsumerRunRequest) (fromSeq toSeq : ℕ) (mode : Option ReconcileMode)
    (record : CapabilityEventRunRecord) : CapabilityEventRunRecord :=
  { record with
    fromGenerationSeq := fromSeq
    toGenerationSeq := toSeq
    reconcileMode := mode.getD record.reconcileMode
    initSessionId := record.initSessionId.or request.initSessionId
    updatedAtUnix := request.now }

/-- What `ensure_consumer_run` and `force_consumer_run` do once the bounds are known: refresh
the queued run of the mailbox, leave a running one alone, and insert a run if there is none.
The second component is the run that now stands for the request. -/
def scheduleRun (request : ConsumerRunRequest) (fromSeq toSeq : ℕ) (mode : Option ReconcileMode)
    (s : Store) : Store × StoredRunRecord :=
  match loadActiveRunForLane s request.mailbox with
  | some run =>
    if run.record.status = .queued then
      (updateRun run.record.runId (refreshRun request fromSeq toSeq mode) (fun _ => rfl) s,
        { run with record := refreshRun request fromSeq toSeq mode run.record })
    else (s, run)
  | none =>
    let mk := newRun request fromSeq toSeq (mode.getD .mergedDelta)
    ({ s with runs := s.runs.insert mk fun _ => rfl }, mk (s.runs.last + 1))

/-- Schedule a run unless the cursor has reached the latest generation; a run that is already
running is not reported. -/
def ensureConsumerRun (request : ConsumerRunRequest) (s : Store) :
    Store × Option StoredRunRecord :=
  match latestGenerationSeq s request.mailbox.repoId with
  | none => (s, none)
  | some latestGeneration =>
    let lastAppliedGeneration := (lastApplied s request.mailbox).getD 0
    if latestGeneration ≤ lastAppliedGeneration then (s, none)
    else
      let scheduled := scheduleRun request lastAppliedGeneration latestGeneration none s
      (scheduled.1,
        if scheduled.2.record.status = .queued then some scheduled.2 else none)

/-- Schedule a full reconcile that ends at the latest generation. -/
def forceConsumerRun (request : ConsumerRunRequest) (s : Store) :
    Except String (Store × StoredRunRecord) :=
  match latestGenerationSeq s request.mailbox.repoId with
  | none => .error "run DevQL sync first before refreshing CodeCity"
  | some latestGeneration =>
    let s := upsertConsumerRow request.mailbox request.now s
    .ok (scheduleRun request (latestGeneration - 1) latestGeneration (some .fullReconcile) s)

/-- Keep the hundred newest terminal runs. -/
def pruneTerminalRuns (s : Store) : Store :=
  let terminal := s.runs.rows.filter fun run => run.terminal
  let stale :=
    (orderBy
      (fun run => OrderDual.toDual (run.record.completedAtUnix.getD run.record.updatedAtUnix))
      terminal).drop 100
  { s with runs := s.runs.delete fun run => run.record.runId ∉ stale.map (·.record.runId) }

/-! ## Loading the changes of an interval -/

def loadGenerations (s : Store) (repoId : String) (fromSeq toSeq : ℕ) : List GenerationRow :=
  orderBy (·.generationSeq)
    (s.generations.filter fun g =>
      g.repoId = repoId ∧ fromSeq ≤ g.generationSeq ∧ g.generationSeq ≤ toSeq)

def loadFileChanges (s : Store) (repoId : String) (fromSeq toSeq : ℕ) : List FileChangeRow :=
  orderBy (·.generationSeq)
    (s.fileChanges.filter fun row =>
      row.repoId = repoId ∧ fromSeq ≤ row.generationSeq ∧ row.generationSeq ≤ toSeq)

def loadArtefactChanges (s : Store) (repoId : String) (fromSeq toSeq : ℕ) :
    List ArtefactChangeRow :=
  orderBy (·.generationSeq)
    (s.artefactChanges.filter fun row =>
      row.repoId = repoId ∧ fromSeq ≤ row.generationSeq ∧ row.generationSeq ≤ toSeq)

def countFileChanges (s : Store) (repoId : String) (fromSeq toSeq : ℕ) : ℕ :=
  ((loadFileChanges s repoId fromSeq toSeq).map (·.path)).dedup.length

def countArtefactChanges (s : Store) (repoId : String) (fromSeq toSeq : ℕ) : ℕ :=
  ((loadArtefactChanges s repoId fromSeq toSeq).map (·.symbolId)).dedup.length

def loadDistinctChangedPaths (s : Store) (repoId : String) (fromSeq toSeq : ℕ) : List String :=
  sortDedup
    ((loadFileChanges s repoId fromSeq toSeq).map (·.path) ++
      (loadArtefactChanges s repoId fromSeq toSeq).map (·.path))

end CapabilityEvents
end Bitloops
