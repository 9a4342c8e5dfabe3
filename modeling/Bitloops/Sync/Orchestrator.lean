import Bitloops.CapabilityEvents.Coordinator
import Bitloops.Daemon.SyncMode
import Bitloops.Foundation.Run
import Bitloops.Sync.DiffCollector
import Bitloops.Sync.FileState

/-!
# The sync orchestrator

A sync classifies the paths, removes the stale ones in one transaction, prepares the others
concurrently and commits them in batches.  It hands its diff on only at the end: the daemon task
passes it to `record_sync_generation` if the sync and everything after it succeeds.

`RunAction` is what a sync in progress does next, and `Action` is what a repository sees: syncs
that start, move and end, one after the other, and the purges of excluded paths.  The history of
the ended syncs is a record that no operation reads.
-/

namespace Bitloops
namespace Sync

open CapabilityHost
open CapabilityEvents (SyncSummary SyncGenerationInput)
open Daemon (SyncTaskMode)

/-! ## The store -/

/-- The columns of `artefacts_current` that identify and describe an artefact. -/
structure ArtefactRow where
  repoId : String
  path : String
  symbolId : String
  artefactId : String
  canonicalKind : Option String
  symbolFqn : String
  deriving DecidableEq, Repr

/-- The primary key. -/
def ArtefactRow.key (row : ArtefactRow) : String × String × String :=
  (row.repoId, row.path, row.symbolId)

abbrev ArtefactTable := UniqueTable ArtefactRow ArtefactRow.key

structure Store where
  files : FileTable
  artefacts : ArtefactTable

/-- The prepared columns of an artefact. -/
structure MaterializedArtefact where
  symbolId : String
  artefactId : String
  canonicalKind : Option String
  symbolFqn : String
  deriving DecidableEq, Repr

/-- What precedes the first `::`. -/
def firstSegment : List Char → List Char
  | ':' :: ':' :: _ => []
  | c :: rest => c :: firstSegment rest
  | [] => []

/-- What follows the last `::`. -/
def symbolNameFromFqn (symbolFqn : String) : String :=
  String.ofList (firstSegment symbolFqn.toList.reverse).reverse

def ArtefactRow.diffRecord (row : ArtefactRow) : DiffArtefactRecord where
  path := row.path
  artefactId := row.artefactId
  symbolId := row.symbolId
  canonicalKind := row.canonicalKind
  name := symbolNameFromFqn row.symbolFqn

def queryCurrentArtefactsForPath (repoId path : String) (artefacts : ArtefactTable) :
    List DiffArtefactRecord :=
  (orderBy (·.symbolId)
    (artefacts.rows.filter fun row => row.repoId = repoId ∧ row.path = path)).map
    ArtefactRow.diffRecord

/-- Insert an artefact; besides the primary key, the artefact id is unique in the repository. -/
def insertArtefact (repoId path : String) (artefact : MaterializedArtefact) (t : ArtefactTable) :
    Option ArtefactTable :=
  if ∃ row ∈ t.rows, row.repoId = repoId ∧ row.artefactId = artefact.artefactId then none
  else
    t.insert?
      { repoId, path, symbolId := artefact.symbolId, artefactId := artefact.artefactId,
        canonicalKind := artefact.canonicalKind, symbolFqn := artefact.symbolFqn }

def insertArtefacts (repoId path : String) :
    List MaterializedArtefact → ArtefactTable → Option ArtefactTable
  | [], t => some t
  | artefact :: rest, t =>
    (insertArtefact repoId path artefact t).bind (insertArtefacts repoId path rest)

/-- Replace the artefacts of the path and record the state of its file. -/
def persistPreparedMaterialisationTx (repoId : String) (desired : DesiredFileState)
    (prepared : List MaterializedArtefact) (parserVersion extractorVersion : String) (s : Store) :
    Option Store := do
  let cleared := s.artefacts.delete fun row => row.repoId = repoId ∧ row.path = desired.path
  let artefacts ← insertArtefacts repoId desired.path prepared cleared
  let row := currentFileStateRow repoId desired parserVersion extractorVersion
  return { files := s.files.upsert row, artefacts }

/-- Delete the rows of the paths. -/
def removePathsTx (repoId : String) (paths : List String) (s : Store) : Store where
  files := s.files.delete fun row => row.repoId = repoId ∧ row.path ∈ paths
  artefacts := s.artefacts.delete fun row => row.repoId = repoId ∧ row.path ∈ paths

/-! ## Starting a sync -/

/-- `str::trim`. -/
def trim (text : String) : String :=
  String.ofList
    ((text.toList.dropWhile Daemon.isWhitespace).reverse.dropWhile Daemon.isWhitespace).reverse

/-- `sync_reason`. -/
def syncReason : SyncTaskMode → String
  | .auto => "full"
  | .full => "full"
  | .paths _ => "paths"
  | .repair => "repair"
  | .validate => "validate"

/-- The requested paths of a path sync, without those that the exclusion policy or the internal
ignore list drops. -/
def requestedPaths (mode : SyncTaskMode) (ignoredPaths : List String) : Option (List String) :=
  match mode with
  | .paths paths =>
    some (((paths.map trim).filter (· ≠ "")).filter (· ∉ ignoredPaths))
  | _ => none

/-- What a sync is given: its task, and what it finds in the workspace. -/
structure SyncInput where
  mode : SyncTaskMode
  taskId : Option String
  initSessionId : Option String
  ignoredPaths : List String
  desired : DesiredManifest
  parserVersion : String
  extractorVersion : String
  activeBranch : Option String
  headCommitSha : Option String

/-- The desired manifest, restricted to the requested paths. -/
def SyncInput.desiredManifest (input : SyncInput) : DesiredManifest :=
  input.desired.delete fun state =>
    !isRequested (requestedPaths input.mode input.ignoredPaths) state.path

/-- The classification of the workspace against the store. -/
def classifyWorkspace (repoId : String) (input : SyncInput) (files : FileTable) :
    List ClassifiedPath :=
  classifyPaths input.desiredManifest
    (loadStoredManifestForPaths files repoId (requestedPaths input.mode input.ignoredPaths))
    input.parserVersion input.extractorVersion (input.mode = .repair)

structure PreparedSyncItem where
  index : ℕ
  desired : DesiredFileState
  preparedRows : List MaterializedArtefact
  deriving DecidableEq, Repr

/-- A change that a transaction made to a path: the artefacts before and after, and the state
of the file, which is `none` for a removed one. -/
structure PathCommit where
  path : String
  desired : Option DesiredFileState
  pre : List DiffArtefactRecord
  post : List DiffArtefactRecord
  deriving DecidableEq, Repr

/-- A sync in progress: the paths to remove, the paths to prepare, the batch of the writer and
what was collected; `commits` records the changes that it made. -/
structure SyncRun where
  removals : List String
  prepareQueue : List (ℕ × DesiredFileState)
  pendingBatch : List PreparedSyncItem
  diffCollector : SyncDiffCollector
  commits : List PathCommit

/-- The file diff is recorded when the paths are classified. -/
def recordClassified (c : SyncDiffCollector) (path : ClassifiedPath) : SyncDiffCollector :=
  match path.action, path.desired with
  | .added, some desired => c.recordFileAdded path.path desired.language desired.effectiveContentId
  | .changed, some desired =>
    c.recordFileChanged path.path desired.language desired.effectiveContentId
  | .removed, _ => c.recordFileRemoved path.path
  | _, _ => c

/-- The desired state of a path that is to be prepared. -/
def prepareInput? : ClassifiedPath × ℕ → Option (ℕ × DesiredFileState)
  | ({ action := .added, desired := some desired, .. }, index) => some (index, desired)
  | ({ action := .changed, desired := some desired, .. }, index) => some (index, desired)
  | _ => none

/-- Classify the paths of the workspace.  A validation does not get there. -/
def startSync (repoId : String) (input : SyncInput) (s : Store) : SyncRun :=
  let classified :=
    if input.mode = .validate then [] else classifyWorkspace repoId input s.files
  { removals := (classified.filter (·.action = .removed)).map (·.path)
    prepareQueue := classified.zipIdx.filterMap prepareInput?
    pendingBatch := []
    diffCollector := classified.foldl recordClassified .new
    commits := [] }

/-! ## A sync in progress -/

/-- What the writer reports about the transactions of a batch. -/
structure WriterCommitOutcome where
  store : Store
  preArtefacts : List DiffArtefactRecord
  postArtefacts : List DiffArtefactRecord
  commits : List PathCommit

/-- The transaction of one item. -/
def materialiseItem (repoId : String) (input : SyncInput) (outcome : WriterCommitOutcome)
    (item : PreparedSyncItem) : Option WriterCommitOutcome := do
  let pre := queryCurrentArtefactsForPath repoId item.desired.path outcome.store.artefacts
  let store ← persistPreparedMaterialisationTx repoId item.desired item.preparedRows
    input.parserVersion input.extractorVersion outcome.store
  let post := queryCurrentArtefactsForPath repoId item.desired.path store.artefacts
  return {
    store
    preArtefacts := outcome.preArtefacts ++ pre
    postArtefacts := outcome.postArtefacts ++ post
    commits :=
      outcome.commits ++ [{ path := item.desired.path, desired := some item.desired, pre, post }] }

def materialiseItems (repoId : String) (input : SyncInput) :
    List PreparedSyncItem → WriterCommitOutcome → Option WriterCommitOutcome
  | [], outcome => some outcome
  | item :: rest, outcome =>
    (materialiseItem repoId input outcome item).bind (materialiseItems repoId input rest)

inductive RunAction where
  | removePaths
  | prepared (path : String) (rows : Option (List MaterializedArtefact))
  | flush
  deriving DecidableEq, Repr

/-- The removal of a path. -/
def removalCommit (repoId : String) (artefacts : ArtefactTable) (path : String) : PathCommit where
  path := path
  desired := none
  pre := queryCurrentArtefactsForPath repoId path artefacts
  post := []

/-- The transaction that removes the stale paths. -/
def removePaths (repoId : String) (s : Store) (run : SyncRun) : Store × SyncRun :=
  let removed := run.removals.map (removalCommit repoId s.artefacts)
  (removePathsTx repoId run.removals s,
    { run with
      removals := []
      diffCollector := run.diffCollector.recordCommit (removed.flatMap (·.pre)) []
      commits := run.commits ++ removed })

/-- A prepared item joins the batch; a failed one is dropped with a warning. -/
def handlePreparedOutcome (path : String) (rows : Option (List MaterializedArtefact))
    (run : SyncRun) : Option SyncRun := do
  let (index, desired) ← run.prepareQueue.find? fun entry => entry.2.path = path
  let prepareQueue := run.prepareQueue.filter fun entry => entry.2.path ≠ path
  let item := rows.map fun preparedRows => { index, desired, preparedRows : PreparedSyncItem }
  return { run with prepareQueue, pendingBatch := run.pendingBatch ++ item.toList }

/-- Commit the batch in one transaction; `none` if a statement of it fails. -/
def flush (repoId : String) (input : SyncInput) (s : Store) (run : SyncRun) :
    Option (Store × SyncRun) := do
  let outcome ← materialiseItems repoId input (orderBy (·.index) run.pendingBatch)
    { store := s, preArtefacts := [], postArtefacts := [], commits := [] }
  return (outcome.store,
    { run with
      pendingBatch := []
      diffCollector := run.diffCollector.recordCommit outcome.preArtefacts outcome.postArtefacts
      commits := run.commits ++ outcome.commits })

/-- The removals come first; after that the workers report in any order, and the writer flushes
a batch when it is full, when it is old, or when nothing is left to prepare. -/
def runStep (repoId : String) (input : SyncInput) : Store × SyncRun → RunAction →
    Option (Store × SyncRun)
  | (s, run), .removePaths => if run.removals = [] then none else some (removePaths repoId s run)
  | (s, run), .prepared path rows =>
    if run.removals = [] then (handlePreparedOutcome path rows run).map (s, ·) else none
  | (s, run), .flush => if run.pendingBatch = [] then none else flush repoId input s run

/-- Everything is removed, prepared and flushed. -/
def SyncRun.complete (run : SyncRun) : Bool :=
  run.removals = [] && run.prepareQueue.isEmpty && run.pendingBatch.isEmpty

/-! ## The task -/

/-- How the task of a sync ends.  The sync itself may fail at any time; after it, the snapshot
of the commit may fail, the capability host may be missing, or the enqueueing of the runs may
fail, and only `enqueued` records a generation. -/
inductive TaskEnd where
  | syncFailed
  | snapshotFailed
  | hostMissing
  | enqueueFailed
  | enqueued
  deriving DecidableEq, Repr

/-- What is passed to `record_sync_generation`. -/
structure EmittedGeneration where
  summary : SyncSummary
  input : SyncGenerationInput
  deriving DecidableEq, Repr

def syncSummary (input : SyncInput) : SyncSummary where
  success := true
  mode := syncReason input.mode
  activeBranch := input.activeBranch
  headCommitSha := input.headCommitSha

/-- The generation that the end of a task records; a validation records none. -/
def emittedGeneration (input : SyncInput) (c : SyncDiffCollector) :
    TaskEnd → Option EmittedGeneration
  | .enqueued =>
    if (syncSummary input).skipped then none
    else
      let (fileDiff, artefactDiff) := c.intoDiffs
      some
        { summary := syncSummary input
          input :=
            { fileDiff, artefactDiff, sourceTaskId := input.taskId,
              initSessionId := input.initSessionId } }
  | _ => none

/-- The generation asks the consumers for a full reconcile. -/
def EmittedGeneration.requiresFullReconcile (g : EmittedGeneration) : Bool :=
  g.summary.mode = "full" ∨ g.summary.mode = "repair"

/-- It is what `record_sync_generation` writes to the row of the generation. -/
theorem requiresFullReconcile_newGeneration (g : EmittedGeneration)
    (target : CapabilityEvents.SyncTarget) (now generationSeq : ℕ) :
    (CapabilityEvents.newGeneration target g.summary g.input now
      generationSeq).requiresFullReconcile = g.requiresFullReconcile := rfl

/-- A sync that has ended, with its mode and the end of its task, or a purge: the changes that it
committed, the generation that it recorded, and the artefacts that it left. -/
structure EndedRun where
  task : Option (SyncTaskMode × TaskEnd)
  commits : List PathCommit
  generation : Option EmittedGeneration
  artefacts : ArtefactTable

/-- The repository: its store, the sync in progress, and the history in the order of time. -/
structure World where
  store : Store
  current : Option (SyncInput × SyncRun)
  history : List EndedRun

def World.empty : World where
  store := { files := .empty, artefacts := .empty }
  current := none
  history := []

inductive Action where
  | start (input : SyncInput)
  | run (action : RunAction)
  | finish (taskEnd : TaskEnd)
  | purge (excludedPaths : List String)

/-- The changes of `purge_scope_excluded_repo_data`: the excluded paths that have rows. -/
def purgeCommits (repoId : String) (excludedPaths : List String) (s : Store) : List PathCommit :=
  ((sortDedup excludedPaths).filter fun path =>
      (∃ row ∈ s.files.rows, row.repoId = repoId ∧ row.path = path) ∨
        ∃ row ∈ s.artefacts.rows, row.repoId = repoId ∧ row.path = path).map
    (removalCommit repoId s.artefacts)

/-- One operation of the repository; its syncs run one at a time. -/
def step (repoId : String) (w : World) : Action → Option World
  | .start input =>
    if w.current.isSome then none
    else some { w with current := some (input, startSync repoId input w.store) }
  | .run action => do
    let (input, run) ← w.current
    let (store, run) ← runStep repoId input (w.store, run) action
    return { w with store, current := some (input, run) }
  | .finish taskEnd => do
    let (input, run) ← w.current
    if taskEnd ≠ .syncFailed ∧ run.complete = false then none
    else
      some
        { w with
          current := none
          history := w.history ++
            [{ task := some (input.mode, taskEnd)
               commits := run.commits
               generation := emittedGeneration input run.diffCollector taskEnd
               artefacts := w.store.artefacts }] }
  | .purge excludedPaths =>
    if w.current.isSome then none
    else
      let store := removePathsTx repoId excludedPaths w.store
      some
        { w with
          store
          history := w.history ++
            [{ task := none
               commits := purgeCommits repoId excludedPaths w.store
               generation := none
               artefacts := store.artefacts }] }

/-! ## Outcomes -/

section Outcomes

variable {repoId path : String} {t t' : ArtefactTable} {r : DiffArtefactRecord}
  {prepared : List MaterializedArtefact}

theorem mem_queryCurrentArtefactsForPath :
    r ∈ queryCurrentArtefactsForPath repoId path t ↔
      ∃ row ∈ t.rows, row.repoId = repoId ∧ row.path = path ∧ row.diffRecord = r := by
  simp [queryCurrentArtefactsForPath, and_assoc]

/-- The symbols of a path are different. -/
theorem nodup_queryCurrentArtefactsForPath :
    ((queryCurrentArtefactsForPath repoId path t).map (·.symbolId)).Nodup := by
  have hkeys : ((t.rows.filter fun row => row.repoId = repoId ∧ row.path = path).map
      (·.symbolId)).Nodup := by
    rw [List.Nodup, List.pairwise_map]
    have hrows := List.pairwise_map.mp t.unique
    refine (hrows.filter _).imp_of_mem ?_
    intro row row' hrow hrow' hne heq
    have h := of_decide_eq_true (List.mem_filter.mp hrow).2
    have h' := of_decide_eq_true (List.mem_filter.mp hrow').2
    refine hne ?_
    rw [ArtefactRow.key, ArtefactRow.key, h.1, h'.1, h.2, h'.2, heq]
  have hperm : ((queryCurrentArtefactsForPath repoId path t).map (·.symbolId)).Perm
      ((t.rows.filter fun row => row.repoId = repoId ∧ row.path = path).map (·.symbolId)) := by
    rw [queryCurrentArtefactsForPath, List.map_map]
    exact (perm_orderBy _ _).map _
  exact hperm.nodup_iff.mpr hkeys

theorem insertArtefacts_rows (h : insertArtefacts repoId path prepared t = some t') :
    ∃ inserted : List ArtefactRow, t'.rows = t.rows ++ inserted ∧
      ∀ row ∈ inserted, row.repoId = repoId ∧ row.path = path := by
  induction prepared generalizing t with
  | nil =>
    cases h
    exact ⟨[], by simp, fun row hrow => absurd hrow List.not_mem_nil⟩
  | cons artefact prepared ih =>
    rw [insertArtefacts, Option.bind_eq_some_iff] at h
    obtain ⟨next, hinsert, hrest⟩ := h
    rw [insertArtefact] at hinsert
    split_ifs at hinsert
    obtain ⟨-, hrows⟩ := UniqueTable.insert?_eq_some.mp hinsert
    obtain ⟨inserted, hmore, hpaths⟩ := ih hrest
    refine ⟨_ :: inserted, by rw [hmore, hrows, List.append_assoc]; rfl, fun row hrow => ?_⟩
    rcases List.mem_cons.mp hrow with rfl | hrow
    · exact ⟨rfl, rfl⟩
    · exact hpaths row hrow

/-- **Persisting a path** writes the row of its file and leaves the artefacts of other paths
alone. -/
theorem persistPreparedMaterialisationTx_cases {desired : DesiredFileState}
    {parserVersion extractorVersion : String} {s s' : Store}
    (h : persistPreparedMaterialisationTx repoId desired prepared parserVersion extractorVersion s =
      some s') :
    s'.files = s.files.upsert (currentFileStateRow repoId desired parserVersion extractorVersion) ∧
      ∀ row : ArtefactRow, ¬ (row.repoId = repoId ∧ row.path = desired.path) →
        (row ∈ s'.artefacts.rows ↔ row ∈ s.artefacts.rows) := by
  simp only [persistPreparedMaterialisationTx, Option.bind_eq_bind, Option.bind_eq_some_iff,
    Option.pure_def, Option.some.injEq] at h
  obtain ⟨artefacts, hinsert, rfl⟩ := h
  refine ⟨rfl, fun row hother => ?_⟩
  obtain ⟨inserted, hrows, hpaths⟩ := insertArtefacts_rows hinsert
  have hnot : row ∉ inserted := fun hrow => hother (hpaths row hrow)
  rw [hrows, List.mem_append, or_iff_left hnot, UniqueTable.mem_delete, decide_eq_false_iff_not]
  exact and_iff_left hother

/-- The parts of a successful transaction of one item. -/
theorem materialiseItem_cases {input : SyncInput} {outcome outcome' : WriterCommitOutcome}
    {item : PreparedSyncItem} (h : materialiseItem repoId input outcome item = some outcome') :
    ∃ store, persistPreparedMaterialisationTx repoId item.desired item.preparedRows
        input.parserVersion input.extractorVersion outcome.store = some store ∧
      outcome' =
        { store
          preArtefacts := outcome.preArtefacts ++
            queryCurrentArtefactsForPath repoId item.desired.path outcome.store.artefacts
          postArtefacts := outcome.postArtefacts ++
            queryCurrentArtefactsForPath repoId item.desired.path store.artefacts
          commits := outcome.commits ++
            [{ path := item.desired.path
               desired := some item.desired
               pre := queryCurrentArtefactsForPath repoId item.desired.path outcome.store.artefacts
               post := queryCurrentArtefactsForPath repoId item.desired.path
                store.artefacts }] } := by
  simp only [materialiseItem, Option.bind_eq_bind, Option.bind_eq_some_iff, Option.pure_def,
    Option.some.injEq] at h
  obtain ⟨store, hpersist, rfl⟩ := h
  exact ⟨store, hpersist, rfl⟩

/-- The parts of a successful report of a worker. -/
theorem handlePreparedOutcome_cases {rows : Option (List MaterializedArtefact)} {run run' : SyncRun}
    (h : handlePreparedOutcome path rows run = some run') :
    ∃ index desired, (index, desired) ∈ run.prepareQueue ∧ desired.path = path ∧
      run' =
        { run with
          prepareQueue := run.prepareQueue.filter fun entry => entry.2.path ≠ path
          pendingBatch := run.pendingBatch ++
            (rows.map fun preparedRows =>
              ({ index, desired, preparedRows } : PreparedSyncItem)).toList } := by
  simp only [handlePreparedOutcome, Option.bind_eq_bind, Option.bind_eq_some_iff, Option.pure_def,
    Option.some.injEq, Prod.exists] at h
  obtain ⟨index, desired, hfind, rfl⟩ := h
  exact ⟨index, desired, List.mem_of_find?_eq_some hfind, by simpa using List.find?_some hfind, rfl⟩

/-- The parts of a successful flush. -/
theorem flush_cases {input : SyncInput} {s s' : Store} {run run' : SyncRun}
    (h : flush repoId input s run = some (s', run')) :
    ∃ outcome, materialiseItems repoId input (orderBy (·.index) run.pendingBatch)
        { store := s, preArtefacts := [], postArtefacts := [], commits := [] } = some outcome ∧
      s' = outcome.store ∧
      run' =
        { run with
          pendingBatch := []
          diffCollector := run.diffCollector.recordCommit outcome.preArtefacts outcome.postArtefacts
          commits := run.commits ++ outcome.commits } := by
  simp only [flush, Option.bind_eq_bind, Option.bind_eq_some_iff, Option.pure_def,
    Option.some.injEq, Prod.mk.injEq] at h
  obtain ⟨outcome, hitems, rfl, rfl⟩ := h
  exact ⟨outcome, hitems, rfl, rfl⟩

end Outcomes

end Sync
end Bitloops
