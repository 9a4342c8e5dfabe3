import Bitloops.CapabilityEvents.Coordinator
import Bitloops.Foundation.ChangeLog

/-!
# A merged delta is a replay

Syncs record the changes of their diffs under generations.  The reference is the *replay*: the
rows of one generation after the other, within a generation in the order in which they were
inserted, each of them setting or clearing the entry of its path or its symbol.  What a request
carries for an interval of generations is shorter: one change for each path and each symbol,
split into upserts and removals.

* `loadFileChanges_eq_replayed`, `loadArtefactChanges_eq_replayed`: the queries return the rows
  in the order of the replay.
* `applyChanges_mergeFileChanges`, `applyChanges_mergeArtefactChanges`: merging keeps the effect.
* `mergedDelta_eq_replay`: the parts of a delta, applied in any order, have the effect of the
  replay, and no path and no symbol is named twice.
* `requestChanges_eq_replay`: so does a request for a merged delta that carries its changes.
-/

namespace Bitloops
namespace CapabilityEvents

open CapabilityHost

/-! ## Recording and replaying -/

/-- The diffs that are recorded for a repository under a generation. -/
structure RecordedDiff where
  repoId : String
  generationSeq : ℕ
  fileDiff : SyncFileDiff
  artefactDiff : SyncArtefactDiff
  deriving DecidableEq, Repr

namespace RecordedDiff

def fileRows (diff : RecordedDiff) : List FileChangeRow :=
  fileChangeRows diff.repoId diff.generationSeq diff.fileDiff

def artefactRows (diff : RecordedDiff) : List ArtefactChangeRow :=
  artefactChangeRows diff.repoId diff.generationSeq diff.artefactDiff

def insert (diff : RecordedDiff) (s : Store) : Store :=
  insertArtefactChanges diff.repoId diff.generationSeq diff.artefactDiff
    (insertFileChanges diff.repoId diff.generationSeq diff.fileDiff s)

end RecordedDiff

/-- The diffs recorded one after the other. -/
def recordDiffs (diffs : List RecordedDiff) (s : Store) : Store :=
  diffs.foldl (fun s diff => diff.insert s) s

/-- The diffs of a repository in the interval of generations, one generation after the other. -/
def replayedDiffs (diffs : List RecordedDiff) (repoId : String) (fromExclusive toInclusive : ℕ) :
    List RecordedDiff :=
  (List.range' (fromExclusive + 1) (toInclusive - fromExclusive)).flatMap fun generationSeq =>
    diffs.filter fun diff => diff.repoId = repoId ∧ diff.generationSeq = generationSeq

/-- What a row leaves under its path: the language and the content. -/
def FileChangeRow.content (row : FileChangeRow) : Option (Option String × Option String) :=
  if row.changeKind = .removed then none else some (row.language, row.contentId)

/-- What a row leaves under its symbol. -/
def ArtefactChangeRow.artefact (row : ArtefactChangeRow) : Option ChangedArtefact :=
  if row.changeKind = .removed then none
  else
    some
      { artefactId := row.artefactId, symbolId := row.symbolId, path := row.path,
        canonicalKind := row.canonicalKind, name := row.name }

/-- The files of a repository: the language and the content under each path. -/
abbrev FileState := String → Option (Option String × Option String)

/-- The artefacts of a repository under their symbols. -/
abbrev ArtefactState := String → Option ChangedArtefact

def replayFileRows (rows : List FileChangeRow) (files : FileState) : FileState :=
  applyChanges (·.path) (·.content) rows files

def replayArtefactRows (rows : List ArtefactChangeRow) (artefacts : ArtefactState) :
    ArtefactState :=
  applyChanges (·.symbolId) (·.artefact) rows artefacts

namespace MergedFileChange

def path : MergedFileChange → String
  | upsert file => file.path
  | removed file => file.path

def content : MergedFileChange → Option (Option String × Option String)
  | upsert file => some (some file.language, some file.contentId)
  | removed _ => none

end MergedFileChange

namespace MergedArtefactChange

def symbolId : MergedArtefactChange → String
  | upsert artefact => artefact.symbolId
  | removed artefact => artefact.symbolId

def artefact : MergedArtefactChange → Option ChangedArtefact
  | upsert artefact => some artefact
  | removed _ => none

end MergedArtefactChange

/-- The changes of files that a consumer is handed. -/
def fileDelta (upserts : List ChangedFile) (removals : List RemovedFile) : List MergedFileChange :=
  upserts.map .upsert ++ removals.map .removed

/-- The changes of artefacts that a consumer is handed. -/
def artefactDelta (upserts : List ChangedArtefact) (removals : List RemovedArtefact) :
    List MergedArtefactChange :=
  upserts.map .upsert ++ removals.map .removed

def applyFileDelta (delta : List MergedFileChange) (files : FileState) : FileState :=
  applyChanges (·.path) (·.content) delta files

def applyArtefactDelta (delta : List MergedArtefactChange) (artefacts : ArtefactState) :
    ArtefactState :=
  applyChanges (·.symbolId) (·.artefact) delta artefacts

/-! ## The rows of an interval -/

section Rows

variable {diffs : List RecordedDiff} {s : Store} {repoId : String} {fromExclusive toInclusive : ℕ}

theorem fileChanges_recordDiffs :
    (recordDiffs diffs s).fileChanges = s.fileChanges ++ diffs.flatMap (·.fileRows) := by
  induction diffs generalizing s with
  | nil => exact (List.append_nil _).symm
  | cons diff diffs ih =>
    rw [recordDiffs, List.foldl_cons, ← recordDiffs, ih, List.flatMap_cons, ← List.append_assoc]
    rfl

theorem artefactChanges_recordDiffs :
    (recordDiffs diffs s).artefactChanges =
      s.artefactChanges ++ diffs.flatMap (·.artefactRows) := by
  induction diffs generalizing s with
  | nil => exact (List.append_nil _).symm
  | cons diff diffs ih =>
    rw [recordDiffs, List.foldl_cons, ← recordDiffs, ih, List.flatMap_cons, ← List.append_assoc]
    rfl

/-- The generation of a sync records its diffs. -/
theorem insertGeneration_eq_insert (target : SyncTarget) (summary : SyncSummary)
    (input : SyncGenerationInput) (now : ℕ) :
    insertGeneration target summary input now s =
      RecordedDiff.insert
        { repoId := target.repoId
          generationSeq := nextGenerationSeq s target.repoId
          fileDiff := input.fileDiff
          artefactDiff := input.artefactDiff }
        { s with
          generations := s.generations ++
            [newGeneration target summary input now (nextGenerationSeq s target.repoId)] } := rfl

theorem of_mem_fileRows {diff : RecordedDiff} {row : FileChangeRow} (h : row ∈ diff.fileRows) :
    row.repoId = diff.repoId ∧ row.generationSeq = diff.generationSeq ∧
      (row.changeKind = .removed ∨ row.language.isSome ∧ row.contentId.isSome) := by
  simp only [RecordedDiff.fileRows, fileChangeRows, List.mem_append, List.mem_map] at h
  rcases h with (⟨file, -, rfl⟩ | ⟨file, -, rfl⟩) | ⟨file, -, rfl⟩
  · exact ⟨rfl, rfl, .inr ⟨rfl, rfl⟩⟩
  · exact ⟨rfl, rfl, .inr ⟨rfl, rfl⟩⟩
  · exact ⟨rfl, rfl, .inl rfl⟩

theorem of_mem_artefactRows {diff : RecordedDiff} {row : ArtefactChangeRow}
    (h : row ∈ diff.artefactRows) :
    row.repoId = diff.repoId ∧ row.generationSeq = diff.generationSeq := by
  simp only [RecordedDiff.artefactRows, artefactChangeRows, List.mem_append, List.mem_map] at h
  rcases h with (⟨artefact, -, rfl⟩ | ⟨artefact, -, rfl⟩) | ⟨artefact, -, rfl⟩ <;>
    exact ⟨rfl, rfl⟩

/-- The rows of a diff share its repository and its generation, so a query on these two keeps
all of its rows or none. -/
theorem filter_flatMap_rows {ρ : Type*} {rows : RecordedDiff → List ρ} {p : ρ → Bool}
    {q : RecordedDiff → Bool} (h : ∀ diff, ∀ row ∈ rows diff, p row = q diff) :
    (diffs.flatMap rows).filter p = (diffs.filter q).flatMap rows := by
  induction diffs with
  | nil => rfl
  | cons diff diffs ih =>
    rw [List.flatMap_cons, List.filter_append, ih]
    cases hq : q diff with
    | true =>
      have hall : (rows diff).filter p = rows diff :=
        List.filter_eq_self.mpr fun row hrow => (h diff row hrow).trans hq
      rw [hall, List.filter_cons_of_pos hq, List.flatMap_cons]
    | false =>
      have hnone : (rows diff).filter p = [] :=
        List.filter_eq_nil_iff.mpr fun row hrow => by simp [h diff row hrow, hq]
      rw [hnone, List.nil_append, List.filter_cons_of_neg (by simp [hq])]

/-- The query for an interval, on rows that share the repository and the generation of their
diff. -/
theorem orderBy_filter_flatMap {ρ : Type*} {rows : RecordedDiff → List ρ} {repoIdOf : ρ → String}
    {generationOf : ρ → ℕ}
    (h : ∀ diff, ∀ row ∈ rows diff,
      repoIdOf row = diff.repoId ∧ generationOf row = diff.generationSeq) :
    (orderBy generationOf ((diffs.flatMap rows).filter fun row =>
        repoIdOf row = repoId ∧ fromExclusive + 1 ≤ generationOf row ∧
          generationOf row ≤ toInclusive)) =
      (replayedDiffs diffs repoId fromExclusive toInclusive).flatMap rows := by
  have hkeys : ∀ row ∈ (diffs.flatMap rows).filter fun row =>
      repoIdOf row = repoId ∧ fromExclusive + 1 ≤ generationOf row ∧
        generationOf row ≤ toInclusive,
      fromExclusive + 1 ≤ generationOf row ∧
        generationOf row < fromExclusive + 1 + (toInclusive - fromExclusive) := by
    intro row hrow
    simp only [List.mem_filter, decide_eq_true_eq] at hrow
    omega
  rw [orderBy_eq_flatMap hkeys, replayedDiffs, List.flatMap_assoc]
  refine List.flatMap_congr fun generationSeq hseq => ?_
  have hseq := List.mem_range'_1.mp hseq
  rw [List.filter_filter]
  refine filter_flatMap_rows fun diff row hrow => ?_
  obtain ⟨hrepo, hgeneration⟩ := h diff row hrow
  rw [hrepo, hgeneration]
  by_cases hd : diff.generationSeq = generationSeq
  · have hle : fromExclusive + 1 ≤ generationSeq ∧ generationSeq ≤ toInclusive := by omega
    simp [hd, hle]
  · simp [hd]

/-- The file rows are loaded in the order of the replay. -/
theorem loadFileChanges_eq_replayed :
    loadFileChanges (recordDiffs diffs .empty) repoId (fromExclusive + 1) toInclusive =
      (replayedDiffs diffs repoId fromExclusive toInclusive).flatMap (·.fileRows) := by
  rw [loadFileChanges, fileChanges_recordDiffs]
  exact orderBy_filter_flatMap fun diff row hrow =>
    ⟨(of_mem_fileRows hrow).1, (of_mem_fileRows hrow).2.1⟩

/-- The artefact rows are loaded in the order of the replay. -/
theorem loadArtefactChanges_eq_replayed :
    loadArtefactChanges (recordDiffs diffs .empty) repoId (fromExclusive + 1) toInclusive =
      (replayedDiffs diffs repoId fromExclusive toInclusive).flatMap (·.artefactRows) := by
  rw [loadArtefactChanges, artefactChanges_recordDiffs]
  exact orderBy_filter_flatMap fun diff row hrow => of_mem_artefactRows hrow

end Rows

/-! ## Merging -/

section Merging

variable {fileRows : List FileChangeRow} {artefactRows : List ArtefactChangeRow}
  {files : FileState} {artefacts : ArtefactState}

/-- The change that a row stands for; an upsert without a language or a content is dropped. -/
def FileChangeRow.change? (row : FileChangeRow) : Option MergedFileChange :=
  match row.changeKind, row.language, row.contentId with
  | .removed, _, _ => some (.removed { path := row.path })
  | _, some language, some contentId => some (.upsert { path := row.path, language, contentId })
  | _, _, _ => none

def ArtefactChangeRow.change (row : ArtefactChangeRow) : MergedArtefactChange :=
  match row.changeKind with
  | .removed =>
    .removed { artefactId := row.artefactId, symbolId := row.symbolId, path := row.path }
  | _ =>
    .upsert
      { artefactId := row.artefactId, symbolId := row.symbolId, path := row.path,
        canonicalKind := row.canonicalKind, name := row.name }

theorem mergeFileChange_eq (merged : AList fun _ : String => MergedFileChange)
    (row : FileChangeRow) :
    mergeFileChange merged row =
      row.change?.elim merged fun change => merged.insert change.path change := by
  obtain ⟨repoId, generationSeq, path, changeKind, language, contentId⟩ := row
  cases changeKind <;> cases language <;> cases contentId <;> rfl

theorem mergeFileChanges_eq :
    mergeFileChanges fileRows = intoValues (latestByKey (·.path) (fileRows.filterMap (·.change?))) := by
  have hfold (merged : AList fun _ : String => MergedFileChange) :
      fileRows.foldl mergeFileChange merged =
        (fileRows.filterMap (·.change?)).foldl
          (fun merged change => merged.insert change.path change) merged := by
    induction fileRows generalizing merged with
    | nil => rfl
    | cons row rows ih =>
      rw [List.foldl_cons, ih, mergeFileChange_eq, List.filterMap_cons]
      cases row.change? <;> rfl
  rw [mergeFileChanges, hfold, latestByKey]

theorem mergeArtefactChanges_eq :
    mergeArtefactChanges artefactRows =
      intoValues (latestByKey (·.symbolId) (artefactRows.map (·.change))) := by
  have hfold (merged : AList fun _ : String => MergedArtefactChange) :
      artefactRows.foldl mergeArtefactChange merged =
        (artefactRows.map (·.change)).foldl
          (fun merged change => merged.insert change.symbolId change) merged := by
    induction artefactRows generalizing merged with
    | nil => rfl
    | cons row rows ih =>
      rw [List.foldl_cons, ih, List.map_cons, List.foldl_cons, mergeArtefactChange,
        ArtefactChangeRow.change]
      cases row.changeKind <;> rfl
  rw [mergeArtefactChanges, hfold, latestByKey]

/-- A row of a file that has its language and its content says what its change says. -/
theorem change?_of_complete {row : FileChangeRow}
    (h : row.changeKind = .removed ∨ row.language.isSome ∧ row.contentId.isSome) :
    ∃ change, row.change? = some change ∧ change.path = row.path ∧
      change.content = row.content := by
  obtain ⟨repoId, generationSeq, path, changeKind, language, contentId⟩ := row
  rcases h with rfl | ⟨hlanguage, hcontent⟩
  · exact ⟨_, rfl, rfl, rfl⟩
  · obtain ⟨language, rfl⟩ := Option.isSome_iff_exists.mp hlanguage
    obtain ⟨contentId, rfl⟩ := Option.isSome_iff_exists.mp hcontent
    cases changeKind <;> exact ⟨_, rfl, rfl, rfl⟩

theorem applyFileDelta_filterMap_change?
    (h : ∀ row ∈ fileRows,
      row.changeKind = .removed ∨ row.language.isSome ∧ row.contentId.isSome) :
    applyFileDelta (fileRows.filterMap (·.change?)) files = replayFileRows fileRows files := by
  induction fileRows generalizing files with
  | nil => rfl
  | cons row rows ih =>
    obtain ⟨change, hchange, hpath, hcontent⟩ := change?_of_complete (h row List.mem_cons_self)
    rw [List.filterMap_cons_some hchange, applyFileDelta, applyChanges_cons, hpath, hcontent,
      replayFileRows, applyChanges_cons]
    exact ih fun row hrow => h row (List.mem_cons_of_mem _ hrow)

theorem applyArtefactDelta_map_change :
    applyArtefactDelta (artefactRows.map (·.change)) artefacts =
      replayArtefactRows artefactRows artefacts := by
  refine applyChanges_map (fun row _ => ?_) fun row _ => ?_
  · rw [ArtefactChangeRow.change]
    cases row.changeKind <;> rfl
  · rw [ArtefactChangeRow.change, ArtefactChangeRow.artefact]
    cases row.changeKind <;> rfl

/-- Splitting changes into upserts and removals loses none. -/
theorem fileDelta_partition_perm (merged : List MergedFileChange) :
    (fileDelta (partitionFileChanges merged).1 (partitionFileChanges merged).2).Perm merged := by
  induction merged with
  | nil => exact List.Perm.nil
  | cons change merged ih =>
    cases change with
    | upsert file => exact ih.cons _
    | removed file => exact List.perm_middle.trans (ih.cons _)

theorem artefactDelta_partition_perm (merged : List MergedArtefactChange) :
    (artefactDelta (partitionArtefactChanges merged).1
      (partitionArtefactChanges merged).2).Perm merged := by
  induction merged with
  | nil => exact List.Perm.nil
  | cons change merged ih =>
    cases change with
    | upsert artefact => exact ih.cons _
    | removed artefact => exact List.perm_middle.trans (ih.cons _)

/-- Merging keeps the effect of rows that are complete, in any order of the changes. -/
theorem applyFileDelta_mergeFileChanges {delta : List MergedFileChange}
    (hdelta : delta.Perm (mergeFileChanges fileRows))
    (h : ∀ row ∈ fileRows,
      row.changeKind = .removed ∨ row.language.isSome ∧ row.contentId.isSome) :
    applyFileDelta delta files = replayFileRows fileRows files := by
  rw [mergeFileChanges_eq] at hdelta
  rw [applyFileDelta, applyChanges_compacted hdelta, ← applyFileDelta]
  exact applyFileDelta_filterMap_change? h

theorem applyArtefactDelta_mergeArtefactChanges {delta : List MergedArtefactChange}
    (hdelta : delta.Perm (mergeArtefactChanges artefactRows)) :
    applyArtefactDelta delta artefacts = replayArtefactRows artefactRows artefacts := by
  rw [mergeArtefactChanges_eq] at hdelta
  rw [applyArtefactDelta, applyChanges_compacted hdelta, ← applyArtefactDelta]
  exact applyArtefactDelta_map_change

/-- No path is named twice. -/
theorem nodup_path_mergeFileChanges : ((mergeFileChanges fileRows).map (·.path)).Nodup := by
  rw [mergeFileChanges_eq]
  exact nodup_intoValues_latestByKey

/-- No symbol is named twice. -/
theorem nodup_symbolId_mergeArtefactChanges :
    ((mergeArtefactChanges artefactRows).map (·.symbolId)).Nodup := by
  rw [mergeArtefactChanges_eq]
  exact nodup_intoValues_latestByKey

end Merging

/-! ## The delta of an interval -/

/-- What upserts and removals amount to: applied in any order they have the effect of the rows,
and they name each path and each symbol once. -/
structure DeltaOf (fileRows : List FileChangeRow) (artefactRows : List ArtefactChangeRow)
    (fileUpserts : List ChangedFile) (fileRemovals : List RemovedFile)
    (artefactUpserts : List ChangedArtefact) (artefactRemovals : List RemovedArtefact) : Prop where
  files : ∀ delta files, delta.Perm (fileDelta fileUpserts fileRemovals) →
    applyFileDelta delta files = replayFileRows fileRows files
  artefacts : ∀ delta artefacts, delta.Perm (artefactDelta artefactUpserts artefactRemovals) →
    applyArtefactDelta delta artefacts = replayArtefactRows artefactRows artefacts
  paths : (fileUpserts.map (·.path) ++ fileRemovals.map (·.path)).Nodup
  symbols : (artefactUpserts.map (·.symbolId) ++ artefactRemovals.map (·.symbolId)).Nodup

/-- Merging rows that are complete and splitting the changes yields a delta of the rows. -/
theorem deltaOf_merged {fileRows : List FileChangeRow} {artefactRows : List ArtefactChangeRow}
    (h : ∀ row ∈ fileRows,
      row.changeKind = .removed ∨ row.language.isSome ∧ row.contentId.isSome) :
    DeltaOf fileRows artefactRows
      (partitionFileChanges (mergeFileChanges fileRows)).1
      (partitionFileChanges (mergeFileChanges fileRows)).2
      (partitionArtefactChanges (mergeArtefactChanges artefactRows)).1
      (partitionArtefactChanges (mergeArtefactChanges artefactRows)).2 where
  files := fun delta files hdelta =>
    applyFileDelta_mergeFileChanges (hdelta.trans (fileDelta_partition_perm _)) h
  artefacts := fun delta artefacts hdelta =>
    applyArtefactDelta_mergeArtefactChanges (hdelta.trans (artefactDelta_partition_perm _))
  paths := by
    have hperm := (fileDelta_partition_perm (mergeFileChanges fileRows)).map (·.path)
    rw [fileDelta, List.map_append, List.map_map, List.map_map] at hperm
    exact hperm.nodup_iff.mpr nodup_path_mergeFileChanges
  symbols := by
    have hperm := (artefactDelta_partition_perm (mergeArtefactChanges artefactRows)).map (·.symbolId)
    rw [artefactDelta, List.map_append, List.map_map, List.map_map] at hperm
    exact hperm.nodup_iff.mpr nodup_symbolId_mergeArtefactChanges

theorem complete_of_mem_replayed {diffs : List RecordedDiff} {repoId : String}
    {fromExclusive toInclusive : ℕ} {row : FileChangeRow}
    (hrow : row ∈ (replayedDiffs diffs repoId fromExclusive toInclusive).flatMap (·.fileRows)) :
    row.changeKind = .removed ∨ row.language.isSome ∧ row.contentId.isSome := by
  obtain ⟨diff, -, hrow⟩ := List.mem_flatMap.mp hrow
  exact (of_mem_fileRows hrow).2.2

/-- Whatever diffs are recorded under whatever generations: what the loaded rows of an interval
are merged and split into is a delta of the rows, replayed one after the other. -/
theorem mergedDelta_eq_replay (diffs : List RecordedDiff) (repoId : String)
    (fromExclusive toInclusive : ℕ) :
    let s := recordDiffs diffs .empty
    let replayed := replayedDiffs diffs repoId fromExclusive toInclusive
    let mergedFiles := mergeFileChanges (loadFileChanges s repoId (fromExclusive + 1) toInclusive)
    let mergedArtefacts :=
      mergeArtefactChanges (loadArtefactChanges s repoId (fromExclusive + 1) toInclusive)
    DeltaOf (replayed.flatMap (·.fileRows)) (replayed.flatMap (·.artefactRows))
      (partitionFileChanges mergedFiles).1 (partitionFileChanges mergedFiles).2
      (partitionArtefactChanges mergedArtefacts).1
      (partitionArtefactChanges mergedArtefacts).2 := by
  intro s replayed mergedFiles mergedArtefacts
  have hfiles : mergedFiles = mergeFileChanges (replayed.flatMap (·.fileRows)) :=
    congrArg mergeFileChanges loadFileChanges_eq_replayed
  have hartefacts : mergedArtefacts = mergeArtefactChanges (replayed.flatMap (·.artefactRows)) :=
    congrArg mergeArtefactChanges loadArtefactChanges_eq_replayed
  rw [hfiles, hartefacts]
  exact deltaOf_merged fun row hrow => complete_of_mem_replayed hrow

/-- A request that names paths only for want of changes names at least one. -/
theorem loadDistinctChangedPaths_ne_nil {s : Store} {repoId : String} {fromSeq toSeq : ℕ}
    (h : countFileChanges s repoId fromSeq toSeq > fullReconcileFileChangeThreshold ∨
      countArtefactChanges s repoId fromSeq toSeq > fullReconcileArtefactChangeThreshold) :
    loadDistinctChangedPaths s repoId fromSeq toSeq ≠ [] := by
  intro hnil
  have hno : ∀ path, path ∉ loadDistinctChangedPaths s repoId fromSeq toSeq := by
    rw [hnil]
    exact fun path => List.not_mem_nil
  simp only [loadDistinctChangedPaths, mem_sortDedup, List.mem_append, List.mem_map, not_or,
    not_exists, not_and] at hno
  have hfiles : loadFileChanges s repoId fromSeq toSeq = [] :=
    List.eq_nil_iff_forall_not_mem.mpr fun row hrow => (hno row.path).1 row hrow rfl
  have hartefacts : loadArtefactChanges s repoId fromSeq toSeq = [] :=
    List.eq_nil_iff_forall_not_mem.mpr fun row hrow => (hno row.path).2 row hrow rfl
  rw [countFileChanges, countArtefactChanges, hfiles, hartefacts] at h
  rcases h with h | h <;> exact absurd h (Nat.not_lt_zero _)

/-- A request for a merged delta that does not fall back on naming paths has the effect of the
rows of its interval. -/
theorem requestChanges_eq_replay (diffs : List RecordedDiff) (run : CapabilityEventRunRecord)
    (cursor : Option ℕ) (generations : List GenerationRow) (fromExclusive toInclusive : ℕ)
    (hmode : (requestChanges (recordDiffs diffs .empty) run cursor generations (fromExclusive + 1)
      toInclusive).reconcileMode = .mergedDelta)
    (hpaths : (requestChanges (recordDiffs diffs .empty) run cursor generations (fromExclusive + 1)
      toInclusive).affectedPaths = []) :
    let changes := requestChanges (recordDiffs diffs .empty) run cursor generations
      (fromExclusive + 1) toInclusive
    let replayed := replayedDiffs diffs run.mailbox.repoId fromExclusive toInclusive
    DeltaOf (replayed.flatMap (·.fileRows)) (replayed.flatMap (·.artefactRows))
      changes.fileUpserts changes.fileRemovals changes.artefactUpserts
      changes.artefactRemovals := by
  intro changes replayed
  revert hmode hpaths
  simp only [changes, requestChanges]
  split_ifs with hforced hcount
  · exact fun hmode => by cases hmode
  · intro _ hpaths
    exact absurd hpaths (loadDistinctChangedPaths_ne_nil hcount)
  · exact fun hmode => by cases hmode
  · intro _ _
    simp only [loadFileChanges_eq_replayed, loadArtefactChanges_eq_replayed]
    exact deltaOf_merged fun row hrow => complete_of_mem_replayed hrow

/-- A consumer that has seen the first generation. -/
def secondGenerationRun : CapabilityEventRunRecord where
  runId := 2
  mailbox := { repoId := "repo-1", capabilityId := "codecity", mailboxName := "codecity.snapshot" }
  initSessionId := none
  fromGenerationSeq := 1
  toGenerationSeq := 2
  reconcileMode := .mergedDelta
  status := .running
  attempts := 1
  submittedAtUnix := 20
  startedAtUnix := some 21
  updatedAtUnix := 21
  completedAtUnix := none
  error := none

/-- The second generation changes one file. -/
def secondGenerationDiff : RecordedDiff where
  repoId := "repo-1"
  generationSeq := 2
  fileDiff :=
    { added := [], changed := [{ path := "src/a.rs", language := "rust", contentId := "blob-2" }],
      removed := [] }
  artefactDiff := { added := [], changed := [], removed := [] }

theorem secondGeneration_replayed :
    let changes := requestChanges (recordDiffs [secondGenerationDiff] .empty) secondGenerationRun
      (some 1) [] 2 2
    let replayed := replayedDiffs [secondGenerationDiff] "repo-1" 1 2
    DeltaOf (replayed.flatMap (·.fileRows)) (replayed.flatMap (·.artefactRows))
      changes.fileUpserts changes.fileRemovals changes.artefactUpserts
      changes.artefactRemovals :=
  requestChanges_eq_replay [secondGenerationDiff] secondGenerationRun (some 1) [] 1 2
    (by decide) (by decide)

end CapabilityEvents
end Bitloops
