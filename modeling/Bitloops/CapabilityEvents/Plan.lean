import Bitloops.CapabilityEvents.Queue
import Bitloops.Foundation.ChangeLog

/-!
# Execution plans

Before a run is executed, `build_execution_plan` fixes the interval of generations that the
consumer is asked to apply and decides between a *merged delta*, which lists the changes of
the interval, and a *full reconcile*.  The decision and the bounds are written back to the
run.
-/

namespace Bitloops
namespace CapabilityEvents

open CapabilityHost

def fullReconcileGenerationSpanThreshold : ℕ := 64
def fullReconcileFileChangeThreshold : ℕ := 2000
def fullReconcileArtefactChangeThreshold : ℕ := 5000

def architectureGraphCapabilityId : String := "architecture_graph"
def architectureGraphConsumerId : String := "architecture_graph.snapshot"
def architectureGraphRoleCurrentStateConsumerId : String :=
  "architecture_graph.roles.current_state"

structure ExecutionPlan where
  record : CapabilityEventRunRecord
  repoRoot : String
  request : CurrentStateConsumerRequest
  deriving DecidableEq, Repr

/-! ## Merging the changes of an interval -/

inductive MergedFileChange where
  | upsert (file : ChangedFile)
  | removed (file : RemovedFile)
  deriving DecidableEq, Repr

inductive MergedArtefactChange where
  | upsert (artefact : ChangedArtefact)
  | removed (artefact : RemovedArtefact)
  deriving DecidableEq, Repr

/-- One iteration of the loop in `merge_file_changes`. -/
def mergeFileChange (merged : AList fun _ : String => MergedFileChange) (row : FileChangeRow) :
    AList fun _ : String => MergedFileChange :=
  match row.changeKind, row.language, row.contentId with
  | .removed, _, _ => merged.insert row.path (.removed { path := row.path })
  | _, some language, some contentId =>
    merged.insert row.path (.upsert { path := row.path, language, contentId })
  | _, _, _ => merged

/-- The last change of each path, in the order of the paths. -/
def mergeFileChanges (rows : List FileChangeRow) : List MergedFileChange :=
  intoValues (rows.foldl mergeFileChange ∅)

/-- One iteration of the loop in `merge_artefact_changes`. -/
def mergeArtefactChange (merged : AList fun _ : String => MergedArtefactChange)
    (row : ArtefactChangeRow) : AList fun _ : String => MergedArtefactChange :=
  match row.changeKind with
  | .removed =>
    merged.insert row.symbolId
      (.removed { artefactId := row.artefactId, symbolId := row.symbolId, path := row.path })
  | _ =>
    merged.insert row.symbolId
      (.upsert
        { artefactId := row.artefactId, symbolId := row.symbolId, path := row.path,
          canonicalKind := row.canonicalKind, name := row.name })

/-- The last change of each symbol, in the order of the symbol ids. -/
def mergeArtefactChanges (rows : List ArtefactChangeRow) : List MergedArtefactChange :=
  intoValues (rows.foldl mergeArtefactChange ∅)

def partitionFileChanges (merged : List MergedFileChange) : List ChangedFile × List RemovedFile :=
  (merged.filterMap fun | .upsert file => some file | .removed _ => none,
    merged.filterMap fun | .upsert _ => none | .removed file => some file)

def partitionArtefactChanges (merged : List MergedArtefactChange) :
    List ChangedArtefact × List RemovedArtefact :=
  (merged.filterMap fun | .upsert artefact => some artefact | .removed _ => none,
    merged.filterMap fun | .upsert _ => none | .removed artefact => some artefact)

/-! ## The reconcile mode -/

def determineReconcileModeWithGenerationPolicy (lastAppliedGenerationSeq : Option ℕ)
    (generationRequestsFullReconcile : Bool) (latestGenerationSeq mergedFileCount
      mergedArtefactCount : ℕ) : ReconcileMode :=
  let pendingGenerationSpan := latestGenerationSeq - lastAppliedGenerationSeq.getD 0
  if lastAppliedGenerationSeq = none ∨ generationRequestsFullReconcile ∨
      pendingGenerationSpan > fullReconcileGenerationSpanThreshold ∨
      mergedFileCount > fullReconcileFileChangeThreshold ∨
      mergedArtefactCount > fullReconcileArtefactChangeThreshold then
    .fullReconcile
  else .mergedDelta

def architectureGraphSameSessionFollowUpDeltaEnabled (run : CapabilityEventRunRecord)
    (lastAppliedGenerationSeq : Option ℕ) (requestedFullReconcile : Bool) : Bool :=
  if requestedFullReconcile ∨ run.initSessionId = none ∨ lastAppliedGenerationSeq = none then false
  else if run.mailbox.capabilityId ≠ architectureGraphCapabilityId then false
  else
    run.mailbox.mailboxName = architectureGraphConsumerId ∨
      run.mailbox.mailboxName = architectureGraphRoleCurrentStateConsumerId

/-- The mode and the changes that a request carries. -/
structure RequestChanges where
  reconcileMode : ReconcileMode
  affectedPaths : List String
  fileUpserts : List ChangedFile
  fileRemovals : List RemovedFile
  artefactUpserts : List ChangedArtefact
  artefactRemovals : List RemovedArtefact
  deriving DecidableEq, Repr

/-- A request that names the affected paths only. -/
def affectedPathsOnly (s : Store) (repoId : String) (fromSeq toSeq : ℕ) (mode : ReconcileMode) :
    RequestChanges where
  reconcileMode := mode
  affectedPaths := loadDistinctChangedPaths s repoId fromSeq toSeq
  fileUpserts := []
  fileRemovals := []
  artefactUpserts := []
  artefactRemovals := []

/-- The part of `build_execution_plan` that chooses the mode and loads the changes of the
generations from `fromSeq` to `toSeq`. -/
def requestChanges (s : Store) (run : CapabilityEventRunRecord) (cursor : Option ℕ)
    (generations : List GenerationRow) (fromSeq toSeq : ℕ) : RequestChanges :=
  let repoId := run.mailbox.repoId
  let requestedFullReconcile : Bool := run.reconcileMode = .fullReconcile
  let suppressGenerationFullReconcile :=
    architectureGraphSameSessionFollowUpDeltaEnabled run cursor requestedFullReconcile
  let generationRequestsFullReconcile :=
    !suppressGenerationFullReconcile && generations.any (·.requiresFullReconcile)
  let forcedFullReconcile :=
    requestedFullReconcile || cursor.isNone || generationRequestsFullReconcile ||
      toSeq - cursor.getD 0 > fullReconcileGenerationSpanThreshold
  if forcedFullReconcile then affectedPathsOnly s repoId fromSeq toSeq .fullReconcile
  else if countFileChanges s repoId fromSeq toSeq > fullReconcileFileChangeThreshold ∨
      countArtefactChanges s repoId fromSeq toSeq > fullReconcileArtefactChangeThreshold then
    affectedPathsOnly s repoId fromSeq toSeq
      (if suppressGenerationFullReconcile then .mergedDelta else .fullReconcile)
  else
    let mergedFiles := mergeFileChanges (loadFileChanges s repoId fromSeq toSeq)
    let mergedArtefacts := mergeArtefactChanges (loadArtefactChanges s repoId fromSeq toSeq)
    { reconcileMode :=
        determineReconcileModeWithGenerationPolicy cursor generationRequestsFullReconcile toSeq
          mergedFiles.length mergedArtefacts.length
      affectedPaths := []
      fileUpserts := (partitionFileChanges mergedFiles).1
      fileRemovals := (partitionFileChanges mergedFiles).2
      artefactUpserts := (partitionArtefactChanges mergedArtefacts).1
      artefactRemovals := (partitionArtefactChanges mergedArtefacts).2 }

/-- The exclusive lower end of the interval that a run is asked to apply. -/
def fromGenerationSeqExclusive (run : CapabilityEventRunRecord) (cursor : Option ℕ)
    (latestGenerationSeq : ℕ) : ℕ :=
  if run.reconcileMode = .fullReconcile then min run.fromGenerationSeq (latestGenerationSeq - 1)
  else cursor.getD 0

/-- The bounds and the mode of a plan, as they are written back to its run. -/
def withBounds (fromSeq toSeq : ℕ) (mode : ReconcileMode) (record : CapabilityEventRunRecord) :
    CapabilityEventRunRecord :=
  { record with fromGenerationSeq := fromSeq, toGenerationSeq := toSeq, reconcileMode := mode }

/-- `build_execution_plan`; `none` when there is nothing to apply. -/
def buildExecutionPlan (run : CapabilityEventRunRecord) (repoRoot : String) (now : ℕ) (s : Store) :
    Option (Store × ExecutionPlan) := do
  let cursor ← loadConsumerCursor s run.mailbox
  let latest ← latestGenerationSeq s run.mailbox.repoId
  let cursor := cursor.lastAppliedGenerationSeq
  let fromExclusive := fromGenerationSeqExclusive run cursor latest
  if latest ≤ fromExclusive then none
  else
    let fromSeq := fromExclusive + 1
    let generations := loadGenerations s run.mailbox.repoId fromSeq latest
    let latestGeneration ← generations.getLast?
    let toSeq := latestGeneration.generationSeq
    let changes := requestChanges s run cursor generations fromSeq toSeq
    let record := withBounds fromExclusive toSeq changes.reconcileMode run
    some
      (updateRun run.runId
          (fun row =>
            { withBounds fromExclusive toSeq changes.reconcileMode row with updatedAtUnix := now })
          (fun _ => rfl) s,
        { record
          repoRoot
          request :=
            { runId := some run.runId
              repoId := run.mailbox.repoId
              repoRoot
              activeBranch := latestGeneration.activeBranch
              headCommitSha := latestGeneration.headCommitSha
              fromGenerationSeqExclusive := fromExclusive
              toGenerationSeqInclusive := toSeq
              reconcileMode := changes.reconcileMode
              fileUpserts := changes.fileUpserts
              fileRemovals := changes.fileRemovals
              affectedPaths := changes.affectedPaths
              artefactUpserts := changes.artefactUpserts
              artefactRemovals := changes.artefactRemovals } })

section PlanSpec

variable {s s' : Store} {run : CapabilityEventRunRecord} {repoRoot : String} {now : ℕ}
  {plan : ExecutionPlan}

/-- The last generation that is loaded is the latest one. -/
theorem loadGenerations_getLast? {repoId : String} {latest fromSeq : ℕ}
    (hlatest : latestGenerationSeq s repoId = some latest) (hfrom : fromSeq ≤ latest) :
    ∃ g, (loadGenerations s repoId fromSeq latest).getLast? = some g ∧ g.generationSeq = latest := by
  obtain ⟨hmem, hmax⟩ := latestGenerationSeq_eq_some_iff.mp hlatest
  obtain ⟨g₀, hg₀, hrepo, hseq⟩ := mem_generationSeqs_iff.mp hmem
  have hloaded : g₀ ∈ loadGenerations s repoId fromSeq latest := by
    simp [loadGenerations, hg₀, hrepo, hseq, hfrom]
  obtain ⟨g, hg⟩ : ∃ g, (loadGenerations s repoId fromSeq latest).getLast? = some g :=
    ⟨_, List.getLast?_eq_some_getLast (List.ne_nil_of_mem hloaded)⟩
  refine ⟨g, hg, ?_⟩
  obtain ⟨hrow, hgreatest⟩ := orderBy_getLast? hg
  have hle : g.generationSeq ≤ latest := by
    simp only [List.mem_filter, decide_eq_true_eq] at hrow
    exact hrow.2.2.2
  have hge : g₀.generationSeq ≤ g.generationSeq := hgreatest g₀ (mem_orderBy.mp hloaded)
  omega

/-- A merged delta is planned only for a mailbox with a cursor and a run that was not forced
into a full reconcile. -/
theorem of_requestChanges_mergedDelta {cursor : Option ℕ} {generations : List GenerationRow}
    {fromSeq toSeq : ℕ}
    (h : (requestChanges s run cursor generations fromSeq toSeq).reconcileMode = .mergedDelta) :
    run.reconcileMode ≠ .fullReconcile ∧ cursor.isSome := by
  constructor
  · intro hfull
    simp [requestChanges, hfull, affectedPathsOnly] at h
  · cases cursor with
    | some _ => rfl
    | none => simp [requestChanges, affectedPathsOnly] at h

/-- What a plan asks of the consumer, and what it leaves in the store. -/
structure PlannedFor (run : CapabilityEventRunRecord) (now : ℕ) (s s' : Store)
    (plan : ExecutionPlan) : Prop where
  latest : latestGenerationSeq s run.mailbox.repoId = some plan.request.toGenerationSeqInclusive
  lower : plan.request.fromGenerationSeqExclusive =
    fromGenerationSeqExclusive run (lastApplied s run.mailbox)
      plan.request.toGenerationSeqInclusive
  nonempty : plan.request.fromGenerationSeqExclusive < plan.request.toGenerationSeqInclusive
  record : plan.record = withBounds plan.request.fromGenerationSeqExclusive
    plan.request.toGenerationSeqInclusive plan.request.reconcileMode run
  mergedDelta : plan.request.reconcileMode = .mergedDelta →
    run.reconcileMode ≠ .fullReconcile ∧ (lastApplied s run.mailbox).isSome
  store : s' = updateRun run.runId
    (fun row =>
      { withBounds plan.request.fromGenerationSeqExclusive plan.request.toGenerationSeqInclusive
          plan.request.reconcileMode row with updatedAtUnix := now })
    (fun _ => rfl) s

theorem plannedFor_of_buildExecutionPlan
    (h : buildExecutionPlan run repoRoot now s = some (s', plan)) :
    PlannedFor run now s s' plan := by
  simp only [buildExecutionPlan, Option.bind_eq_bind, Option.bind_eq_some_iff] at h
  obtain ⟨row, hrow, latest, hlatest, h⟩ := h
  have hcursor : lastApplied s run.mailbox = row.lastAppliedGenerationSeq := by
    rw [lastApplied, hrow, Option.bind_some]
  split at h
  · cases h
  · rename_i hlt
    obtain ⟨g, hg, h⟩ := Option.bind_eq_some_iff.mp h
    obtain ⟨g', hg', hseq⟩ := loadGenerations_getLast? hlatest (Nat.succ_le_of_lt (not_le.mp hlt))
    obtain rfl : g' = g := Option.some.inj (hg'.symm.trans hg)
    simp only [hseq, Option.some.injEq, Prod.mk.injEq] at h
    obtain ⟨rfl, rfl⟩ := h
    refine ⟨hlatest, ?_, not_le.mp hlt, rfl, ?_, rfl⟩
    · rw [hcursor]
    · rw [hcursor]
      exact of_requestChanges_mergedDelta

/-- There is something to apply as soon as the interval is not empty. -/
theorem buildExecutionPlan_isSome {row : ConsumerCursorRow} {latest : ℕ}
    (hrow : loadConsumerCursor s run.mailbox = some row)
    (hlatest : latestGenerationSeq s run.mailbox.repoId = some latest)
    (hlt : fromGenerationSeqExclusive run row.lastAppliedGenerationSeq latest < latest) :
    (buildExecutionPlan run repoRoot now s).isSome := by
  obtain ⟨g, hg, -⟩ := loadGenerations_getLast? hlatest (Nat.succ_le_of_lt hlt)
  simp [buildExecutionPlan, hrow, hlatest, hg, not_le.mpr hlt]

end PlanSpec

/-- The consumer must have applied at least one generation of the interval, and none past it. -/
def validateConsumerResult (request : CurrentStateConsumerRequest)
    (result : CurrentStateConsumerResult) : Except String Unit :=
  if result.appliedToGenerationSeq < request.fromGenerationSeqExclusive + 1 ∨
      result.appliedToGenerationSeq > request.toGenerationSeqInclusive then
    .error
      ("consumer applied generation " ++ toString result.appliedToGenerationSeq ++
        " outside requested range " ++ toString (request.fromGenerationSeqExclusive + 1) ++
        "..=" ++ toString request.toGenerationSeqInclusive)
  else .ok ()

end CapabilityEvents
end Bitloops
