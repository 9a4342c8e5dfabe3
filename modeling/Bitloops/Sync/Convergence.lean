import Bitloops.Sync.RunInvariant

/-!
# Syncs converge

After a sync that prepared every path which it found added or changed, the unchanged workspace
is classified as unchanged: the row of a prepared file is read back as its desired state, the
rows of a removed one are gone, and nothing else was touched.
-/

namespace Bitloops
namespace Sync

open Daemon (SyncTaskMode)

/-- Every path that is not unchanged is removed, or prepared successfully. -/
def AllPrepared (classified : List ClassifiedPath) (actions : List RunAction) : Prop :=
  ∀ c ∈ classified,
    match c.action with
    | .unchanged => True
    | .removed => RunAction.removePaths ∈ actions
    | .added | .changed => ∃ rows, RunAction.prepared c.path (some rows) ∈ actions

/-! ## Preparations -/

section Preparations

variable {repoId path : String} {input : SyncInput} {st st' : Store × SyncRun}
  {actions : List RunAction}

/-- The path waits to be prepared. -/
def IsQueued (run : SyncRun) (path : String) : Prop := ∃ entry ∈ run.prepareQueue, entry.2.path = path

theorem IsQueued.of_runStep {action : RunAction} (hstep : runStep repoId input st action = some st')
    (h : IsQueued st'.2 path) : IsQueued st.2 path ∧ ∀ rows, action ≠ .prepared path rows := by
  obtain ⟨s, run⟩ := st
  cases action with
  | removePaths =>
    rw [runStep] at hstep
    split_ifs at hstep
    cases hstep
    exact ⟨h, fun rows h => (by cases h)⟩
  | prepared other rows =>
    rw [runStep] at hstep
    split_ifs at hstep
    obtain ⟨next, hhandled, rfl⟩ := Option.map_eq_some_iff.mp hstep
    obtain ⟨index, desired, -, -, rfl⟩ := handlePreparedOutcome_cases hhandled
    obtain ⟨entry, hentry, rfl⟩ := h
    obtain ⟨hentry, hother⟩ := List.mem_filter.mp hentry
    refine ⟨⟨entry, hentry, rfl⟩, fun rows heq => ?_⟩
    obtain ⟨rfl, -⟩ := RunAction.prepared.inj heq
    exact absurd rfl (of_decide_eq_true hother)
  | flush =>
    rw [runStep] at hstep
    split_ifs at hstep
    obtain ⟨s', run'⟩ := st'
    obtain ⟨outcome, -, rfl, rfl⟩ := flush_cases hstep
    exact ⟨h, fun rows h => (by cases h)⟩

theorem isQueued_of_prepared {rows : Option (List MaterializedArtefact)}
    (hstep : runStep repoId input st (.prepared path rows) = some st') : IsQueued st.2 path := by
  obtain ⟨s, run⟩ := st
  rw [runStep] at hstep
  split_ifs at hstep
  obtain ⟨next, hhandled, -⟩ := Option.map_eq_some_iff.mp hstep
  obtain ⟨index, desired, hmem, hpath, -⟩ := handlePreparedOutcome_cases hhandled
  exact ⟨(index, desired), hmem, hpath⟩

/-- A path that does not wait is not prepared any more. -/
theorem not_mem_of_not_isQueued {rows : Option (List MaterializedArtefact)}
    (hrun : Run.exec (runStep repoId input) st actions = some st') (hnot : ¬ IsQueued st.2 path) :
    RunAction.prepared path rows ∉ actions := by
  induction actions generalizing st with
  | nil => exact List.not_mem_nil
  | cons action actions ih =>
    obtain ⟨next, hstep, hrest⟩ := Run.exec_cons.mp hrun
    intro hmem
    rcases List.mem_cons.mp hmem with rfl | hmem
    · exact hnot (isQueued_of_prepared hstep)
    · exact ih hrest (fun hnext => hnot (hnext.of_runStep hstep).1) hmem

/-- A path is prepared once. -/
theorem not_failed_of_prepared {rows : List MaterializedArtefact}
    (hrun : Run.exec (runStep repoId input) st actions = some st')
    (hprepared : RunAction.prepared path (some rows) ∈ actions) :
    RunAction.prepared path none ∉ actions := by
  induction actions generalizing st with
  | nil => exact List.not_mem_nil
  | cons action actions ih =>
    obtain ⟨next, hstep, hrest⟩ := Run.exec_cons.mp hrun
    -- the first preparation of the path takes it out of the queue
    have hfirst : ∀ outcome, action = .prepared path outcome → ¬ IsQueued next.2 path :=
      fun outcome haction hqueued => (hqueued.of_runStep hstep).2 outcome haction
    intro hfailed
    rcases List.mem_cons.mp hprepared with h | hprepared
    · rcases List.mem_cons.mp hfailed with h' | hfailed
      · rw [← h] at h'
        cases h'
      · exact not_mem_of_not_isQueued hrest (hfirst _ h.symm) hfailed
    · rcases List.mem_cons.mp hfailed with h' | hfailed
      · exact not_mem_of_not_isQueued hrest (hfirst _ h'.symm) hprepared
      · exact ih hrest hprepared hfailed

/-- Nothing happens when nothing is planned. -/
theorem eq_nil_of_idle (hrun : Run.exec (runStep repoId input) st actions = some st')
    (hremovals : st.2.removals = []) (hqueue : st.2.prepareQueue = [])
    (hbatch : st.2.pendingBatch = []) : actions = [] := by
  cases actions with
  | nil => rfl
  | cons action actions =>
    obtain ⟨next, hstep, -⟩ := Run.exec_cons.mp hrun
    obtain ⟨s, run⟩ := st
    cases action with
    | removePaths =>
      rw [runStep, if_pos hremovals] at hstep
      cases hstep
    | prepared path rows =>
      obtain ⟨entry, hentry, -⟩ := isQueued_of_prepared hstep
      rw [hqueue] at hentry
      exact absurd hentry List.not_mem_nil
    | flush =>
      rw [runStep, if_pos hbatch] at hstep
      cases hstep

/-- A run whose preparations succeed plans to the end what it planned at the start. -/
theorem planned_exec {base : Store} (hinv : RunInvariant repoId input base st.1 st.2)
    (hsuccess : ∀ path, RunAction.prepared path none ∉ actions)
    (hrun : Run.exec (runStep repoId input) st actions = some st') :
    RunInvariant repoId input base st'.1 st'.2 ∧ st'.2.planned.Perm st.2.planned := by
  induction actions generalizing st with
  | nil =>
    cases hrun
    exact ⟨hinv, List.Perm.refl _⟩
  | cons action actions ih =>
    obtain ⟨next, hstep, hrest⟩ := Run.exec_cons.mp hrun
    have hnext : RunInvariant repoId input base next.1 next.2 := hinv.runStep hstep
    have hmoved := (planned_runStep hinv.nodup hstep).2 fun path heq =>
      hsuccess path (heq ▸ List.mem_cons_self)
    obtain ⟨hfinal, hperm⟩ := ih hnext
      (fun path hmem => hsuccess path (List.mem_cons_of_mem _ hmem)) hrest
    exact ⟨hfinal, hperm.trans hmoved⟩

theorem planned_of_complete {run : SyncRun} (h : run.complete = true) :
    run.planned = run.commits.map fun commit => (commit.path, commit.desired) := by
  simp only [SyncRun.complete, Bool.and_eq_true, decide_eq_true_eq, List.isEmpty_iff] at h
  obtain ⟨⟨hremovals, hqueue⟩, hbatch⟩ := h
  simp [SyncRun.planned, hremovals, hqueue, hbatch]

end Preparations

/-! ## The stored manifest afterwards -/

section Stored

variable {repoId path : String} {files files' : FileTable} {requested : Option (List String)}
  {stored : StoredFileState}

theorem findRow_loadStoredManifestForPaths :
    findRow StoredFileState.path path (loadStoredManifestForPaths files repoId requested).rows =
        some stored ↔
      ∃ row ∈ files.rows, row.repoId = repoId ∧ row.path = path ∧
        isRequested requested path = true ∧ storedManifestRow row = some stored := by
  rw [UniqueTable.findRow_eq_some, mem_loadStoredManifestForPaths]
  constructor
  · rintro ⟨⟨row, hrow, hrepo, hrequested, hdecoded⟩, rfl⟩
    have hpath := path_of_storedManifestRow hdecoded
    exact ⟨row, hrow, hrepo, hpath.symm, hpath ▸ hrequested, hdecoded⟩
  · rintro ⟨row, hrow, hrepo, rfl, hrequested, hdecoded⟩
    exact ⟨⟨row, hrow, hrepo, hrequested, hdecoded⟩, path_of_storedManifestRow hdecoded⟩

/-- The stored state of a path depends on the row of the path. -/
theorem findRow_loadStoredManifestForPaths_congr
    (h : ∀ row : CurrentFileStateRow, row.repoId = repoId → row.path = path →
      (row ∈ files'.rows ↔ row ∈ files.rows)) :
    findRow StoredFileState.path path (loadStoredManifestForPaths files' repoId requested).rows =
      findRow StoredFileState.path path (loadStoredManifestForPaths files repoId requested).rows := by
  refine Option.ext fun stored => ?_
  rw [findRow_loadStoredManifestForPaths, findRow_loadStoredManifestForPaths]
  refine exists_congr fun row => ?_
  constructor
  · rintro ⟨hrow, hrepo, hpath, hrest⟩
    exact ⟨(h row hrepo hpath).mp hrow, hrepo, hpath, hrest⟩
  · rintro ⟨hrow, hrepo, hpath, hrest⟩
    exact ⟨(h row hrepo hpath).mpr hrow, hrepo, hpath, hrest⟩

/-- The path of a desired state is requested. -/
theorem isRequested_of_mem_desiredManifest {input : SyncInput} {d : DesiredFileState}
    (h : d ∈ input.desiredManifest.rows) :
    isRequested (requestedPaths input.mode input.ignoredPaths) d.path = true := by
  simpa using (UniqueTable.mem_delete.mp h).2

end Stored

section Converges

variable {repoId : String} {input : SyncInput} {s s' : Store} {actions : List RunAction}
  {run : SyncRun}

/-- The commits of a complete sync with no failed preparation are what was not unchanged. -/
theorem mem_commits_of_complete
    (hrun : Run.exec (runStep repoId input) (s, startSync repoId input s) actions = some (s', run))
    (hcomplete : run.complete = true)
    (hprepared : AllPrepared (classifyWorkspace repoId input s.files) actions) :
    RunInvariant repoId input s s' run ∧
      ∀ path desired, (∃ c ∈ run.commits, c.path = path ∧ c.desired = desired) ↔
        ∃ c ∈ classifyWorkspace repoId input s.files,
          c.path = path ∧ c.desired = desired ∧ c.action ≠ .unchanged := by
  -- the paths that are prepared are those that are to be prepared
  have hsuccess : ∀ path, RunAction.prepared path none ∉ actions := by
    intro path hfailed
    have hqueued : IsQueued (startSync repoId input s) path :=
      Classical.byContradiction fun hnot => not_mem_of_not_isQueued hrun hnot hfailed
    obtain ⟨entry, hentry, rfl⟩ := hqueued
    have hplanned : (entry.2.path, some entry.2) ∈ (startSync repoId input s).planned := by
      simp only [SyncRun.planned, List.append_assoc]
      exact List.mem_append_right _ (List.mem_append_left _ (List.mem_map_of_mem hentry))
    obtain ⟨-, c, hc, hpath, hdesired, haction⟩ := mem_planned_startSync.mp hplanned
    have hc' := hprepared c hc
    have hconsistent := consistent_of_mem_classifyPaths hc
    cases hcase : c.action with
    | unchanged => exact haction hcase
    | removed =>
      rw [hconsistent.removed hcase] at hdesired
      cases hdesired
    | added | changed =>
      rw [hcase] at hc'
      obtain ⟨rows, hmem⟩ := hc'
      rw [hpath] at hmem
      exact not_failed_of_prepared hrun hmem hfailed
  obtain ⟨hinv, hperm⟩ := planned_exec runInvariant_startSync hsuccess hrun
  refine ⟨hinv, fun path desired => ?_⟩
  -- a validation, which plans nothing, finds nothing to do
  have hvalidate : input.mode = .validate →
      ∀ c ∈ classifyWorkspace repoId input s.files, c.action = .unchanged := by
    intro hmode c hc
    have hidle : actions = [] := by
      refine eq_nil_of_idle hrun ?_ ?_ ?_ <;> simp [startSync, hmode]
    have hc' := hprepared c hc
    rw [hidle] at hc'
    cases hcase : c.action with
    | unchanged => rfl
    | removed =>
      rw [hcase] at hc'
      exact absurd hc' List.not_mem_nil
    | added | changed =>
      rw [hcase] at hc'
      obtain ⟨rows, hmem⟩ := hc'
      exact absurd hmem List.not_mem_nil
  have hcommitted : (∃ c ∈ run.commits, c.path = path ∧ c.desired = desired) ↔
      (path, desired) ∈ (startSync repoId input s).planned := by
    rw [← hperm.mem_iff, planned_of_complete hcomplete, List.mem_map]
    simp only [Prod.mk.injEq]
  rw [hcommitted, mem_planned_startSync]
  constructor
  · exact fun h => h.2
  · rintro ⟨c, hc, hpath, hdesired, haction⟩
    exact ⟨fun hmode => haction (hvalidate hmode c hc), c, hc, hpath, hdesired, haction⟩

end Converges

/-- A text file at `HEAD`. -/
def headTextFile (path contentId : String) : DesiredFileState where
  path := path
  analysisMode := .text
  fileRole := .documentation
  textIndexMode := .embed
  language := "markdown"
  resolvedLanguage := "markdown"
  dialect := none
  primaryContextId := none
  secondaryContextIds := ["docs"]
  frameworks := []
  runtimeProfile := none
  classificationReason := "text"
  contextFingerprint := none
  extractionFingerprint := "fingerprint"
  headContentId := some contentId
  indexContentId := some contentId
  worktreeContentId := some contentId
  effectiveContentId := contentId
  effectiveSource := .head
  existsInHead := true
  existsInIndex := true
  existsInWorktree := true

/-- A path sync of a workspace with one file. -/
def oneFileInput : SyncInput where
  mode := .paths [" a "]
  taskId := some "task"
  initSessionId := none
  ignoredPaths := []
  desired := ⟨[headTextFile "a" "blob"], by decide⟩
  parserVersion := "1"
  extractorVersion := "1"
  activeBranch := some "main"
  headCommitSha := none

end Sync
end Bitloops
