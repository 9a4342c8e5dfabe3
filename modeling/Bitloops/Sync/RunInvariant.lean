import Mathlib.Data.List.Perm.Subperm
import Bitloops.Sync.Orchestrator

/-!
# What a sync in progress keeps

The paths that a sync has planned are to be removed, to be prepared, in the batch, or committed;
an operation moves them on, and a failed preparation drops one.  `RunInvariant` relates the store
and the collector to the changes committed so far: a committed path holds what was committed and
is collected, and every other path is as it was when the sync started.
-/

namespace Bitloops
namespace Sync

open CapabilityHost

/-! ## The planned paths -/

/-- The planned paths with their desired states. -/
def SyncRun.planned (run : SyncRun) : List (String × Option DesiredFileState) :=
  run.removals.map (·, none) ++ run.prepareQueue.map (fun entry => (entry.2.path, some entry.2)) ++
    run.pendingBatch.map (fun item => (item.desired.path, some item.desired)) ++
      run.commits.map fun commit => (commit.path, commit.desired)

/-- The plan that a classification gives. -/
def plan (classified : List ClassifiedPath) : List (String × Option DesiredFileState) :=
  (classified.filter (·.action = .removed)).map (fun c => (c.path, none)) ++
    (classified.zipIdx.filterMap prepareInput?).map fun entry => (entry.2.path, some entry.2)

section Planned

variable {repoId : String} {input : SyncInput} {s s' : Store} {run run' : SyncRun}

/-- What a classification says about the desired state of a path. -/
structure ClassifiedPath.Consistent (c : ClassifiedPath) : Prop where
  removed : c.action = .removed → c.desired = none
  prepared : c.action = .added ∨ c.action = .changed → ∃ d, c.desired = some d ∧ d.path = c.path

theorem consistent_of_mem_classifyPaths {desired : DesiredManifest} {stored : StoredManifest}
    {parserVersion extractorVersion : String} {repair : Bool} {c : ClassifiedPath}
    (h : c ∈ classifyPaths desired stored parserVersion extractorVersion repair) :
    c.Consistent := by
  obtain ⟨hdesired, haction⟩ := mem_classifyPaths.mp h
  cases hstate : c.desired with
  | none =>
    refine ⟨fun _ => hstate, fun hprepared => ?_⟩
    rw [hstate] at haction
    cases hstored : findRow StoredFileState.path c.path stored.rows with
    | none =>
      rw [hstored] at haction
      cases haction
    | some stored =>
      rw [hstored] at haction
      rw [classifyPath, Option.some.injEq] at haction
      rw [← haction] at hprepared
      rcases hprepared with h | h <;> cases h
  | some d =>
    rw [hstate] at hdesired
    refine ⟨fun hremoved => ?_, fun _ => ⟨d, hstate, ?_⟩⟩
    · rw [hstate, hremoved] at haction
      cases hstored : findRow StoredFileState.path c.path stored.rows with
      | none => rw [hstored] at haction; cases haction
      | some stored =>
        rw [hstored, classifyPath] at haction
        split_ifs at haction <;> cases haction
    · exact (UniqueTable.findRow_eq_some.mp hdesired.symm).2

/-- The paths to remove and to prepare are those that are not unchanged. -/
theorem mem_plan {classified : List ClassifiedPath} (hwf : ∀ c ∈ classified, c.Consistent)
    {path : String} {desired : Option DesiredFileState} :
    (path, desired) ∈ plan classified ↔
      ∃ c ∈ classified, c.path = path ∧ c.desired = desired ∧ c.action ≠ .unchanged := by
  rw [plan, List.mem_append]
  constructor
  · rintro (hmem | hmem)
    · obtain ⟨c, hc, hpath⟩ := List.mem_map.mp hmem
      obtain ⟨hc, haction⟩ := List.mem_filter.mp hc
      have haction := of_decide_eq_true haction
      obtain ⟨rfl, rfl⟩ := Prod.mk.inj hpath
      exact ⟨c, hc, rfl, (hwf c hc).removed haction, by rw [haction]; decide⟩
    · obtain ⟨⟨index, d⟩, hentry, hpath⟩ := List.mem_map.mp hmem
      obtain ⟨⟨c, i⟩, hzip, hinput⟩ := List.mem_filterMap.mp hentry
      have hc : c ∈ classified := List.fst_mem_of_mem_zipIdx hzip
      obtain ⟨rfl, rfl⟩ := Prod.mk.inj hpath
      have hprepared := (hwf c hc).prepared
      obtain ⟨p, action, state⟩ := c
      cases action <;> cases state <;> cases hinput
      · obtain ⟨d', hd', hpath⟩ := hprepared (.inl rfl)
        cases hd'
        exact ⟨_, hc, hpath.symm, rfl, fun h => (nomatch h)⟩
      · obtain ⟨d', hd', hpath⟩ := hprepared (.inr rfl)
        cases hd'
        exact ⟨_, hc, hpath.symm, rfl, fun h => (nomatch h)⟩
  · rintro ⟨c, hc, rfl, rfl, haction⟩
    by_cases hremoved : c.action = .removed
    · refine .inl (List.mem_map.mpr ⟨c, List.mem_filter.mpr ⟨hc, by simp [hremoved]⟩, ?_⟩)
      rw [(hwf c hc).removed hremoved]
    · have hprepared : c.action = .added ∨ c.action = .changed := by
        cases h : c.action with
        | unchanged => exact absurd h haction
        | removed => exact absurd h hremoved
        | added => exact .inl rfl
        | changed => exact .inr rfl
      obtain ⟨d, hd, hpath⟩ := (hwf c hc).prepared hprepared
      obtain ⟨i, hi, hget⟩ := List.getElem_of_mem hc
      refine .inr (List.mem_map.mpr ⟨(i, d), List.mem_filterMap.mpr ⟨(c, i),
        List.mk_mem_zipIdx_iff_getElem?.mpr (List.getElem?_eq_some_iff.mpr ⟨hi, hget⟩), ?_⟩, ?_⟩)
      · obtain ⟨p, action, state⟩ := c
        obtain rfl := hd
        rcases hprepared with h | h <;> obtain rfl := h <;> rfl
      · rw [hd, hpath]

theorem nodup_plan {classified : List ClassifiedPath} (hwf : ∀ c ∈ classified, c.Consistent)
    (hnodup : (classified.map (·.path)).Nodup) :
    ((plan classified).map Prod.fst).Nodup := by
  rw [plan, List.map_append, List.map_map, List.map_map]
  refine List.nodup_append.mpr ⟨?_, ?_, ?_⟩
  · exact hnodup.sublist (List.filter_sublist.map _)
  · have hzip : classified.zipIdx.Pairwise fun e e' => e.1.path ≠ e'.1.path := by
      have hfst : (classified.zipIdx.map Prod.fst).Pairwise fun c c' => c.path ≠ c'.path := by
        rw [List.zipIdx_map_fst]
        exact List.pairwise_map.mp hnodup
      exact (List.pairwise_map (f := Prod.fst)).mp hfst
    rw [List.Nodup, List.pairwise_map, List.pairwise_filterMap]
    refine hzip.imp_of_mem ?_
    intro e e' he he' hne entry hentry entry' hentry'
    -- an input has the path of the entry it comes from
    have hpath : ∀ e ∈ classified.zipIdx, ∀ entry, prepareInput? e = some entry →
        entry.2.path = e.1.path := by
      intro e he entry hentry
      have hprepared := (hwf e.1 (List.fst_mem_of_mem_zipIdx he)).prepared
      obtain ⟨⟨p, action, state⟩, i⟩ := e
      cases action <;> cases state <;> cases hentry
      · obtain ⟨d, hd, hpath⟩ := hprepared (.inl rfl)
        cases hd
        exact hpath
      · obtain ⟨d, hd, hpath⟩ := hprepared (.inr rfl)
        cases hd
        exact hpath
    rw [Function.comp_apply, Function.comp_apply, hpath e he entry hentry,
      hpath e' he' entry' hentry']
    exact hne
  · rintro path hremoved path' hprepared rfl
    obtain ⟨c, hc, hpath⟩ := List.mem_map.mp hremoved
    obtain ⟨entry, hentry, hpath'⟩ := List.mem_map.mp hprepared
    obtain ⟨hc, haction⟩ := List.mem_filter.mp hc
    have haction := of_decide_eq_true haction
    obtain ⟨c', hc', hcpath, hcdesired, -⟩ := (mem_plan hwf).mp
      (List.mem_append_right _ (List.mem_map.mpr ⟨entry, hentry, rfl⟩))
    have heq : c = c' := by
      refine List.inj_on_of_nodup_map hnodup hc hc' ?_
      rw [hcpath]
      exact hpath.trans hpath'.symm
    rw [← heq, (hwf c hc).removed haction] at hcdesired
    cases hcdesired

theorem planned_startSync : (startSync repoId input s).planned =
    if input.mode = .validate then [] else plan (classifyWorkspace repoId input s.files) := by
  simp only [SyncRun.planned, startSync, List.map_nil, List.append_nil, List.map_map]
  by_cases hmode : input.mode = .validate
  · simp [hmode]
  · simp only [if_neg hmode]
    rfl

/-- At the start, the plan is what is not unchanged. -/
theorem mem_planned_startSync {path : String} {desired : Option DesiredFileState} :
    (path, desired) ∈ (startSync repoId input s).planned ↔
      input.mode ≠ .validate ∧ ∃ c ∈ classifyWorkspace repoId input s.files,
        c.path = path ∧ c.desired = desired ∧ c.action ≠ .unchanged := by
  have hwf : ∀ c ∈ classifyWorkspace repoId input s.files, c.Consistent := fun c hc =>
    consistent_of_mem_classifyPaths hc
  rw [planned_startSync]
  by_cases hmode : input.mode = .validate
  · simp [hmode]
  · rw [if_neg hmode, mem_plan hwf, and_iff_right hmode]

theorem nodup_planned_startSync : ((startSync repoId input s).planned.map Prod.fst).Nodup := by
  rw [planned_startSync]
  split_ifs
  · exact List.nodup_nil
  · exact nodup_plan (fun c hc => consistent_of_mem_classifyPaths hc) nodup_classifyPaths

/-- The commits of a batch are those of its items. -/
theorem planned_materialiseItems {items : List PreparedSyncItem}
    {outcome outcome' : WriterCommitOutcome}
    (h : materialiseItems repoId input items outcome = some outcome') :
    outcome'.commits.map (fun commit => (commit.path, commit.desired)) =
      outcome.commits.map (fun commit => (commit.path, commit.desired)) ++
        items.map fun item => (item.desired.path, some item.desired) := by
  induction items generalizing outcome with
  | nil =>
    cases h
    simp
  | cons item items ih =>
    rw [materialiseItems, Option.bind_eq_some_iff] at h
    obtain ⟨next, hitem, hrest⟩ := h
    obtain ⟨store, -, rfl⟩ := materialiseItem_cases hitem
    rw [ih hrest, List.map_append, List.map_cons, List.map_nil, List.append_assoc]
    rfl

/-- The entry of a prepared path is the only one. -/
theorem perm_filter_of_mem {entries : List (ℕ × DesiredFileState)}
    (hnodup : (entries.map (·.2.path)).Nodup) {index : ℕ} {desired : DesiredFileState}
    (hmem : (index, desired) ∈ entries) :
    (entries.filter (fun entry => entry.2.path ≠ desired.path) ++ [(index, desired)]).Perm
      entries := by
  have honly : entries.filter (fun entry => entry.2.path = desired.path) = [(index, desired)] := by
    refine List.perm_singleton.mp ((List.perm_ext_iff_of_nodup ?_ (List.nodup_singleton _)).mpr ?_)
    · exact (List.Nodup.of_map _ hnodup).filter _
    · intro entry
      rw [List.mem_filter, decide_eq_true_eq, List.mem_singleton]
      constructor
      · rintro ⟨hentry, hpath⟩
        exact List.inj_on_of_nodup_map hnodup hentry hmem hpath
      · rintro rfl
        exact ⟨hmem, rfl⟩
  rw [← honly]
  have hperm := List.filter_append_perm (fun entry : ℕ × DesiredFileState =>
    decide (entry.2.path = desired.path)) entries
  refine (List.perm_append_comm.trans ?_)
  simpa using hperm

/-- **An operation moves the planned paths on**; only a failed preparation drops one. -/
theorem planned_runStep {action : RunAction} (hnodup : (run.planned.map Prod.fst).Nodup)
    (hstep : runStep repoId input (s, run) action = some (s', run')) :
    run'.planned.Subperm run.planned ∧
      ((∀ path, action ≠ .prepared path none) → run'.planned.Perm run.planned) := by
  cases action with
  | removePaths =>
    rw [runStep] at hstep
    split_ifs at hstep
    cases hstep
    have hperm : (removePaths repoId s run).2.planned.Perm run.planned := by
      simp only [SyncRun.planned, removePaths, List.map_nil, List.nil_append, List.map_append,
        List.map_map, List.append_assoc]
      refine List.Perm.trans ?_ List.perm_append_comm
      simp only [List.append_assoc]
      rfl
    exact ⟨hperm.subperm, fun _ => hperm⟩
  | prepared path rows =>
    rw [runStep] at hstep
    split_ifs at hstep
    obtain ⟨next, hhandled, heq⟩ := Option.map_eq_some_iff.mp hstep
    cases heq
    obtain ⟨index, desired, hmem, rfl, rfl⟩ := handlePreparedOutcome_cases hhandled
    have hqueue : (run.prepareQueue.map (·.2.path)).Nodup := by
      have hsub : (run.prepareQueue.map (·.2.path)).Sublist (run.planned.map Prod.fst) := by
        simp only [SyncRun.planned, List.map_append, List.map_map, List.append_assoc]
        exact (List.sublist_append_left _ _).trans (List.sublist_append_right _ _)
      exact hnodup.sublist hsub
    have hperm := (perm_filter_of_mem hqueue hmem).map fun entry : ℕ × DesiredFileState =>
      (entry.2.path, some entry.2)
    rw [List.map_append, List.map_cons, List.map_nil] at hperm
    cases rows with
    | some rows =>
      have hplanned : SyncRun.planned
          { run with
            prepareQueue := run.prepareQueue.filter fun entry => entry.2.path ≠ desired.path
            pendingBatch := run.pendingBatch ++
              [{ index, desired, preparedRows := rows }] } |>.Perm run.planned := by
        simp only [SyncRun.planned, List.map_append, List.map_cons, List.map_nil,
          List.append_assoc]
        refine List.Perm.append_left _ ?_
        refine List.Perm.trans ?_ (hperm.append_right _)
        simp only [List.append_assoc]
        refine List.Perm.append_left _ ?_
        exact (List.perm_append_comm_assoc _ _ _)
      exact ⟨hplanned.subperm, fun _ => hplanned⟩
    | none =>
      refine ⟨?_, fun hnot => absurd rfl (hnot desired.path)⟩
      simp only [SyncRun.planned, Option.map_none, Option.toList_none, List.append_nil]
      refine List.Sublist.subperm ?_
      have hsub : (run.prepareQueue.filter fun entry => decide (entry.2.path ≠ desired.path)).Sublist
          run.prepareQueue := List.filter_sublist
      exact (((List.Sublist.refl _).append (hsub.map _)).append (List.Sublist.refl _)).append
        (List.Sublist.refl _)
  | flush =>
    rw [runStep] at hstep
    split_ifs at hstep
    obtain ⟨outcome, hitems, rfl, rfl⟩ := flush_cases hstep
    have hcommits := planned_materialiseItems hitems
    rw [List.map_nil, List.nil_append] at hcommits
    have hsorted : (outcome.commits.map fun commit => (commit.path, commit.desired)).Perm
        (run.pendingBatch.map fun item => (item.desired.path, some item.desired)) := by
      rw [hcommits]
      exact (perm_orderBy _ _).map _
    have hperm : SyncRun.planned
        { run with
          pendingBatch := []
          diffCollector :=
            run.diffCollector.recordCommit outcome.preArtefacts outcome.postArtefacts
          commits := run.commits ++ outcome.commits } |>.Perm run.planned := by
      simp only [SyncRun.planned, List.map_nil, List.append_nil, List.map_append,
        List.append_assoc]
      refine List.Perm.append_left _ (List.Perm.append_left _ ?_)
      exact List.perm_append_comm.trans (hsorted.append_right _)
    exact ⟨hperm.subperm, fun _ => hperm⟩

theorem nodup_planned_runStep {action : RunAction} (hnodup : (run.planned.map Prod.fst).Nodup)
    (hstep : runStep repoId input (s, run) action = some (s', run')) :
    (run'.planned.map Prod.fst).Nodup := by
  obtain ⟨kept, hperm, hsub⟩ := (planned_runStep hnodup hstep).1
  exact (hperm.map Prod.fst).nodup_iff.mp (hnodup.sublist (hsub.map Prod.fst))

end Planned

/-! ## The committed changes -/

/-- The changes lead from the store `base` to the store `s`. -/
structure Tracked (repoId : String) (input : SyncInput) (base s : Store)
    (commits : List PathCommit) : Prop where
  files : ∀ c ∈ commits, ∀ row : CurrentFileStateRow, row.repoId = repoId → row.path = c.path →
    (row ∈ s.files.rows ↔
      ∃ d, c.desired = some d ∧
        row = currentFileStateRow repoId d input.parserVersion input.extractorVersion)
  pre : ∀ c ∈ commits, ∀ r, r ∈ c.pre ↔ r ∈ queryCurrentArtefactsForPath repoId c.path base.artefacts
  post : ∀ c ∈ commits, ∀ r, r ∈ c.post ↔ r ∈ queryCurrentArtefactsForPath repoId c.path s.artefacts
  symbols : ∀ c ∈ commits, (c.pre.map (·.symbolId)).Nodup ∧ (c.post.map (·.symbolId)).Nodup
  otherFiles : ∀ row : CurrentFileStateRow,
    ¬ (row.repoId = repoId ∧ row.path ∈ commits.map (·.path)) →
      (row ∈ s.files.rows ↔ row ∈ base.files.rows)
  otherArtefacts : ∀ row : ArtefactRow,
    ¬ (row.repoId = repoId ∧ row.path ∈ commits.map (·.path)) →
      (row ∈ s.artefacts.rows ↔ row ∈ base.artefacts.rows)

section Tracking

variable {repoId : String} {input : SyncInput} {base s s' : Store} {commits commits' : List PathCommit}

theorem mem_query_congr {t t' : ArtefactTable} {path : String}
    (h : ∀ row : ArtefactRow, row.repoId = repoId → row.path = path →
      (row ∈ t.rows ↔ row ∈ t'.rows)) (r : DiffArtefactRecord) :
    r ∈ queryCurrentArtefactsForPath repoId path t ↔
      r ∈ queryCurrentArtefactsForPath repoId path t' := by
  rw [mem_queryCurrentArtefactsForPath, mem_queryCurrentArtefactsForPath]
  constructor
  · rintro ⟨row, hrow, hrepo, hpath, hr⟩
    exact ⟨row, (h row hrepo hpath).mp hrow, hrepo, hpath, hr⟩
  · rintro ⟨row, hrow, hrepo, hpath, hr⟩
    exact ⟨row, (h row hrepo hpath).mpr hrow, hrepo, hpath, hr⟩

theorem Tracked.refl : Tracked repoId input s s [] where
  files _ hc := absurd hc List.not_mem_nil
  pre _ hc := absurd hc List.not_mem_nil
  post _ hc := absurd hc List.not_mem_nil
  symbols _ hc := absurd hc List.not_mem_nil
  otherFiles _ _ := Iff.rfl
  otherArtefacts _ _ := Iff.rfl

/-- Changes of different paths, one after the other. -/
theorem Tracked.trans (h : Tracked repoId input base s commits)
    (h' : Tracked repoId input s s' commits')
    (hdisjoint : ∀ c ∈ commits, ∀ c' ∈ commits', c.path ≠ c'.path) :
    Tracked repoId input base s' (commits ++ commits') := by
  have hnew : ∀ c ∈ commits, c.path ∉ commits'.map (·.path) := by
    intro c hc hmem
    obtain ⟨c', hc', hpath⟩ := List.mem_map.mp hmem
    exact hdisjoint c hc c' hc' hpath.symm
  have hold : ∀ c' ∈ commits', c'.path ∉ commits.map (·.path) := by
    intro c' hc' hmem
    obtain ⟨c, hc, hpath⟩ := List.mem_map.mp hmem
    exact hdisjoint c hc c' hc' hpath
  refine ⟨?_, ?_, ?_, ?_, ?_, ?_⟩
  · intro c hc row hrepo hpath
    rcases List.mem_append.mp hc with hc | hc
    · rw [h'.otherFiles row fun hmem => hnew c hc (hpath ▸ hmem.2)]
      exact h.files c hc row hrepo hpath
    · exact h'.files c hc row hrepo hpath
  · intro c hc r
    rcases List.mem_append.mp hc with hc | hc
    · exact h.pre c hc r
    · rw [h'.pre c hc r]
      refine mem_query_congr (fun row hrepo hpath => ?_) r
      exact h.otherArtefacts row fun hmem => hold c hc (hpath ▸ hmem.2)
  · intro c hc r
    rcases List.mem_append.mp hc with hc | hc
    · rw [h.post c hc r]
      refine mem_query_congr (fun row hrepo hpath => ?_) r
      exact (h'.otherArtefacts row fun hmem => hnew c hc (hpath ▸ hmem.2)).symm
    · exact h'.post c hc r
  · intro c hc
    rcases List.mem_append.mp hc with hc | hc
    · exact h.symbols c hc
    · exact h'.symbols c hc
  · intro row hnot
    rw [List.map_append] at hnot
    rw [h'.otherFiles row fun hmem => hnot ⟨hmem.1, List.mem_append_right _ hmem.2⟩,
      h.otherFiles row fun hmem => hnot ⟨hmem.1, List.mem_append_left _ hmem.2⟩]
  · intro row hnot
    rw [List.map_append] at hnot
    rw [h'.otherArtefacts row fun hmem => hnot ⟨hmem.1, List.mem_append_right _ hmem.2⟩,
      h.otherArtefacts row fun hmem => hnot ⟨hmem.1, List.mem_append_left _ hmem.2⟩]

/-- Removing paths, when the removal of a path without rows need not be listed. -/
theorem Tracked.removePathsTx {paths listed : List String} (hsub : ∀ path ∈ listed, path ∈ paths)
    (hfiles : ∀ row ∈ s.files.rows, row.repoId = repoId → row.path ∈ paths → row.path ∈ listed)
    (hartefacts : ∀ row ∈ s.artefacts.rows, row.repoId = repoId → row.path ∈ paths →
      row.path ∈ listed) :
    Tracked repoId input s (removePathsTx repoId paths s)
      (listed.map (removalCommit repoId s.artefacts)) := by
  have hmem : ∀ path, path ∈ (listed.map (removalCommit repoId s.artefacts)).map (·.path) ↔
      path ∈ listed := fun path => by simp [removalCommit]
  refine ⟨?_, ?_, ?_, ?_, ?_, ?_⟩
  · intro c hc row hrepo hpath
    obtain ⟨path, hlisted, rfl⟩ := List.mem_map.mp hc
    constructor
    · intro hrow
      have hkept := of_decide_eq_false (UniqueTable.mem_delete.mp hrow).2
      exact absurd ⟨hrepo, hpath ▸ hsub path hlisted⟩ hkept
    · rintro ⟨d, hd, -⟩
      cases hd
  · intro c hc r
    obtain ⟨path, -, rfl⟩ := List.mem_map.mp hc
    exact Iff.rfl
  · intro c hc r
    obtain ⟨path, hlisted, rfl⟩ := List.mem_map.mp hc
    refine iff_of_false List.not_mem_nil fun hr => ?_
    obtain ⟨row, hrow, hrepo, hpath, -⟩ := mem_queryCurrentArtefactsForPath.mp hr
    have hkept := of_decide_eq_false (UniqueTable.mem_delete.mp hrow).2
    exact hkept ⟨hrepo, hpath ▸ hsub path hlisted⟩
  · intro c hc
    obtain ⟨path, -, rfl⟩ := List.mem_map.mp hc
    exact ⟨nodup_queryCurrentArtefactsForPath, List.nodup_nil⟩
  · intro row hnot
    rw [hmem] at hnot
    refine UniqueTable.mem_delete.trans (and_iff_left_of_imp fun hrow => ?_)
    exact decide_eq_false fun h => hnot ⟨h.1, hfiles row hrow h.1 h.2⟩
  · intro row hnot
    rw [hmem] at hnot
    refine UniqueTable.mem_delete.trans (and_iff_left_of_imp fun hrow => ?_)
    exact decide_eq_false fun h => hnot ⟨h.1, hartefacts row hrow h.1 h.2⟩

/-- Persisting an item. -/
theorem Tracked.persist {item : PreparedSyncItem}
    (h : persistPreparedMaterialisationTx repoId item.desired item.preparedRows
      input.parserVersion input.extractorVersion s = some s') :
    Tracked repoId input s s'
      [{ path := item.desired.path
         desired := some item.desired
         pre := queryCurrentArtefactsForPath repoId item.desired.path s.artefacts
         post := queryCurrentArtefactsForPath repoId item.desired.path s'.artefacts }] := by
  obtain ⟨hfiles, hartefacts⟩ := persistPreparedMaterialisationTx_cases h
  have hkey : ∀ row : CurrentFileStateRow, row.key =
      (currentFileStateRow repoId item.desired input.parserVersion input.extractorVersion).key ↔
        row.repoId = repoId ∧ row.path = item.desired.path := fun row => Prod.mk.injEq _ _ _ _ ▸ Iff.rfl
  refine ⟨?_, ?_, ?_, ?_, ?_, ?_⟩
  · intro c hc row hrepo hpath
    obtain rfl := List.mem_singleton.mp hc
    rw [hfiles, UniqueTable.mem_upsert]
    constructor
    · rintro (hrow | ⟨-, hne⟩)
      · exact ⟨item.desired, rfl, hrow⟩
      · exact absurd ((hkey row).mpr ⟨hrepo, hpath⟩) hne
    · rintro ⟨d, hd, hrow⟩
      obtain rfl := Option.some.inj hd
      exact .inl hrow
  · intro c hc r
    obtain rfl := List.mem_singleton.mp hc
    exact Iff.rfl
  · intro c hc r
    obtain rfl := List.mem_singleton.mp hc
    exact Iff.rfl
  · intro c hc
    obtain rfl := List.mem_singleton.mp hc
    exact ⟨nodup_queryCurrentArtefactsForPath, nodup_queryCurrentArtefactsForPath⟩
  · intro row hnot
    rw [List.map_cons, List.map_nil, List.mem_singleton] at hnot
    rw [hfiles, UniqueTable.mem_upsert]
    constructor
    · rintro (rfl | ⟨hrow, -⟩)
      · exact absurd ⟨rfl, rfl⟩ hnot
      · exact hrow
    · exact fun hrow => .inr ⟨hrow, fun heq => hnot ((hkey row).mp heq)⟩
  · intro row hnot
    rw [List.map_cons, List.map_nil, List.mem_singleton] at hnot
    exact hartefacts row hnot

/-- Committing the items of a batch, after the commits of the outcome. -/
theorem Tracked.materialiseItems {items : List PreparedSyncItem}
    {outcome outcome' : WriterCommitOutcome}
    (h : Tracked repoId input base outcome.store outcome.commits)
    (hnodup : (outcome.commits.map (·.path) ++ items.map (·.desired.path)).Nodup)
    (hitems : materialiseItems repoId input items outcome = some outcome') :
    Tracked repoId input base outcome'.store outcome'.commits := by
  induction items generalizing outcome with
  | nil =>
    cases hitems
    exact h
  | cons item items ih =>
    rw [Sync.materialiseItems, Option.bind_eq_some_iff] at hitems
    obtain ⟨next, hitem, hrest⟩ := hitems
    obtain ⟨store, hpersist, rfl⟩ := materialiseItem_cases hitem
    refine ih (h.trans (Tracked.persist hpersist) ?_) ?_ hrest
    · intro c hc c' hc' heq
      obtain rfl := List.mem_singleton.mp hc'
      have hnew := (List.nodup_append.mp hnodup).2.2 c.path (List.mem_map_of_mem hc)
        item.desired.path List.mem_cons_self
      exact hnew heq
    · simpa [List.map_append, List.append_assoc] using hnodup

/-- What the writer reports is what it committed. -/
theorem artefacts_materialiseItems {items : List PreparedSyncItem}
    {outcome outcome' : WriterCommitOutcome}
    (hpre : outcome.preArtefacts = outcome.commits.flatMap (·.pre))
    (hpost : outcome.postArtefacts = outcome.commits.flatMap (·.post))
    (hitems : materialiseItems repoId input items outcome = some outcome') :
    outcome'.preArtefacts = outcome'.commits.flatMap (·.pre) ∧
      outcome'.postArtefacts = outcome'.commits.flatMap (·.post) := by
  induction items generalizing outcome with
  | nil =>
    cases hitems
    exact ⟨hpre, hpost⟩
  | cons item items ih =>
    rw [materialiseItems, Option.bind_eq_some_iff] at hitems
    obtain ⟨next, hitem, hrest⟩ := hitems
    obtain ⟨store, -, rfl⟩ := materialiseItem_cases hitem
    refine ih ?_ ?_ hrest
    · simp [hpre]
    · simp [hpost]

end Tracking

/-! ## The invariant -/

/-- The file diff shows the path with its desired state, or as removed. -/
def FileShown (diff : SyncFileDiff) (path : String) : Option DesiredFileState → Prop
  | none => ({ path } : RemovedFile) ∈ diff.removed
  | some desired =>
    ({ path, language := desired.language, contentId := desired.effectiveContentId } :
      ChangedFile) ∈ diff.added ++ diff.changed

instance (diff : SyncFileDiff) (path : String) : DecidablePred (FileShown diff path)
  | none => inferInstanceAs (Decidable (_ ∈ diff.removed))
  | some _ => inferInstanceAs (Decidable (_ ∈ diff.added ++ diff.changed))

/-- The sync `run` started in the store `base` and has come to the store `s`. -/
structure RunInvariant (repoId : String) (input : SyncInput) (base s : Store) (run : SyncRun) :
    Prop where
  nodup : (run.planned.map Prod.fst).Nodup
  shown : ∀ path desired, (path, desired) ∈ run.planned →
    FileShown run.diffCollector.fileDiff path desired
  tracked : Tracked repoId input base s run.commits
  collectedPre : ∀ path, artefactsAt run.diffCollector.preArtefacts path =
    (run.commits.flatMap (·.pre)).filter (·.path = path)
  collectedPost : ∀ path, artefactsAt run.diffCollector.postArtefacts path =
    (run.commits.flatMap (·.post)).filter (·.path = path)

section Invariant

variable {repoId : String} {input : SyncInput} {base s s' : Store} {run run' : SyncRun}

/-- Classifying a path shows it in the file diff, and classifying another one keeps it there. -/
theorem fileShown_recordClassified {c : ClassifiedPath} {collector : SyncDiffCollector}
    {path : String} {desired : Option DesiredFileState}
    (h : FileShown collector.fileDiff path desired ∨
      (c.path = path ∧ c.desired = desired ∧ c.action ≠ .unchanged ∧ c.Consistent)) :
    FileShown (recordClassified collector c).fileDiff path desired := by
  obtain ⟨p, action, state⟩ := c
  rcases h with h | ⟨rfl, rfl, haction, hconsistent⟩
  · cases action <;> cases state <;> cases desired <;>
      simp_all [recordClassified, FileShown, SyncDiffCollector.recordFileAdded,
        SyncDiffCollector.recordFileChanged, SyncDiffCollector.recordFileRemoved] <;> tauto
  · cases action with
    | unchanged => exact absurd rfl haction
    | removed =>
      obtain rfl : state = none := hconsistent.removed rfl
      simp [recordClassified, FileShown, SyncDiffCollector.recordFileRemoved]
    | added =>
      obtain ⟨d, rfl, -⟩ := hconsistent.prepared (.inl rfl)
      simp [recordClassified, FileShown, SyncDiffCollector.recordFileAdded]
    | changed =>
      obtain ⟨d, rfl, -⟩ := hconsistent.prepared (.inr rfl)
      simp [recordClassified, FileShown, SyncDiffCollector.recordFileChanged]

theorem fileShown_foldl_recordClassified {classified : List ClassifiedPath}
    {collector : SyncDiffCollector} {path : String} {desired : Option DesiredFileState}
    (h : FileShown collector.fileDiff path desired ∨
      ∃ c ∈ classified, c.path = path ∧ c.desired = desired ∧ c.action ≠ .unchanged ∧
        c.Consistent) :
    FileShown (classified.foldl recordClassified collector).fileDiff path desired := by
  induction classified generalizing collector with
  | nil =>
    rcases h with h | ⟨c, hc, -⟩
    · exact h
    · exact absurd hc List.not_mem_nil
  | cons c classified ih =>
    rw [List.foldl_cons]
    refine ih ?_
    rcases h with h | ⟨c', hc', h⟩
    · exact .inl (fileShown_recordClassified (.inl h))
    · rcases List.mem_cons.mp hc' with rfl | hc'
      · exact .inl (fileShown_recordClassified (.inr h))
      · exact .inr ⟨c', hc', h⟩

theorem artefacts_foldl_recordClassified {classified : List ClassifiedPath}
    {collector : SyncDiffCollector} :
    (classified.foldl recordClassified collector).preArtefacts = collector.preArtefacts ∧
      (classified.foldl recordClassified collector).postArtefacts = collector.postArtefacts := by
  induction classified generalizing collector with
  | nil => exact ⟨rfl, rfl⟩
  | cons c classified ih =>
    rw [List.foldl_cons, ih.1, ih.2]
    unfold recordClassified
    split <;> exact ⟨rfl, rfl⟩

/-- **A sync starts in the invariant.** -/
theorem runInvariant_startSync : RunInvariant repoId input s s (startSync repoId input s) := by
  refine ⟨nodup_planned_startSync, ?_, Tracked.refl, fun path => ?_, fun path => ?_⟩
  · intro path desired hplanned
    obtain ⟨hmode, c, hc, hpath, hdesired, haction⟩ := mem_planned_startSync.mp hplanned
    simp only [startSync, if_neg hmode]
    exact fileShown_foldl_recordClassified
      (.inr ⟨c, hc, hpath, hdesired, haction, consistent_of_mem_classifyPaths hc⟩)
  · simp [startSync, artefacts_foldl_recordClassified.1, SyncDiffCollector.new]
  · simp [startSync, artefacts_foldl_recordClassified.2, SyncDiffCollector.new]

theorem fileDiff_runStep {action : RunAction}
    (hstep : runStep repoId input (s, run) action = some (s', run')) :
    run'.diffCollector.fileDiff = run.diffCollector.fileDiff := by
  cases action with
  | removePaths =>
    rw [runStep] at hstep
    split_ifs at hstep
    cases hstep
    exact fileDiff_recordCommit
  | prepared path rows =>
    rw [runStep] at hstep
    split_ifs at hstep
    obtain ⟨next, hhandled, heq⟩ := Option.map_eq_some_iff.mp hstep
    cases heq
    obtain ⟨index, desired, -, -, rfl⟩ := handlePreparedOutcome_cases hhandled
    rfl
  | flush =>
    rw [runStep] at hstep
    split_ifs at hstep
    obtain ⟨outcome, -, -, rfl⟩ := flush_cases hstep
    exact fileDiff_recordCommit

/-- The paths of the commits and of the batch are different. -/
theorem nodup_commits_pendingBatch (hnodup : (run.planned.map Prod.fst).Nodup) :
    (run.commits.map (·.path) ++ run.pendingBatch.map (·.desired.path)).Nodup := by
  refine List.perm_append_comm.nodup_iff.mp (hnodup.sublist ?_)
  simp only [SyncRun.planned, List.map_append, List.map_map, List.append_assoc]
  exact (List.sublist_append_right _ _).trans (List.sublist_append_right _ _)

theorem RunInvariant.removePaths (h : RunInvariant repoId input base s run) :
    let next := removePaths repoId s run
    Tracked repoId input base next.1 next.2.commits ∧
      (∀ path, artefactsAt next.2.diffCollector.preArtefacts path =
        (next.2.commits.flatMap (·.pre)).filter (·.path = path)) ∧
      ∀ path, artefactsAt next.2.diffCollector.postArtefacts path =
        (next.2.commits.flatMap (·.post)).filter (·.path = path) := by
  refine ⟨h.tracked.trans (Tracked.removePathsTx (fun _ hpath => hpath) (fun _ _ _ hpath => hpath)
    (fun _ _ _ hpath => hpath)) ?_, fun path => ?_, fun path => ?_⟩
  · intro c hc c' hc' heq
    obtain ⟨path, hpath, rfl⟩ := List.mem_map.mp hc'
    have hnodup := h.nodup
    simp only [SyncRun.planned, List.map_append, List.map_map, List.append_assoc] at hnodup
    refine (List.nodup_append.mp hnodup).2.2 path (List.mem_map.mpr ⟨path, hpath, rfl⟩) c.path ?_
      heq.symm
    exact List.mem_append_right _ (List.mem_append_right _ (List.mem_map.mpr ⟨c, hc, rfl⟩))
  · rw [Sync.removePaths, artefactsAt_pre_recordCommit, h.collectedPre, List.flatMap_append,
      List.filter_append]
  · have hnone : (run.removals.map (removalCommit repoId s.artefacts)).flatMap (·.post) = [] := by
      simp [removalCommit]
    rw [Sync.removePaths, artefactsAt_post_recordCommit, h.collectedPost, List.flatMap_append,
      hnone, List.filter_nil, List.append_nil, List.append_nil]

theorem RunInvariant.flush (h : RunInvariant repoId input base s run)
    (hflush : flush repoId input s run = some (s', run')) :
    Tracked repoId input base s' run'.commits ∧
      (∀ path, artefactsAt run'.diffCollector.preArtefacts path =
        (run'.commits.flatMap (·.pre)).filter (·.path = path)) ∧
      ∀ path, artefactsAt run'.diffCollector.postArtefacts path =
        (run'.commits.flatMap (·.post)).filter (·.path = path) := by
  obtain ⟨outcome, hitems, rfl, rfl⟩ := flush_cases hflush
  have hperm : (run.commits.map (·.path) ++
      (orderBy (·.index) run.pendingBatch).map (·.desired.path)).Nodup :=
    (((perm_orderBy _ _).map _).append_left _).nodup_iff.mpr (nodup_commits_pendingBatch h.nodup)
  have hempty : (([] : List PathCommit).map (·.path) ++
      (orderBy (·.index) run.pendingBatch).map (·.desired.path)).Nodup :=
    (List.nodup_append.mp hperm).2.1
  have hbatch : Tracked repoId input s outcome.store outcome.commits :=
    Tracked.materialiseItems Tracked.refl hempty hitems
  obtain ⟨hpre, hpost⟩ := artefacts_materialiseItems rfl rfl hitems
  refine ⟨h.tracked.trans hbatch ?_, fun path => ?_, fun path => ?_⟩
  · intro c hc c' hc' heq
    have hcommits := planned_materialiseItems hitems
    rw [List.map_nil, List.nil_append] at hcommits
    have hmem : (c'.path, c'.desired) ∈ (orderBy (·.index) run.pendingBatch).map fun item =>
        (item.desired.path, some item.desired) :=
      hcommits ▸ List.mem_map.mpr ⟨c', hc', rfl⟩
    obtain ⟨item, hitem, hpath⟩ := List.mem_map.mp hmem
    obtain ⟨hpath, -⟩ := Prod.mk.inj hpath
    exact (List.nodup_append.mp hperm).2.2 c.path (List.mem_map_of_mem hc) c'.path
      (hpath ▸ List.mem_map_of_mem hitem) heq
  · rw [artefactsAt_pre_recordCommit, h.collectedPre, hpre, List.flatMap_append,
      List.filter_append]
  · rw [artefactsAt_post_recordCommit, h.collectedPost, hpost, List.flatMap_append,
      List.filter_append]

/-- **Every operation of a sync keeps the invariant.** -/
theorem RunInvariant.runStep {action : RunAction} (h : RunInvariant repoId input base s run)
    (hstep : runStep repoId input (s, run) action = some (s', run')) :
    RunInvariant repoId input base s' run' := by
  have hshown : ∀ path desired, (path, desired) ∈ run'.planned →
      FileShown run'.diffCollector.fileDiff path desired := by
    intro path desired hplanned
    rw [fileDiff_runStep hstep]
    exact h.shown path desired ((planned_runStep h.nodup hstep).1.subset hplanned)
  have hnodup := nodup_planned_runStep h.nodup hstep
  cases action with
  | removePaths =>
    rw [Sync.runStep] at hstep
    split_ifs at hstep
    obtain ⟨htracked, hpre, hpost⟩ := h.removePaths
    cases hstep
    exact ⟨hnodup, hshown, htracked, hpre, hpost⟩
  | prepared path rows =>
    rw [Sync.runStep] at hstep
    split_ifs at hstep
    obtain ⟨next, hhandled, heq⟩ := Option.map_eq_some_iff.mp hstep
    cases heq
    obtain ⟨index, desired, -, -, rfl⟩ := handlePreparedOutcome_cases hhandled
    exact ⟨hnodup, hshown, h.tracked, h.collectedPre, h.collectedPost⟩
  | flush =>
    rw [Sync.runStep] at hstep
    split_ifs at hstep
    obtain ⟨htracked, hpre, hpost⟩ := h.flush hstep
    exact ⟨hnodup, hshown, htracked, hpre, hpost⟩

end Invariant

end Sync
end Bitloops
