import Bitloops.Sync.ManifestReference

/-!
# The manifest and the three trees

What the workspace state says about a path is a function of the path's entries in the three
trees, and so is the state that the manifest holds.  Two filters drop a change: the listing of
staged changes leaves out a change of type, and the dirty paths leave out symbolic links.  For
every path without such a change the manifest holds what the worktree has.
-/

namespace Bitloops
namespace Sync

/-! ## What git reports -/

namespace Repository

variable (repo : Repository)

/-- The tree of HEAD, empty before the first commit. -/
def headTree : Tree := repo.head.getD UniqueTable.empty

def headEntry (path : String) : Option TreeEntry := entryAt repo.headTree path
def indexEntry (path : String) : Option TreeEntry := entryAt repo.index path
def worktreeEntry (path : String) : Option TreeEntry := entryAt repo.worktree path

/-- A tracked path that the worktree has otherwise or not at all. -/
def reportedDirty (path : String) : Bool :=
  (repo.indexEntry path).isSome && repo.worktreeEntry path ≠ repo.indexEntry path

/-- A path of HEAD that the index does not have. -/
def reportedDeleted (path : String) : Bool :=
  (repo.headEntry path).isSome && (repo.indexEntry path).isNone

/-- The paths that the manifest is about: those that are classified, unless they are untracked
and excluded. -/
def inScope (scope : String → Option ResolvedFileClassification) (path : String) : Bool :=
  (scope path).isSome &&
    ((repo.headEntry path).isSome || (repo.indexEntry path).isSome || !repo.ignored path)

/-- No path of HEAD or of the index leads through an entry of the worktree. -/
def Unobstructed : Prop :=
  ∀ path, repo.headEntry path ≠ none ∨ repo.indexEntry path ≠ none →
    repo.worktreeEntry path = none →
    ∀ ancestor, Below path ancestor → repo.worktreeEntry ancestor = none

/-- No path of the index or of the worktree begins with white space. -/
def NoLeadingSpace : Prop :=
  ∀ path, repo.indexEntry path ≠ none ∨ repo.worktreeEntry path ≠ none →
    ∀ c ∈ path.toList.head?, Daemon.isWhitespace c = false

end Repository

/-! ## Listings of the worktree -/

theorem TreeEntry.fileType_of_isFile {entry : TreeEntry} (h : entry.mode.isFile = true) :
    entry.fileType = .file entry.oid := by
  rw [TreeEntry.fileType]
  cases hmode : entry.mode <;> rw [hmode] at h <;> first | rfl | cases h

/-- What `collect_paths` leaves out. -/
def isSkipped (fs : FileSystem) (requireExistingFile : Bool) (path : String) : Bool :=
  match fs path with
  | .ok .symlink => true
  | .ok .dir => requireExistingFile
  | _ => false

theorem keptPaths_eq_ok {fs : FileSystem} {requireExistingFile : Bool} {paths : List String}
    (hfs : ∀ path ∈ paths, fs path ≠ .error .other) :
    keptPaths fs requireExistingFile paths =
      .ok (paths.filter fun path => !isSkipped fs requireExistingFile path) := by
  induction paths with
  | nil => rfl
  | cons path paths ih =>
    have hskip : shouldSkipWorkspacePath fs path requireExistingFile =
        .ok (isSkipped fs requireExistingFile path) := by
      have hpath := hfs path List.mem_cons_self
      unfold shouldSkipWorkspacePath isSkipped
      split <;> simp_all
    rw [keptPaths, hskip, ih fun p hp => hfs p (List.mem_cons_of_mem _ hp)]
    cases hskipped : isSkipped fs requireExistingFile path <;>
      simp [hskipped, bind, Except.bind, pure, Except.pure]

theorem collectPaths_eq_ok {fs : FileSystem} {output : List Char} (requireExistingFile : Bool)
    (hfs : ∀ path ∈ (records output).map String.ofList, fs path ≠ .error .other) :
    ∃ paths, collectPaths fs output requireExistingFile = .ok paths ∧
      ∀ path, path ∈ paths ↔ path ∈ (records output).map String.ofList ∧
        isSkipped fs requireExistingFile path = false := by
  refine ⟨_, by rw [collectPaths, keptPaths_eq_ok hfs]; rfl, fun path => ?_⟩
  rw [mem_sortDedup, List.mem_filter, Bool.not_eq_true']

/-- The paths of a listing of rows. -/
theorem records_paths (rows : List TreeRow) (suffix : TreeRow → List Char)
    (hsuffix : ∀ row ∈ rows, NulFree (suffix row))
    (hstart : ∀ row ∈ rows, ∀ c ∈ row.path.toList.head?, Daemon.isWhitespace c = false) :
    records (trimOutput (rows.flatMap fun row => row.path.toList ++ suffix row ++ [nul])) =
      rows.map fun row => row.path.toList ++ suffix row := by
  have houtput : (rows.flatMap fun row => row.path.toList ++ suffix row ++ [nul]) =
      (rows.map fun row => row.path.toList ++ suffix row).flatMap fun text => text ++ [nul] := by
    rw [List.flatMap_map]
  rw [houtput]
  refine records_output ?_ ?_
  · intro text htext
    obtain ⟨row, hrow, rfl⟩ := List.mem_map.mp htext
    exact ⟨by simp [row.path_nonempty],
      nulFree_append.mpr ⟨nulFree_path row, hsuffix row hrow⟩⟩
  · intro text htext
    obtain ⟨row, hrow, rfl⟩ := List.mem_map.mp (List.mem_of_mem_head? htext)
    intro c hc
    rw [List.head?_append_of_ne_nil _ row.path_nonempty] at hc
    exact hstart row hrow c hc

namespace Repository

variable {repo : Repository}

theorem fs_ne_other (hclear : repo.Unobstructed) {path : String}
    (hpath : repo.headEntry path ≠ none ∨ repo.indexEntry path ≠ none ∨
      repo.worktreeEntry path ≠ none) : repo.fs path ≠ .error .other := by
  cases hentry : repo.worktreeEntry path with
  | some entry =>
    rw [repo.fs_entry path entry hentry]
    exact fun h => nomatch h
  | none =>
    have hnamed : repo.headEntry path ≠ none ∨ repo.indexEntry path ≠ none := by
      rcases hpath with h | h | h
      · exact .inl h
      · exact .inr h
      · exact absurd hentry h
    rcases repo.fs_missing path hentry (hclear path hnamed hentry) with hfs | hfs <;>
      rw [hfs] <;> exact fun h => nomatch h

/-- Of the paths that git names, symbolic links are skipped in each listing. -/
theorem isSkipped_eq_false (hclear : repo.Unobstructed) {path : String}
    (hpath : repo.headEntry path ≠ none ∨ repo.indexEntry path ≠ none) :
    isSkipped repo.fs false path = false ↔
      ∀ entry, repo.worktreeEntry path = some entry → entry.mode ≠ .symlink := by
  cases hentry : repo.worktreeEntry path with
  | some entry =>
    rw [isSkipped, repo.fs_entry path entry hentry]
    obtain ⟨mode, oid⟩ := entry
    cases mode <;> simp [TreeEntry.fileType]
  | none =>
    have hfs := repo.fs_missing path hentry (hclear path hpath hentry)
    refine iff_of_true ?_ fun entry h => nomatch h
    rw [isSkipped]
    rcases hfs with hfs | hfs <;> rw [hfs]

/-- The dirty paths of the workspace state: those reported, without symbolic links. -/
theorem dirtyFiles_eq_ok (hclear : repo.Unobstructed) (hspace : repo.NoLeadingSpace) :
    ∃ paths, collectPaths repo.fs (trimOutput (diffOutput repo.index repo.worktree)) false =
        .ok paths ∧
      ∀ path, path ∈ paths ↔ repo.reportedDirty path = true ∧
        ∀ entry, repo.worktreeEntry path = some entry → entry.mode ≠ .symlink := by
  let rows := repo.index.rows.filter fun row => entryAt repo.worktree row.path ≠ some row.entry
  have hindex : ∀ row ∈ rows, repo.indexEntry row.path = some row.entry :=
    fun row hrow => entryAt_eq_some (List.mem_filter.mp hrow).1
  have hrecords : (records (trimOutput (diffOutput repo.index repo.worktree))).map String.ofList =
      rows.map (·.path) := by
    have hoffset : diffOutput repo.index repo.worktree =
        rows.flatMap fun row => row.path.toList ++ [] ++ [nul] := by
      simp only [List.append_nil]
      rfl
    rw [hoffset, records_paths rows (fun _ => []) (fun _ _ _ h => (by cases h))
      fun row hrow => hspace row.path (.inl (by simp [hindex row hrow])), List.map_map]
    exact List.map_congr_left fun row _ => by simp
  have hmem : ∀ path, path ∈ rows.map (·.path) ↔ repo.reportedDirty path = true := by
    intro path
    rw [reportedDirty, Bool.and_eq_true, decide_eq_true_eq]
    constructor
    · intro h
      obtain ⟨row, hrow, rfl⟩ := List.mem_map.mp h
      rw [hindex row hrow]
      exact ⟨rfl, by simpa [worktreeEntry] using (List.mem_filter.mp hrow).2⟩
    · rintro ⟨hsome, hne⟩
      obtain ⟨entry, hentry⟩ := Option.isSome_iff_exists.mp hsome
      obtain ⟨row, hfound, rfl⟩ := Option.map_eq_some_iff.mp hentry
      obtain ⟨hrow, rfl⟩ := UniqueTable.findRow_eq_some.mp hfound
      rw [hentry] at hne
      exact List.mem_map_of_mem (List.mem_filter.mpr ⟨hrow, by simpa [worktreeEntry] using hne⟩)
  have hfs : ∀ path ∈ (records (trimOutput (diffOutput repo.index repo.worktree))).map
      String.ofList, repo.fs path ≠ .error .other := by
    intro path hpath
    rw [hrecords] at hpath
    obtain ⟨row, hrow, rfl⟩ := List.mem_map.mp hpath
    exact fs_ne_other hclear (.inr (.inl (by simp [hindex row hrow])))
  obtain ⟨paths, hok, hpaths⟩ := collectPaths_eq_ok false hfs
  refine ⟨paths, hok, fun path => ?_⟩
  rw [hpaths, hrecords, hmem]
  refine and_congr_right fun hdirty => ?_
  have hnamed : repo.indexEntry path ≠ none := by
    rw [reportedDirty, Bool.and_eq_true] at hdirty
    exact Option.isSome_iff_ne_none.mp hdirty.1
  exact isSkipped_eq_false hclear (.inr hnamed)

/-- The untracked paths of the workspace state: regular files that are not excluded. -/
theorem untrackedFiles_eq_ok (hspace : repo.NoLeadingSpace) :
    ∃ paths, collectPaths repo.fs
        (trimOutput (lsFilesOthersOutput repo.index repo.worktree repo.ignored)) true =
        .ok paths ∧
      ∀ path, path ∈ paths ↔ repo.indexEntry path = none ∧ repo.ignored path = false ∧
        ∃ entry, repo.worktreeEntry path = some entry ∧ entry.mode.isFile = true := by
  let rows := repo.worktree.rows.filter fun row =>
    (entryAt repo.index row.path).isNone && !repo.ignored row.path
  let suffix (row : TreeRow) : List Char := if row.entry.mode = .gitlink then ['/'] else []
  have hworktree : ∀ row ∈ rows, repo.worktreeEntry row.path = some row.entry :=
    fun row hrow => entryAt_eq_some (List.mem_filter.mp hrow).1
  have hsuffix : ∀ row ∈ rows, NulFree (suffix row) := by
    intro row _
    dsimp only [suffix]
    split_ifs <;> unfold NulFree <;> decide
  have hrecords : (records (trimOutput (lsFilesOthersOutput repo.index repo.worktree
      repo.ignored))).map String.ofList =
        rows.map fun row => String.ofList (row.path.toList ++ suffix row) := by
    have houtput : lsFilesOthersOutput repo.index repo.worktree repo.ignored =
        rows.flatMap fun row => row.path.toList ++ suffix row ++ [nul] := rfl
    rw [houtput, records_paths rows suffix hsuffix
      fun row hrow => hspace row.path (.inr (by simp [hworktree row hrow])), List.map_map]
    rfl
  have hfile : ∀ row ∈ rows, row.entry.mode ≠ .gitlink →
      String.ofList (row.path.toList ++ suffix row) = row.path := by
    intro row _ hmode
    simp [suffix, hmode]
  have hrepository : ∀ row ∈ rows, row.entry.mode = .gitlink →
      repo.fs (String.ofList (row.path.toList ++ suffix row)) = .ok .dir := by
    intro row hrow hmode
    have htext : String.ofList (row.path.toList ++ suffix row) = row.path ++ "/" := by
      apply String.toList_injective
      simp [suffix, hmode]
    rw [htext]
    exact repo.fs_repository row.path row.entry (hworktree row hrow) hmode
  have hfs : ∀ path ∈ (records (trimOutput (lsFilesOthersOutput repo.index repo.worktree
      repo.ignored))).map String.ofList, repo.fs path ≠ .error .other := by
    intro path hpath
    rw [hrecords] at hpath
    obtain ⟨row, hrow, rfl⟩ := List.mem_map.mp hpath
    by_cases hmode : row.entry.mode = .gitlink
    · rw [hrepository row hrow hmode]
      exact fun h => nomatch h
    · rw [hfile row hrow hmode, repo.fs_entry _ _ (hworktree row hrow)]
      exact fun h => nomatch h
  obtain ⟨paths, hok, hpaths⟩ := collectPaths_eq_ok true hfs
  refine ⟨paths, hok, fun path => ?_⟩
  rw [hpaths, hrecords]
  constructor
  · rintro ⟨hpath, hkept⟩
    obtain ⟨row, hrow, rfl⟩ := List.mem_map.mp hpath
    have hrow' := (List.mem_filter.mp hrow).2
    rw [Bool.and_eq_true, Option.isNone_iff_eq_none, Bool.not_eq_true'] at hrow'
    by_cases hmode : row.entry.mode = .gitlink
    · rw [isSkipped, hrepository row hrow hmode] at hkept
      cases hkept
    · rw [hfile row hrow hmode] at hkept ⊢
      refine ⟨hrow'.1, hrow'.2, row.entry, hworktree row hrow, ?_⟩
      rw [isSkipped, repo.fs_entry _ _ (hworktree row hrow), TreeEntry.fileType] at hkept
      cases hkind : row.entry.mode <;> rw [hkind] at hkept <;> first | rfl | cases hkept
  · rintro ⟨hindex, hignored, entry, hentry, hmode⟩
    obtain ⟨row, hfound, rfl⟩ := Option.map_eq_some_iff.mp hentry
    obtain ⟨hmem, rfl⟩ := UniqueTable.findRow_eq_some.mp hfound
    have hrow : row ∈ rows := by
      refine List.mem_filter.mpr ⟨hmem, ?_⟩
      rw [Bool.and_eq_true, Option.isNone_iff_eq_none, Bool.not_eq_true']
      exact ⟨hindex, hignored⟩
    have hnot : row.entry.mode ≠ .gitlink := fun h => by rw [h] at hmode; cases hmode
    refine ⟨List.mem_map.mpr ⟨row, hrow, hfile row hrow hnot⟩, ?_⟩
    rw [isSkipped, repo.fs_entry _ _ hentry, TreeEntry.fileType_of_isFile hmode]

/-! ## The workspace state -/

/-- What the workspace state says about a path is what the trees say. -/
structure Reflects (repo : Repository) (workspace : WorkspaceState) : Prop where
  headTree : ∀ path, lookupLast path workspace.headTree = fileIdAt repo.headTree path
  stagedChanges : ∀ path, lookupLast path workspace.stagedChanges =
    stagedOf (repo.headEntry path) (repo.indexEntry path)
  dirtyFiles : ∀ path, path ∈ workspace.dirtyFiles ↔ repo.reportedDirty path = true ∧
    ∀ entry, repo.worktreeEntry path = some entry → entry.mode ≠ .symlink
  untrackedFiles : ∀ path, path ∈ workspace.untrackedFiles ↔
    repo.indexEntry path = none ∧ repo.ignored path = false ∧
      ∃ entry, repo.worktreeEntry path = some entry ∧ entry.mode.isFile = true

theorem inspectWorkspace_reflects (hclear : repo.Unobstructed) (hspace : repo.NoLeadingSpace) :
    ∃ workspace, inspectWorkspace repo = .ok workspace ∧ repo.Reflects workspace := by
  obtain ⟨dirty, hdirty, hdirtyFiles⟩ := dirtyFiles_eq_ok hclear hspace
  obtain ⟨untracked, huntracked, huntrackedFiles⟩ := untrackedFiles_eq_ok hspace
  refine ⟨_, by rw [inspectWorkspace, hdirty, huntracked]; rfl, ?_, ?_, hdirtyFiles,
    huntrackedFiles⟩
  · intro path
    cases hhead : repo.head with
    | none => simp [Repository.headTree, hhead, lookupLast, fileIdAt, entryAt, findRow]
    | some head =>
      simp only [Repository.headTree, hhead, Option.getD_some]
      exact lookupLast_readHeadTree head path
  · intro path
    cases hhead : repo.head with
    | none =>
      have hentry : repo.headEntry path = none := by
        simp [headEntry, Repository.headTree, hhead, entryAt, findRow]
      rw [hentry]
      exact lookupLast_lsFilesStageOutput repo.index path
    | some head =>
      have hentry : repo.headEntry path = entryAt head path := by
        simp [headEntry, Repository.headTree, hhead]
      rw [hentry]
      exact lookupLast_diffIndexOutput head repo.index path

/-! ## The reference -/

/-- The first of HEAD, the index and the worktree that has the content. -/
def firstLayerWith (headId indexId : Option String) (contentId : String) : EffectiveSource :=
  if headId = some contentId then .head
  else if indexId = some contentId then .index
  else .worktree

/-- The topmost layer that changed the content: the worktree if the index has another content,
else the index if HEAD has another one. -/
def topmostChange (headId indexId : Option String) (contentId : String) : EffectiveSource :=
  if indexId = some contentId then
    if headId = some contentId then .head else .index
  else .worktree

/-- What the manifest is to hold for a path: the regular file of the worktree or, if git reports
the path neither dirty nor deleted, of the index. -/
def reference (repo : Repository)
    (source : Option String → Option String → String → EffectiveSource) (path : String) :
    Option (String × EffectiveSource) :=
  let contentId :=
    match fileIdAt repo.worktree path with
    | some contentId => some contentId
    | none =>
      if repo.reportedDirty path || repo.reportedDeleted path then none
      else fileIdAt repo.index path
  contentId.map fun contentId =>
    (contentId, source (fileIdAt repo.headTree path) (fileIdAt repo.index path) contentId)

/-- A path that is reported neither dirty nor deleted is in the worktree as in the index. -/
theorem reference_eq (source : Option String → Option String → String → EffectiveSource)
    (path : String) :
    repo.reference source path = (fileIdAt repo.worktree path).map fun contentId =>
      (contentId, source (fileIdAt repo.headTree path) (fileIdAt repo.index path) contentId) := by
  rw [reference]
  cases hfile : fileIdAt repo.worktree path with
  | some contentId => rfl
  | none =>
    dsimp only
    split_ifs with hreported
    · rfl
    · rw [Bool.or_eq_true, not_or, reportedDirty, Bool.and_eq_true] at hreported
      cases hindex : repo.indexEntry path with
      | none =>
        have hnone : fileIdAt repo.index path = none := by
          rw [fileIdAt, show entryAt repo.index path = none from hindex]
          rfl
        rw [hnone]
      | some entry =>
        have hsame : repo.worktreeEntry path = repo.indexEntry path := by
          by_cases h : repo.worktreeEntry path = repo.indexEntry path
          · exact h
          · exact absurd ⟨by rw [hindex]; rfl, decide_eq_true h⟩ hreported.1
        have hnone : fileIdAt repo.index path = none := by
          rw [fileIdAt, show entryAt repo.index path = entryAt repo.worktree path from hsame.symm]
          exact hfile
        rw [hnone]

/-- A change that a filter drops: a staged change between a regular file and a link, or a
symbolic link in the place of the index's regular file. -/
def droppedChange (repo : Repository) (path : String) : Bool :=
  match repo.headEntry path, repo.indexEntry path, repo.worktreeEntry path with
  | some headEntry, some indexEntry, some worktreeEntry =>
    headEntry.mode.isFile != indexEntry.mode.isFile ||
      (indexEntry.mode.isFile && decide (worktreeEntry.mode = .symlink))
  | some headEntry, some indexEntry, none => headEntry.mode.isFile != indexEntry.mode.isFile
  | none, some indexEntry, some worktreeEntry =>
    indexEntry.mode.isFile && decide (worktreeEntry.mode = .symlink)
  | _, _, _ => false

/-- Without a staged change of type the content of the index is known. -/
theorem indexContent_stagedOf {headEntry indexEntry : Option TreeEntry}
    (htype : ∀ before ∈ headEntry, ∀ after ∈ indexEntry, before.mode.isFile = after.mode.isFile) :
    indexContent (headEntry.bind TreeEntry.fileId) (stagedOf headEntry indexEntry) =
      indexEntry.bind TreeEntry.fileId := by
  cases headEntry with
  | none =>
    cases indexEntry with
    | none => rfl
    | some after =>
      simp only [stagedOf, changeStatus, Option.bind_some, Option.bind_none]
      cases after.fileId <;> rfl
  | some before =>
    cases indexEntry with
    | none => rfl
    | some after =>
      have hfile := htype before rfl after rfl
      simp only [stagedOf, changeStatus, Option.bind_some]
      by_cases hsame : before = after
      · rw [if_pos hsame, hsame]
        rfl
      · rw [if_neg hsame]
        by_cases hkind : before.mode.sameType after.mode = true
        · rw [if_pos hkind]
          cases hafter : after.fileId with
          | some contentId => rfl
          | none =>
            have hlink : after.mode.isFile = false := by
              rw [TreeEntry.fileId] at hafter
              split_ifs at hafter with h
              exact Bool.eq_false_iff.mpr h
            simp [indexContent, TreeEntry.fileId, hfile, hlink]
        · rw [if_neg hkind]
          -- two links of different types: neither is a regular file
          obtain ⟨beforeMode, beforeOid⟩ := before
          obtain ⟨afterMode, afterOid⟩ := after
          cases beforeMode <;> cases afterMode <;>
            simp_all [EntryMode.sameType, EntryMode.isFile, indexContent, TreeEntry.fileId]

/-! ## The state of a path -/

theorem readWorktreeContentId_eq_ok (hclear : repo.Unobstructed) {path : String}
    (hpath : repo.headEntry path ≠ none ∨ repo.indexEntry path ≠ none ∨
      repo.worktreeEntry path ≠ none)
    (needsDiskRead : Bool) (indexContentId : Option String) :
    readWorktreeContentId repo.fs path needsDiskRead indexContentId =
      .ok ((fileIdAt repo.worktree path).map fun contentId =>
        if needsDiskRead then contentId else indexContentId.getD contentId) := by
  rw [readWorktreeContentId, fileIdAt]
  cases hentry : entryAt repo.worktree path with
  | some entry =>
    rw [repo.fs_entry path entry hentry, TreeEntry.fileType, Option.bind_some, TreeEntry.fileId]
    cases hmode : entry.mode <;> cases needsDiskRead <;> cases indexContentId <;> rfl
  | none =>
    have hnamed : repo.headEntry path ≠ none ∨ repo.indexEntry path ≠ none := by
      rcases hpath with h | h | h
      · exact .inl h
      · exact .inr h
      · exact absurd hentry h
    rcases repo.fs_missing path hentry (hclear path hnamed hentry) with hfs | hfs <;> rw [hfs] <;> rfl

/-- What the manifest holds for a candidate, from the content identifiers and what is reported. -/
def outcome (headId indexId diskId : Option String) (dirty untracked deleted : Bool) :
    Option (String × EffectiveSource) :=
  let worktreeId := diskId.map fun contentId =>
    if dirty || untracked then contentId else indexId.getD contentId
  if worktreeId.isNone && (dirty || deleted) then none
  else effectiveContent headId indexId worktreeId

theorem buildDesiredFileState_eq_ok (hclear : repo.Unobstructed) (workspace : WorkspaceState)
    {path : String} (classification : ResolvedFileClassification)
    (hpath : repo.headEntry path ≠ none ∨ repo.indexEntry path ≠ none ∨
      repo.worktreeEntry path ≠ none) :
    ∃ state, buildDesiredFileState path classification workspace repo.fs = .ok state ∧
      (∀ s ∈ state, s.path = path) ∧
      state.map (fun s => (s.effectiveContentId, s.effectiveSource)) =
        outcome (lookupLast path workspace.headTree)
          (indexContent (lookupLast path workspace.headTree)
            (lookupLast path workspace.stagedChanges))
          (fileIdAt repo.worktree path) (decide (path ∈ workspace.dirtyFiles))
          (decide (path ∈ workspace.untrackedFiles))
          (decide (lookupLast path workspace.stagedChanges = some .deleted)) := by
  have hread := readWorktreeContentId_eq_ok hclear hpath
  unfold buildDesiredFileState outcome
  simp only [hread, bind, Except.bind, pure, Except.pure]
  generalize (fileIdAt repo.worktree path).map _ = worktreeId
  split_ifs with hdeleted
  · exact ⟨none, rfl, fun s hs => (nomatch hs), rfl⟩
  · refine ⟨_, rfl, ?_, ?_⟩
    · intro s hs
      obtain ⟨content, -, rfl⟩ := Option.map_eq_some_iff.mp hs
      rfl
    · rw [Option.map_map]
      exact Option.map_id'

theorem effectiveContent_worktree (headId indexId : Option String) (contentId : String) :
    effectiveContent headId indexId (some contentId) =
      some (contentId, topmostChange headId indexId contentId) := by
  rw [topmostChange]
  by_cases hindex : indexId = some contentId
  · subst hindex
    simp [effectiveContent]
  · simp [effectiveContent, hindex]

/-- Nothing is dropped: the entries of HEAD and the index agree in kind, and a regular file of
the index is not a symbolic link in the worktree. -/
theorem of_droppedChange_eq_false {path : String} (h : repo.droppedChange path = false) :
    (∀ before ∈ repo.headEntry path, ∀ after ∈ repo.indexEntry path,
        before.mode.isFile = after.mode.isFile) ∧
      ∀ after ∈ repo.indexEntry path, after.mode.isFile = true →
        ∀ entry, repo.worktreeEntry path = some entry → entry.mode ≠ .symlink := by
  unfold droppedChange at h
  cases hhead : repo.headEntry path <;> cases hindex : repo.indexEntry path <;>
    cases hworktree : repo.worktreeEntry path <;> simp_all

theorem outcome_eq_reference {workspace : WorkspaceState} (hws : repo.Reflects workspace)
    {path : String} (hkept : repo.droppedChange path = false) :
    outcome (lookupLast path workspace.headTree)
        (indexContent (lookupLast path workspace.headTree)
          (lookupLast path workspace.stagedChanges))
        (fileIdAt repo.worktree path) (decide (path ∈ workspace.dirtyFiles))
        (decide (path ∈ workspace.untrackedFiles))
        (decide (lookupLast path workspace.stagedChanges = some .deleted)) =
      repo.reference topmostChange path := by
  obtain ⟨htype, hlink⟩ := of_droppedChange_eq_false hkept
  have hindexId : indexContent (fileIdAt repo.headTree path)
      (stagedOf (repo.headEntry path) (repo.indexEntry path)) = fileIdAt repo.index path :=
    indexContent_stagedOf htype
  rw [hws.headTree, hws.stagedChanges, hindexId, reference_eq, outcome]
  cases hfile : fileIdAt repo.worktree path with
  | some contentId =>
    obtain ⟨entry, hentry, hfileId⟩ := Option.bind_eq_some_iff.mp hfile
    have hmode : entry.mode.isFile = true := by
      rw [TreeEntry.fileId] at hfileId
      split_ifs at hfileId with h
      exact h
    have hread : (if decide (path ∈ workspace.dirtyFiles) ||
        decide (path ∈ workspace.untrackedFiles) then contentId
        else (fileIdAt repo.index path).getD contentId) = contentId := by
      split_ifs with hreported
      · rfl
      · rw [Bool.or_eq_true, not_or, decide_eq_true_eq, hws.dirtyFiles] at hreported
        cases hindex : repo.indexEntry path with
        | none =>
          rw [fileIdAt, show entryAt repo.index path = none from hindex]
          rfl
        | some indexEntry =>
          -- the path is not dirty, so the index has the same entry
          have hsame : repo.worktreeEntry path = repo.indexEntry path := by
            by_cases hne : repo.worktreeEntry path = repo.indexEntry path
            · exact hne
            · refine absurd ⟨?_, fun e he => ?_⟩ hreported.1
              · rw [reportedDirty, hindex]
                simpa [hindex] using hne
              · obtain rfl := Option.some.inj (hentry.symm.trans he)
                intro hsymlink
                rw [hsymlink] at hmode
                cases hmode
          have hid : fileIdAt repo.index path = some contentId := by
            rw [fileIdAt, show entryAt repo.index path = entryAt repo.worktree path from hsame.symm]
            exact hfile
          rw [hid]
          rfl
    simp only [Option.map_some, hread, Option.isNone_some, Bool.false_and, Bool.false_eq_true,
      if_false, effectiveContent_worktree]
  | none =>
    simp only [Option.map_none, Option.isNone_none, Bool.true_and]
    split_ifs with hgone
    · rfl
    · rw [Bool.or_eq_true, not_or, decide_eq_true_eq, hws.dirtyFiles] at hgone
      have hindexId : fileIdAt repo.index path = none := by
        cases hindex : repo.indexEntry path with
        | none =>
          rw [fileIdAt, show entryAt repo.index path = none from hindex]
          rfl
        | some indexEntry =>
          rw [fileIdAt, show entryAt repo.index path = some indexEntry from hindex,
            Option.bind_some, TreeEntry.fileId]
          split_ifs with hmode
          · -- a regular file that the worktree has not is reported as dirty
            refine absurd ⟨?_, hlink indexEntry hindex hmode⟩ hgone.1
            rw [reportedDirty, hindex, Bool.and_eq_true]
            refine ⟨rfl, decide_eq_true fun hsame => ?_⟩
            rw [fileIdAt, show entryAt repo.worktree path = some indexEntry from hsame,
              Option.bind_some, TreeEntry.fileId, if_pos hmode] at hfile
            cases hfile
          · rfl
      have hheadId : fileIdAt repo.headTree path = none := by
        cases hhead : repo.headEntry path with
        | none =>
          rw [fileIdAt, show entryAt repo.headTree path = none from hhead]
          rfl
        | some headEntry =>
          cases hindex : repo.indexEntry path with
          | none =>
            rw [hhead, hindex] at hgone
            exact absurd (decide_eq_true rfl) hgone.2
          | some indexEntry =>
            have hmode := htype headEntry hhead indexEntry hindex
            rw [fileIdAt, show entryAt repo.index path = some indexEntry from hindex,
              Option.bind_some, TreeEntry.fileId] at hindexId
            rw [fileIdAt, show entryAt repo.headTree path = some headEntry from hhead,
              Option.bind_some, TreeEntry.fileId, hmode]
            split_ifs at hindexId with h
            rw [if_neg h]
      rw [hindexId, hheadId]
      rfl

/-! ## The manifest -/

theorem lookupLast_ne_none {β : Type} {path : String} {pairs : List (String × β)} :
    lookupLast path pairs ≠ none ↔ path ∈ pairs.map Prod.fst := by
  rw [lookupLast, Ne, Option.map_eq_none_iff, lastRow_eq_none, not_not]

theorem mem_collectCandidatePaths {workspace : WorkspaceState} {path : String} :
    path ∈ collectCandidatePaths workspace ↔
      lookupLast path workspace.headTree ≠ none ∨ lookupLast path workspace.stagedChanges ≠ none ∨
        path ∈ workspace.dirtyFiles ∨ path ∈ workspace.untrackedFiles := by
  rw [collectCandidatePaths, mem_sortDedup, List.mem_append, List.mem_append, List.mem_append,
    lookupLast_ne_none, lookupLast_ne_none, or_assoc, or_assoc]

/-- A candidate is in one of the trees. -/
theorem named_of_candidate {workspace : WorkspaceState} (hws : repo.Reflects workspace)
    {path : String} (h : path ∈ collectCandidatePaths workspace) :
    repo.headEntry path ≠ none ∨ repo.indexEntry path ≠ none ∨ repo.worktreeEntry path ≠ none := by
  rcases mem_collectCandidatePaths.mp h with h | h | h | h
  · rw [hws.headTree, fileIdAt] at h
    refine .inl fun hnone => h ?_
    rw [show entryAt repo.headTree path = none from hnone]
    rfl
  · rw [hws.stagedChanges] at h
    cases hhead : repo.headEntry path with
    | some entry => exact .inl fun h => by cases h
    | none =>
      cases hindex : repo.indexEntry path with
      | some entry => exact .inr (.inl fun h => by cases h)
      | none =>
        rw [hhead, hindex] at h
        exact absurd rfl h
  · have hdirty := ((hws.dirtyFiles path).mp h).1
    rw [reportedDirty, Bool.and_eq_true] at hdirty
    exact .inr (.inl (Option.isSome_iff_ne_none.mp hdirty.1))
  · obtain ⟨-, -, entry, hentry, -⟩ := (hws.untrackedFiles path).mp h
    exact .inr (.inr (by rw [hentry]; exact fun h => by cases h))

/-- A candidate is tracked, or not excluded. -/
theorem tracked_of_candidate {workspace : WorkspaceState} (hws : repo.Reflects workspace)
    {path : String} (h : path ∈ collectCandidatePaths workspace) :
    repo.headEntry path ≠ none ∨ repo.indexEntry path ≠ none ∨ repo.ignored path = false := by
  by_cases huntracked : path ∈ workspace.untrackedFiles
  · exact .inr (.inr ((hws.untrackedFiles path).mp huntracked).2.1)
  · rcases named_of_candidate hws h with hnamed | hnamed | -
    · exact .inl hnamed
    · exact .inr (.inl hnamed)
    · cases hhead : repo.headEntry path with
      | some entry => exact .inl fun h => nomatch h
      | none =>
        cases hindex : repo.indexEntry path with
        | some entry => exact .inr (.inl fun h => nomatch h)
        | none =>
          -- without an entry in HEAD or the index only the untracked listing names the path
          rw [mem_collectCandidatePaths, hws.headTree, hws.stagedChanges, hws.dirtyFiles,
            hhead, hindex, fileIdAt, show entryAt repo.headTree path = none from hhead,
            reportedDirty, hindex] at h
          simp [stagedOf, changeStatus, huntracked] at h

/-- A regular file of the worktree is a candidate, unless it is untracked and excluded. -/
theorem candidate_of_file {workspace : WorkspaceState} (hws : repo.Reflects workspace)
    {path : String} (hkept : repo.droppedChange path = false)
    (htracked : repo.headEntry path ≠ none ∨ repo.indexEntry path ≠ none ∨
      repo.ignored path = false)
    {contentId : String} (hfile : fileIdAt repo.worktree path = some contentId) :
    path ∈ collectCandidatePaths workspace := by
  obtain ⟨entry, hentry, hfileId⟩ := Option.bind_eq_some_iff.mp hfile
  have hmode : entry.mode.isFile = true := by
    rw [TreeEntry.fileId] at hfileId
    split_ifs at hfileId with h
    exact h
  rw [mem_collectCandidatePaths, hws.headTree, hws.stagedChanges, hws.dirtyFiles,
    hws.untrackedFiles]
  cases hindex : repo.indexEntry path with
  | none =>
    cases hhead : repo.headEntry path with
    | some headEntry => exact .inr (.inl fun h => by cases h)
    | none =>
      rw [hhead, hindex] at htracked
      have hignored : repo.ignored path = false := by
        rcases htracked with h | h | h
        · exact absurd rfl h
        · exact absurd rfl h
        · exact h
      exact .inr (.inr (.inr ⟨rfl, hignored, entry, hentry, hmode⟩))
  | some indexEntry =>
    by_cases hsame : repo.worktreeEntry path = repo.indexEntry path
    · -- the index has the file: HEAD has it too, or it is added
      have hindexEntry : indexEntry = entry :=
        Option.some.inj (hindex.symm.trans (hsame.symm.trans hentry))
      subst hindexEntry
      cases hhead : repo.headEntry path with
      | none =>
        refine .inr (.inl ?_)
        simp [stagedOf, changeStatus, TreeEntry.fileId, hmode]
      | some headEntry =>
        have hheadMode := (of_droppedChange_eq_false hkept).1 headEntry hhead indexEntry hindex
        refine .inl ?_
        rw [fileIdAt, show entryAt repo.headTree path = some headEntry from hhead,
          Option.bind_some, TreeEntry.fileId, hheadMode, if_pos hmode]
        exact fun h => by cases h
    · refine .inr (.inr (.inl ⟨?_, fun e he => ?_⟩))
      · rw [reportedDirty, hindex, Bool.and_eq_true]
        exact ⟨rfl, decide_eq_true (hindex ▸ hsame)⟩
      · obtain rfl := Option.some.inj (hentry.symm.trans he)
        intro hsymlink
        rw [hsymlink] at hmode
        cases hmode

/-- The state that the loop adds for a path. -/
def stateAt (workspace : WorkspaceState) (fs : FileSystem)
    (scope : String → Option ResolvedFileClassification) (path : String) :
    Option DesiredFileState :=
  (scope path).bind fun classification =>
    (buildDesiredFileState path classification workspace fs).toOption.join

theorem addDesiredStates_eq_ok {workspace : WorkspaceState} {fs : FileSystem}
    (scope : String → Option ResolvedFileClassification) {paths : List String}
    (hpaths : ∀ path ∈ paths, ∀ classification, ∃ state,
      buildDesiredFileState path classification workspace fs = .ok state ∧
        ∀ s ∈ state, s.path = path) (manifest : DesiredManifest) :
    ∃ result, addDesiredStates workspace fs (fun path => .ok (scope path)) paths manifest =
        .ok result ∧
      ∀ path, findRow DesiredFileState.path path result.rows =
        if path ∈ paths then
          (stateAt workspace fs scope path).or (findRow DesiredFileState.path path manifest.rows)
        else findRow DesiredFileState.path path manifest.rows := by
  induction paths generalizing manifest with
  | nil => exact ⟨manifest, rfl, fun path => rfl⟩
  | cons p paths ih =>
    have hrest := fun path hpath => hpaths path (List.mem_cons_of_mem p hpath)
    -- what the first path adds, and what the others add to that
    have hstep : ∃ next : DesiredManifest,
        addDesiredStates workspace fs (fun path => .ok (scope path)) (p :: paths) manifest =
          addDesiredStates workspace fs (fun path => .ok (scope path)) paths next ∧
        ∀ path, findRow DesiredFileState.path path next.rows =
          if path = p then
            (stateAt workspace fs scope p).or (findRow DesiredFileState.path path manifest.rows)
          else findRow DesiredFileState.path path manifest.rows := by
      cases hscope : scope p with
      | none =>
        refine ⟨manifest, ?_, fun path => ?_⟩
        · simp [addDesiredStates, hscope, bind, Except.bind]
        · simp [stateAt, hscope]
      | some classification =>
        obtain ⟨state, hbuild, hstate⟩ := hpaths p List.mem_cons_self classification
        cases state with
        | none =>
          refine ⟨manifest, ?_, fun path => ?_⟩
          · simp [addDesiredStates, hscope, hbuild, bind, Except.bind]
          · simp [stateAt, hscope, hbuild, Except.toOption]
        | some s =>
          refine ⟨manifest.upsert s, ?_, fun path => ?_⟩
          · simp [addDesiredStates, hscope, hbuild, bind, Except.bind]
          · rw [UniqueTable.findRow_upsert, hstate s rfl]
            simp [stateAt, hscope, hbuild, Except.toOption]
    obtain ⟨next, hnext, hfound⟩ := hstep
    obtain ⟨result, hresult, hrows⟩ := ih hrest next
    refine ⟨result, hnext.trans hresult, fun path => ?_⟩
    rw [hrows, hfound]
    by_cases hp : path = p
    · subst hp
      by_cases hlater : path ∈ paths <;> simp [hlater, ← Option.or_assoc]
    · simp [hp]

/-- For every path without a dropped change the manifest holds the reference. -/
theorem desiredManifest_eq_reference (hclear : repo.Unobstructed) (hspace : repo.NoLeadingSpace)
    (scope : String → Option ResolvedFileClassification) :
    ∃ manifest, repo.desiredManifest (fun path => .ok (scope path)) = .ok manifest ∧
      ∀ path, repo.droppedChange path = false →
        (findRow DesiredFileState.path path manifest.rows).map
            (fun state => (state.effectiveContentId, state.effectiveSource)) =
          if repo.inScope scope path then repo.reference topmostChange path else none := by
  obtain ⟨workspace, hinspect, hws⟩ := inspectWorkspace_reflects hclear hspace
  have hbuild : ∀ path ∈ collectCandidatePaths workspace, ∀ classification, ∃ state,
      buildDesiredFileState path classification workspace repo.fs = .ok state ∧
        ∀ s ∈ state, s.path = path := by
    intro path hpath classification
    obtain ⟨state, hstate, hkey, -⟩ := buildDesiredFileState_eq_ok hclear
      workspace classification (named_of_candidate hws hpath)
    exact ⟨state, hstate, hkey⟩
  obtain ⟨manifest, hmanifest, hrows⟩ :=
    addDesiredStates_eq_ok scope hbuild UniqueTable.empty
  refine ⟨manifest, ?_, fun path hkept => ?_⟩
  · rw [desiredManifest, hinspect]
    exact hmanifest
  · rw [hrows, reference_eq]
    by_cases hcandidate : path ∈ collectCandidatePaths workspace
    · rw [if_pos hcandidate]
      cases hscope : scope path with
      | none => simp [stateAt, inScope, hscope, UniqueTable.empty, findRow]
      | some classification =>
        obtain ⟨state, hstate, -, hcontent⟩ := buildDesiredFileState_eq_ok hclear workspace
          classification (named_of_candidate hws hcandidate)
        have hin : repo.inScope scope path = true := by
          rw [inScope, hscope, Option.isSome_some, Bool.true_and, Bool.or_eq_true, Bool.or_eq_true,
            Option.isSome_iff_ne_none, Option.isSome_iff_ne_none, Bool.not_eq_true', or_assoc]
          exact tracked_of_candidate hws hcandidate
        have hadded : stateAt workspace repo.fs scope path = state := by
          simp [stateAt, hscope, hstate, Except.toOption]
        rw [if_pos hin, ← reference_eq, ← outcome_eq_reference hws hkept, ← hcontent, hadded]
        simp [UniqueTable.empty, findRow]
    · rw [if_neg hcandidate]
      split_ifs with hin
      · cases hfile : fileIdAt repo.worktree path with
        | none => rfl
        | some contentId =>
          refine absurd (candidate_of_file hws hkept ?_ hfile) hcandidate
          simp only [inScope, Bool.and_eq_true, Bool.or_eq_true, Option.isSome_iff_ne_none,
            Bool.not_eq_true', or_assoc] at hin
          exact hin.2
      · rfl

/-- The manifest is built, and holds the reference for every path in scope. -/
def ManifestMeets (repo : Repository)
    (source : Option String → Option String → String → EffectiveSource)
    (scope : String → Option ResolvedFileClassification) : Prop :=
  ∃ manifest, repo.desiredManifest (fun path => .ok (scope path)) = .ok manifest ∧
    ∀ path, repo.inScope scope path = true →
      (findRow DesiredFileState.path path manifest.rows).map
          (fun state => (state.effectiveContentId, state.effectiveSource)) =
        repo.reference source path

end Repository

/-! ## A file that was staged and then reverted -/

/-- The tree with one regular file `main.rs`. -/
def mainTree (oid : String) (hoid : oid.toList ≠ [])
    (hchars : ∀ c ∈ oid.toList, Daemon.isWhitespace c = false ∧ c ≠ nul) : Tree :=
  { rows :=
      [{ path := "main.rs"
         entry := { mode := .regular, oid }
         path_nonempty := by decide
         path_chars := by decide
         oid_nonempty := hoid
         oid_chars := hchars }]
    unique := List.nodup_singleton _ }

theorem entryAt_mainTree {oid : String} {hoid : oid.toList ≠ []}
    {hchars : ∀ c ∈ oid.toList, Daemon.isWhitespace c = false ∧ c ≠ nul} (path : String) :
    entryAt (mainTree oid hoid hchars) path =
      if path = "main.rs" then some { mode := .regular, oid } else none := by
  by_cases hpath : path = "main.rs"
  · subst hpath
    rfl
  · have hne : ¬ "main.rs" = path := fun h => hpath h.symm
    simp [entryAt, mainTree, findRow, hpath, hne]

def committedTree : Tree := mainTree "aa" (by decide) (by decide)

def stagedTree : Tree := mainTree "bb" (by decide) (by decide)

/-- `main.rs` in every tree, with another content in the index than in HEAD. -/
def stagedFile (worktree : Tree) (hworktree : worktree = committedTree ∨ worktree = stagedTree) :
    Repository :=
  { head := some committedTree
    index := stagedTree
    worktree
    ignored := fun _ => false
    fs := fun path =>
      match entryAt worktree path with
      | some entry => .ok entry.fileType
      | none => .error .notFound
    fs_entry := fun path entry h => by rw [h]
    fs_missing := fun path h _ => by
      rw [h]
      exact .inl rfl
    fs_repository := fun path entry h hmode => by
      rcases hworktree with rfl | rfl <;>
      · simp only [committedTree, stagedTree, entryAt_mainTree] at h
        split_ifs at h
        cases h
        cases hmode }

def rustFile : ResolvedFileClassification :=
  { analysisMode := .code
    fileRole := .sourceCode
    textIndexMode := .none
    language := "rust"
    resolvedLanguage := "rust"
    dialect := none
    primaryContextId := none
    secondaryContextIds := []
    frameworks := []
    runtimeProfile := none
    classificationReason := "extension"
    contextFingerprint := none
    extractionFingerprint := "fingerprint" }

theorem stagedFile_path {worktree : Tree}
    {hworktree : worktree = committedTree ∨ worktree = stagedTree} {path : String}
    (h : (stagedFile worktree hworktree).headEntry path ≠ none ∨
      (stagedFile worktree hworktree).indexEntry path ≠ none ∨
      (stagedFile worktree hworktree).worktreeEntry path ≠ none) : path = "main.rs" := by
  by_cases hpath : path = "main.rs"
  · exact hpath
  · rcases hworktree with rfl | rfl <;>
      simp [stagedFile, Repository.headEntry, Repository.indexEntry, Repository.worktreeEntry,
        Repository.headTree, committedTree, stagedTree, entryAt_mainTree, hpath] at h

/-- A staged change that the worktree keeps comes from the index. -/
theorem stagedFile_eq_reference :
    ∃ manifest, (stagedFile stagedTree (.inr rfl)).desiredManifest
        (fun path => .ok (if path = "main.rs" then some rustFile else none)) = .ok manifest ∧
      (findRow DesiredFileState.path "main.rs" manifest.rows).map
        (fun state => (state.effectiveContentId, state.effectiveSource)) =
          some ("bb", .index) := by
  have hclear : (stagedFile stagedTree (.inr rfl)).Unobstructed := by
    intro path hpath hnone
    obtain rfl := stagedFile_path (by tauto)
    cases hnone
  have hspace : (stagedFile stagedTree (.inr rfl)).NoLeadingSpace := by
    intro path hpath c hc
    obtain rfl := stagedFile_path (by tauto)
    obtain rfl : 'm' = c := Option.some.inj hc
    decide
  obtain ⟨manifest, hmanifest, hrows⟩ := Repository.desiredManifest_eq_reference hclear hspace
    fun path => if path = "main.rs" then some rustFile else none
  exact ⟨manifest, hmanifest, hrows "main.rs" (by decide)⟩

/-- A worktree that returns to the content of HEAD while the index has another one counts as the
source, although HEAD has the content. -/
theorem revertedFile_not_meets :
    ¬ (stagedFile committedTree (.inl rfl)).ManifestMeets Repository.firstLayerWith
      (fun path => if path = "main.rs" then some rustFile else none) := by
  rintro ⟨manifest, hmanifest, hmeets⟩
  have hmain := hmeets "main.rs" (by decide)
  have hsource : ((stagedFile committedTree (.inl rfl)).desiredManifest
        (fun path => .ok (if path = "main.rs" then some rustFile else none))).toOption.map
          (fun manifest => (findRow DesiredFileState.path "main.rs" manifest.rows).map
            fun state => (state.effectiveContentId, state.effectiveSource)) =
      some (some ("aa", .worktree)) := by
    decide
  rw [hmanifest] at hsource
  have hfound := hmain.symm.trans (Option.some.inj hsource)
  exact absurd hfound (by decide)

end Sync
end Bitloops
