import Bitloops.Foundation.JsonStrings
import Bitloops.Foundation.OrderBy
import Bitloops.Foundation.UniqueTable

/-!
# The state of a file

A sync compares two manifests: the desired one, which is computed from the workspace, and the
stored one, which is read back from the rows of `current_file_state`.  A row holds texts: the
names of the enumerations and the JSON text of the lists; `storedManifestRow` decodes it, and
skips a row with an unknown name.
-/

namespace Bitloops
namespace Sync

/-! ## Enumerations and their names -/

inductive AnalysisMode where
  | code
  | text
  | trackOnly
  | excluded
  deriving DecidableEq, Repr

def AnalysisMode.asStr : AnalysisMode → String
  | .code => "code"
  | .text => "text"
  | .trackOnly => "track_only"
  | .excluded => "excluded"

def AnalysisMode.ofStr? : String → Option AnalysisMode
  | "code" => some .code
  | "text" => some .text
  | "track_only" => some .trackOnly
  | "excluded" => some .excluded
  | _ => none

inductive FileRole where
  | sourceCode
  | projectManifest
  | contextSeed
  | configuration
  | documentation
  | lockfile
  | generated
  | dependencyTree
  | other
  deriving DecidableEq, Repr

def FileRole.asStr : FileRole → String
  | .sourceCode => "source_code"
  | .projectManifest => "project_manifest"
  | .contextSeed => "context_seed"
  | .configuration => "configuration"
  | .documentation => "documentation"
  | .lockfile => "lockfile"
  | .generated => "generated"
  | .dependencyTree => "dependency_tree"
  | .other => "other"

def FileRole.ofStr? : String → Option FileRole
  | "source_code" => some .sourceCode
  | "project_manifest" => some .projectManifest
  | "context_seed" => some .contextSeed
  | "configuration" => some .configuration
  | "documentation" => some .documentation
  | "lockfile" => some .lockfile
  | "generated" => some .generated
  | "dependency_tree" => some .dependencyTree
  | "other" => some .other
  | _ => none

inductive TextIndexMode where
  | embed
  | storeOnly
  | none
  deriving DecidableEq, Repr

def TextIndexMode.asStr : TextIndexMode → String
  | .embed => "embed"
  | .storeOnly => "store_only"
  | .none => "none"

def TextIndexMode.ofStr? : String → Option TextIndexMode
  | "embed" => some .embed
  | "store_only" => some .storeOnly
  | "none" => some .none
  | _ => Option.none

inductive EffectiveSource where
  | head
  | index
  | worktree
  deriving DecidableEq, Repr

def EffectiveSource.asStr : EffectiveSource → String
  | .head => "head"
  | .index => "index"
  | .worktree => "worktree"

def EffectiveSource.ofStr? : String → Option EffectiveSource
  | "head" => some .head
  | "index" => some .index
  | "worktree" => some .worktree
  | _ => none

@[simp] theorem AnalysisMode.ofStr?_asStr (m : AnalysisMode) : ofStr? m.asStr = some m := by
  cases m <;> rfl

@[simp] theorem FileRole.ofStr?_asStr (r : FileRole) : ofStr? r.asStr = some r := by
  cases r <;> rfl

@[simp] theorem TextIndexMode.ofStr?_asStr (m : TextIndexMode) : ofStr? m.asStr = some m := by
  cases m <;> rfl

@[simp] theorem EffectiveSource.ofStr?_asStr (s : EffectiveSource) : ofStr? s.asStr = some s := by
  cases s <;> rfl

/-! ## Desired and stored states -/

structure DesiredFileState where
  path : String
  analysisMode : AnalysisMode
  fileRole : FileRole
  textIndexMode : TextIndexMode
  language : String
  resolvedLanguage : String
  dialect : Option String
  primaryContextId : Option String
  secondaryContextIds : List String
  frameworks : List String
  runtimeProfile : Option String
  classificationReason : String
  contextFingerprint : Option String
  extractionFingerprint : String
  headContentId : Option String
  indexContentId : Option String
  worktreeContentId : Option String
  effectiveContentId : String
  effectiveSource : EffectiveSource
  existsInHead : Bool
  existsInIndex : Bool
  existsInWorktree : Bool
  deriving DecidableEq, Repr

structure StoredFileState where
  path : String
  analysisMode : AnalysisMode
  fileRole : FileRole
  textIndexMode : TextIndexMode
  language : String
  resolvedLanguage : String
  dialect : Option String
  primaryContextId : Option String
  secondaryContextIds : List String
  frameworks : List String
  runtimeProfile : Option String
  classificationReason : String
  contextFingerprint : Option String
  extractionFingerprint : String
  effectiveContentId : String
  effectiveSource : EffectiveSource
  parserVersion : String
  extractorVersion : String
  deriving DecidableEq, Repr

/-- A row of `current_file_state`. -/
structure CurrentFileStateRow where
  repoId : String
  path : String
  analysisMode : String
  fileRole : String
  textIndexMode : String
  language : String
  resolvedLanguage : String
  dialect : Option String
  primaryContextId : Option String
  secondaryContextIdsJson : String
  frameworksJson : String
  runtimeProfile : Option String
  classificationReason : String
  contextFingerprint : Option String
  extractionFingerprint : String
  headContentId : Option String
  indexContentId : Option String
  worktreeContentId : Option String
  effectiveContentId : String
  effectiveSource : String
  parserVersion : String
  extractorVersion : String
  existsInHead : ℕ
  existsInIndex : ℕ
  existsInWorktree : ℕ
  deriving DecidableEq, Repr

/-- The primary key. -/
def CurrentFileStateRow.key (row : CurrentFileStateRow) : String × String := (row.repoId, row.path)

abbrev FileTable := UniqueTable CurrentFileStateRow CurrentFileStateRow.key

def boolSql (value : Bool) : ℕ := if value then 1 else 0

/-- The row that `persist_prepared_materialisation_tx` writes. -/
def currentFileStateRow (repoId : String) (desired : DesiredFileState)
    (parserVersion extractorVersion : String) : CurrentFileStateRow where
  repoId := repoId
  path := desired.path
  analysisMode := desired.analysisMode.asStr
  fileRole := desired.fileRole.asStr
  textIndexMode := desired.textIndexMode.asStr
  language := desired.language
  resolvedLanguage := desired.resolvedLanguage
  dialect := desired.dialect
  primaryContextId := desired.primaryContextId
  secondaryContextIdsJson := JsonStrings.encode desired.secondaryContextIds
  frameworksJson := JsonStrings.encode desired.frameworks
  runtimeProfile := desired.runtimeProfile
  classificationReason := desired.classificationReason
  contextFingerprint := desired.contextFingerprint
  extractionFingerprint := desired.extractionFingerprint
  headContentId := desired.headContentId
  indexContentId := desired.indexContentId
  worktreeContentId := desired.worktreeContentId
  effectiveContentId := desired.effectiveContentId
  effectiveSource := desired.effectiveSource.asStr
  parserVersion := parserVersion
  extractorVersion := extractorVersion
  existsInHead := boolSql desired.existsInHead
  existsInIndex := boolSql desired.existsInIndex
  existsInWorktree := boolSql desired.existsInWorktree

def parseJsonStringArray (raw : String) : List String := (JsonStrings.decode raw).getD []

/-- Decode a row; `none` if a name is unknown. -/
def storedManifestRow (row : CurrentFileStateRow) : Option StoredFileState := do
  let effectiveSource ← EffectiveSource.ofStr? row.effectiveSource
  let analysisMode ← AnalysisMode.ofStr? row.analysisMode
  let fileRole ← FileRole.ofStr? row.fileRole
  let textIndexMode ← TextIndexMode.ofStr? row.textIndexMode
  return {
    path := row.path
    analysisMode
    fileRole
    textIndexMode
    language := row.language
    resolvedLanguage := row.resolvedLanguage
    dialect := row.dialect
    primaryContextId := row.primaryContextId
    secondaryContextIds := parseJsonStringArray row.secondaryContextIdsJson
    frameworks := parseJsonStringArray row.frameworksJson
    runtimeProfile := row.runtimeProfile
    classificationReason := row.classificationReason
    contextFingerprint := row.contextFingerprint
    extractionFingerprint := row.extractionFingerprint
    effectiveContentId := row.effectiveContentId
    effectiveSource
    parserVersion := row.parserVersion
    extractorVersion := row.extractorVersion }

theorem path_of_storedManifestRow {row : CurrentFileStateRow} {stored : StoredFileState}
    (h : storedManifestRow row = some stored) : stored.path = row.path := by
  simp only [storedManifestRow, Option.bind_eq_bind, Option.bind_eq_some_iff, Option.pure_def,
    Option.some.injEq] at h
  obtain ⟨_, -, _, -, _, -, _, -, rfl⟩ := h
  rfl

/-- The stored state that records a desired one. -/
def DesiredFileState.stored (desired : DesiredFileState) (parserVersion extractorVersion : String) :
    StoredFileState where
  path := desired.path
  analysisMode := desired.analysisMode
  fileRole := desired.fileRole
  textIndexMode := desired.textIndexMode
  language := desired.language
  resolvedLanguage := desired.resolvedLanguage
  dialect := desired.dialect
  primaryContextId := desired.primaryContextId
  secondaryContextIds := desired.secondaryContextIds
  frameworks := desired.frameworks
  runtimeProfile := desired.runtimeProfile
  classificationReason := desired.classificationReason
  contextFingerprint := desired.contextFingerprint
  extractionFingerprint := desired.extractionFingerprint
  effectiveContentId := desired.effectiveContentId
  effectiveSource := desired.effectiveSource
  parserVersion := parserVersion
  extractorVersion := extractorVersion

/-- **A written row is read back.** -/
theorem storedManifestRow_currentFileStateRow (repoId : String) (desired : DesiredFileState)
    (parserVersion extractorVersion : String) :
    storedManifestRow (currentFileStateRow repoId desired parserVersion extractorVersion) =
      some (desired.stored parserVersion extractorVersion) := by
  simp [storedManifestRow, currentFileStateRow, parseJsonStringArray, JsonStrings.decode_encode,
    DesiredFileState.stored]

/-! ## Manifests -/

abbrev DesiredManifest := UniqueTable DesiredFileState DesiredFileState.path
abbrev StoredManifest := UniqueTable StoredFileState StoredFileState.path

/-- The rows of the repository, restricted to the requested paths if there are any. -/
def isRequested (requestedPaths : Option (List String)) (path : String) : Bool :=
  match requestedPaths with
  | none => true
  | some paths => path ∈ paths

def loadStoredManifestForPaths (files : FileTable) (repoId : String)
    (requestedPaths : Option (List String)) : StoredManifest :=
  files.project
    (fun row =>
      if row.repoId = repoId ∧ isRequested requestedPaths row.path then storedManifestRow row
      else none)
    (by
      intro r r' s s' hs hs' hpath
      split_ifs at hs hs' with hr hr'
      have h := path_of_storedManifestRow hs
      have h' := path_of_storedManifestRow hs'
      rw [CurrentFileStateRow.key, CurrentFileStateRow.key, hr.1, hr'.1, ← h, ← h', hpath])

theorem mem_loadStoredManifestForPaths {files : FileTable} {repoId : String}
    {requestedPaths : Option (List String)} {stored : StoredFileState} :
    stored ∈ (loadStoredManifestForPaths files repoId requestedPaths).rows ↔
      ∃ row ∈ files.rows, row.repoId = repoId ∧ isRequested requestedPaths row.path = true ∧
        storedManifestRow row = some stored := by
  rw [loadStoredManifestForPaths, UniqueTable.mem_project]
  refine exists_congr fun row => and_congr_right fun _ => ?_
  by_cases h : row.repoId = repoId ∧ isRequested requestedPaths row.path = true
  · rw [if_pos h]
    exact ⟨fun hs => ⟨h.1, h.2, hs⟩, fun hs => hs.2.2⟩
  · rw [if_neg h]
    exact ⟨fun hs => (nomatch hs), fun hs => absurd ⟨hs.1, hs.2.1⟩ h⟩

/-! ## Classification -/

inductive PathAction where
  | unchanged
  | added
  | changed
  | removed
  deriving DecidableEq, Repr

structure ClassifiedPath where
  path : String
  action : PathAction
  desired : Option DesiredFileState
  deriving DecidableEq, Repr

/-- The comparison of `classify_paths`. -/
def isUnchanged (desired : DesiredFileState) (stored : StoredFileState)
    (parserVersion extractorVersion : String) : Bool :=
  desired.effectiveContentId = stored.effectiveContentId &&
    desired.analysisMode = stored.analysisMode && desired.fileRole = stored.fileRole &&
    desired.textIndexMode = stored.textIndexMode && desired.language = stored.language &&
    desired.resolvedLanguage = stored.resolvedLanguage && desired.dialect = stored.dialect &&
    desired.primaryContextId = stored.primaryContextId &&
    desired.secondaryContextIds = stored.secondaryContextIds &&
    desired.frameworks = stored.frameworks && desired.runtimeProfile = stored.runtimeProfile &&
    desired.classificationReason = stored.classificationReason &&
    desired.contextFingerprint = stored.contextFingerprint &&
    desired.extractionFingerprint = stored.extractionFingerprint &&
    desired.effectiveSource = stored.effectiveSource && stored.parserVersion = parserVersion &&
    stored.extractorVersion = extractorVersion

/-- The action for a path, by what the manifests hold for it. -/
def classifyPath (parserVersion extractorVersion : String) (repair : Bool) :
    Option DesiredFileState → Option StoredFileState → Option PathAction
  | some _, none => some .added
  | none, some _ => some .removed
  | some desired, some stored =>
    if repair then some .changed
    else if isUnchanged desired stored parserVersion extractorVersion then some .unchanged
    else some .changed
  | none, none => none

def classifyPaths (desired : DesiredManifest) (stored : StoredManifest)
    (parserVersion extractorVersion : String) (repair : Bool) : List ClassifiedPath :=
  (sortDedup (desired.rows.map (·.path) ++ stored.rows.map (·.path))).filterMap fun path =>
    let desiredState := findRow DesiredFileState.path path desired.rows
    let storedState := findRow StoredFileState.path path stored.rows
    (classifyPath parserVersion extractorVersion repair desiredState storedState).map fun action =>
      { path, action, desired := desiredState }

/-- What is compared equal is not classified as changed. -/
theorem isUnchanged_stored (desired : DesiredFileState) (parserVersion extractorVersion : String) :
    isUnchanged desired (desired.stored parserVersion extractorVersion) parserVersion
      extractorVersion = true := by
  simp [isUnchanged, DesiredFileState.stored]

section Classified

variable {desired : DesiredManifest} {stored : StoredManifest}
  {parserVersion extractorVersion : String} {repair : Bool} {c : ClassifiedPath}

/-- A classified path is classified by the states of its path. -/
theorem mem_classifyPaths :
    c ∈ classifyPaths desired stored parserVersion extractorVersion repair ↔
      c.desired = findRow DesiredFileState.path c.path desired.rows ∧
        classifyPath parserVersion extractorVersion repair c.desired
          (findRow StoredFileState.path c.path stored.rows) = some c.action := by
  simp only [classifyPaths, List.mem_filterMap, mem_sortDedup, Option.map_eq_some_iff]
  constructor
  · rintro ⟨path, -, action, haction, rfl⟩
    exact ⟨rfl, haction⟩
  · rintro ⟨hdesired, haction⟩
    refine ⟨c.path, ?_, c.action, hdesired ▸ haction, ?_⟩
    · -- one of the manifests has the path
      rw [List.mem_append]
      cases hd : findRow DesiredFileState.path c.path desired.rows with
      | some d =>
        obtain ⟨hmem, hpath⟩ := UniqueTable.findRow_eq_some.mp hd
        exact .inl (List.mem_map.mpr ⟨d, hmem, hpath⟩)
      | none =>
        cases hs : findRow StoredFileState.path c.path stored.rows with
        | some s =>
          obtain ⟨hmem, hpath⟩ := UniqueTable.findRow_eq_some.mp hs
          exact .inr (List.mem_map.mpr ⟨s, hmem, hpath⟩)
        | none =>
          rw [hdesired, hd, hs] at haction
          cases haction
    · rw [← hdesired]

/-- The paths of a classification are different. -/
theorem nodup_classifyPaths :
    ((classifyPaths desired stored parserVersion extractorVersion repair).map (·.path)).Nodup := by
  rw [classifyPaths, List.Nodup, List.pairwise_map, List.pairwise_filterMap]
  refine (List.nodup_dedup _).imp ?_
  intro p p' hne c hc c' hc' heq
  obtain ⟨_, -, rfl⟩ := Option.map_eq_some_iff.mp hc
  obtain ⟨_, -, rfl⟩ := Option.map_eq_some_iff.mp hc'
  exact hne heq

end Classified

end Sync
end Bitloops
