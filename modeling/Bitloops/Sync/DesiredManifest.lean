import Bitloops.Sync.FileState
import Bitloops.Sync.WorkspaceState

/-!
# The desired manifest

The manifest is built from the workspace state, path by path, over the paths that one of its
listings has.  The worktree is read only if git reports the path as dirty or untracked, or if
the index has no content for it.
-/

namespace Bitloops
namespace Sync

structure ResolvedFileClassification where
  analysisMode : AnalysisMode
  fileRole : FileRole
  textIndexMode : TextIndexMode
  language : String
  resolvedLanguage : String
  dialect : Option String
  primaryContextId : Option String
  secondaryContextIds : List String
  frameworks : List String
  runtimeProfile : Option String
  classificationReason : String
  contextFingerprint : Option String
  extractionFingerprint : String
  deriving DecidableEq, Repr

/-- A lookup in a map to which the pairs were added in order. -/
def lookupLast {β : Type} (path : String) (pairs : List (String × β)) : Option β :=
  (lastRow Prod.fst path pairs).map Prod.snd

def collectCandidatePaths (workspace : WorkspaceState) : List String :=
  sortDedup (workspace.headTree.map Prod.fst ++ workspace.stagedChanges.map Prod.fst ++
    workspace.dirtyFiles ++ workspace.untrackedFiles)

/-- `read_worktree_content_id`: the content, if there is a regular file. -/
def readWorktreeContentId (fs : FileSystem) (path : String) (needsDiskRead : Bool)
    (indexContentId : Option String) : Except String (Option String) :=
  match fs path with
  | .error .notFound => .ok none
  | .error .other => .error ("reading metadata for `" ++ path ++ "`")
  | .ok (.file contentId) =>
    match needsDiskRead, indexContentId with
    | false, some indexContentId => .ok (some indexContentId)
    | _, _ => .ok (some contentId)
  | .ok .symlink | .ok .dir => .ok none

/-- The content of the index, from that of HEAD and the staged change. -/
def indexContent (headContentId : Option String) : Option StagedChange → Option String
  | some (.added contentId) | some (.modified contentId) => some contentId
  | some .deleted => none
  | none => headContentId

/-- The first layer below which nothing differs. -/
def effectiveContent (headContentId indexContentId worktreeContentId : Option String) :
    Option (String × EffectiveSource) :=
  let committed : Option (String × EffectiveSource) :=
    match indexContentId with
    | some contentId =>
      some (contentId, if headContentId = some contentId then .head else .index)
    | none => headContentId.map fun contentId => (contentId, .head)
  match worktreeContentId with
  | some contentId =>
    if indexContentId = some contentId then committed else some (contentId, .worktree)
  | none => committed

def buildDesiredFileState (path : String) (classification : ResolvedFileClassification)
    (workspace : WorkspaceState) (fs : FileSystem) : Except String (Option DesiredFileState) := do
  let headContentId := lookupLast path workspace.headTree
  let staged := lookupLast path workspace.stagedChanges
  let indexContentId := indexContent headContentId staged
  let dirty := decide (path ∈ workspace.dirtyFiles)
  let untracked := decide (path ∈ workspace.untrackedFiles)
  let worktreeContentId ← readWorktreeContentId fs path (dirty || untracked) indexContentId
  if worktreeContentId.isNone && (dirty || staged = some .deleted) then return none
  return (effectiveContent headContentId indexContentId worktreeContentId).map
    fun (effectiveContentId, effectiveSource) =>
      { path
        analysisMode := classification.analysisMode
        fileRole := classification.fileRole
        textIndexMode := classification.textIndexMode
        language := classification.language
        resolvedLanguage := classification.resolvedLanguage
        dialect := classification.dialect
        primaryContextId := classification.primaryContextId
        secondaryContextIds := classification.secondaryContextIds
        frameworks := classification.frameworks
        runtimeProfile := classification.runtimeProfile
        classificationReason := classification.classificationReason
        contextFingerprint := classification.contextFingerprint
        extractionFingerprint := classification.extractionFingerprint
        headContentId
        indexContentId
        worktreeContentId
        effectiveContentId
        effectiveSource
        existsInHead := headContentId.isSome
        existsInIndex := indexContentId.isSome
        existsInWorktree := worktreeContentId.isSome }

/-- The loop of `build_desired_manifest`. -/
def addDesiredStates (workspace : WorkspaceState) (fs : FileSystem)
    (classifier : String → Except String (Option ResolvedFileClassification)) :
    List String → DesiredManifest → Except String DesiredManifest
  | [], manifest => .ok manifest
  | path :: paths, manifest => do
    match ← classifier path with
    | none => addDesiredStates workspace fs classifier paths manifest
    | some classification =>
      match ← buildDesiredFileState path classification workspace fs with
      | none => addDesiredStates workspace fs classifier paths manifest
      | some state => addDesiredStates workspace fs classifier paths (manifest.upsert state)

def buildDesiredManifest (workspace : WorkspaceState) (fs : FileSystem)
    (classifier : String → Except String (Option ResolvedFileClassification)) :
    Except String DesiredManifest :=
  addDesiredStates workspace fs classifier (collectCandidatePaths workspace) UniqueTable.empty

/-- The manifest of a repository. -/
def Repository.desiredManifest (repo : Repository)
    (classifier : String → Except String (Option ResolvedFileClassification)) :
    Except String DesiredManifest := do
  let workspace ← inspectWorkspace repo
  buildDesiredManifest workspace repo.fs classifier

end Sync
end Bitloops
