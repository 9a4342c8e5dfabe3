import Bitloops.Foundation.LastWins
import Bitloops.Foundation.OrderBy
import Bitloops.Sync.GitOutput

/-!
# Inspecting the workspace

The workspace state is parsed from the outputs of git.  Entries that are not regular files are
left out of the listings of HEAD and of the index, and symbolic links are left out of the
listings of the worktree.
-/

namespace Bitloops
namespace Sync

/-! ## Records -/

def isNul (c : Char) : Bool := c = nul

/-- `output.split('\0').filter(|value| !value.is_empty())`. -/
def records (output : List Char) : List (List Char) := fields isNul output

/-- `split_whitespace`. -/
def splitWhitespace (text : List Char) : List (List Char) := fields Daemon.isWhitespace text

def shouldSkipGitEntry (mode objectType : List Char) : Bool :=
  mode = EntryMode.symlink.text || mode = EntryMode.gitlink.text || objectType ≠ "blob".toList

/-! ## HEAD and the index -/

/-- A record of `read_head_tree`. -/
def headTreeEntry (record : List Char) : Option (String × String) := do
  let (metadata, rawPath) ← splitOnce '\t' record
  match splitWhitespace metadata with
  | mode :: objectType :: oid :: _ =>
    if shouldSkipGitEntry mode objectType || rawPath.isEmpty then none
    else some (String.ofList rawPath, String.ofList oid)
  | _ => none

/-- `read_head_tree`, from the output of git; a map to which the pairs are added in order. -/
def readHeadTree (output : List Char) : List (String × String) :=
  (records output).filterMap headTreeEntry

inductive StagedChange where
  | added (contentId : String)
  | modified (contentId : String)
  | deleted
  deriving DecidableEq, Repr

/-- The change that the fields of a raw record describe. -/
def stagedChange (metadata : List Char) : Option StagedChange :=
  match splitWhitespace metadata with
  | _ :: newMode :: _ :: newSha :: status :: _ =>
    if shouldSkipGitEntry newMode "blob".toList && status ≠ ['D'] then none
    else if status = ['A'] then some (.added (String.ofList newSha))
    else if status = ['M'] then some (.modified (String.ofList newSha))
    else if status = ['D'] then some .deleted
    else none
  | _ => none

/-- `parse_staged_changes_from_diff_index`: records alternate between a change and its path. -/
def parseStagedChangesFromDiffIndex : List (List Char) → List (String × StagedChange)
  | metadata :: path :: rest =>
    match stagedChange metadata with
    | some change => (String.ofList path, change) :: parseStagedChangesFromDiffIndex rest
    | none => parseStagedChangesFromDiffIndex rest
  | _ => []

/-- A record of `parse_staged_changes_from_ls_files`. -/
def lsFilesEntry (record : List Char) : Option (String × StagedChange) := do
  let (metadata, path) ← splitOnce '\t' record
  match splitWhitespace metadata with
  | mode :: sha :: stage :: _ =>
    if path.isEmpty || stage ≠ ['0'] || shouldSkipGitEntry mode "blob".toList then none
    else some (String.ofList path, .added (String.ofList sha))
  | _ => none

def parseStagedChangesFromLsFiles (output : List Char) : List (String × StagedChange) :=
  (records output).filterMap lsFilesEntry

/-! ## The worktree -/

/-- What `symlink_metadata` finds; of a file, the identifier of its content. -/
inductive FileType where
  | file (contentId : String)
  | symlink
  | dir
  deriving DecidableEq, Repr

inductive IoError where
  | notFound
  | other
  deriving DecidableEq, Repr

/-- The file system below the root of the repository. -/
abbrev FileSystem := String → Except IoError FileType

def shouldSkipWorkspacePath (fs : FileSystem) (path : String) (requireExistingFile : Bool) :
    Except String Bool :=
  match fs path with
  | .error .notFound => .ok false
  | .error .other => .error ("reading metadata for `" ++ path ++ "`")
  | .ok .symlink => .ok true
  | .ok .dir => .ok requireExistingFile
  | .ok (.file _) => .ok false

/-- `collect_paths`, before the paths are sorted. -/
def keptPaths (fs : FileSystem) (requireExistingFile : Bool) :
    List String → Except String (List String)
  | [] => .ok []
  | path :: paths => do
    let skip ← shouldSkipWorkspacePath fs path requireExistingFile
    let kept ← keptPaths fs requireExistingFile paths
    return if skip then kept else path :: kept

def collectPaths (fs : FileSystem) (output : List Char) (requireExistingFile : Bool) :
    Except String (List String) := do
  let paths ← keptPaths fs requireExistingFile ((records output).map String.ofList)
  return sortDedup paths

/-! ## The workspace state -/

structure WorkspaceState where
  headTree : List (String × String)
  stagedChanges : List (String × StagedChange)
  dirtyFiles : List String
  untrackedFiles : List String
  deriving DecidableEq, Repr

/-- What the file system finds at an entry of the worktree; a repository is a directory. -/
def TreeEntry.fileType (entry : TreeEntry) : FileType :=
  match entry.mode with
  | .regular | .executable => .file entry.oid
  | .symlink => .symlink
  | .gitlink => .dir

/-- The path leads through the other one. -/
def Below (path ancestor : String) : Prop := ∃ rest, path = ancestor ++ "/" ++ rest

/-- A repository: no HEAD before the first commit; `ignored` is what the exclude patterns match.
The file system has the worktree's entries; where there is none, and none on the way, it finds
nothing or a directory.  Below an entry that is no repository it may fail, or find what a link
leads to. -/
structure Repository where
  head : Option Tree
  index : Tree
  worktree : Tree
  ignored : String → Bool
  fs : FileSystem
  fs_entry : ∀ path entry, entryAt worktree path = some entry → fs path = .ok entry.fileType
  fs_missing : ∀ path, entryAt worktree path = none →
    (∀ ancestor, Below path ancestor → entryAt worktree ancestor = none) →
    fs path = .error .notFound ∨ fs path = .ok .dir
  fs_repository : ∀ path entry, entryAt worktree path = some entry → entry.mode = .gitlink →
    fs (path ++ "/") = .ok .dir

/-- `inspect_workspace`; the outputs of git are those of the trees. -/
def inspectWorkspace (repo : Repository) : Except String WorkspaceState := do
  let headTree :=
    match repo.head with
    | some head => readHeadTree (trimOutput (lsTreeOutput head))
    | none => []
  let stagedChanges :=
    match repo.head with
    | some head =>
      parseStagedChangesFromDiffIndex (records (trimOutput (diffIndexOutput head repo.index)))
    | none => parseStagedChangesFromLsFiles (trimOutput (lsFilesStageOutput repo.index))
  let dirtyFiles ← collectPaths repo.fs (trimOutput (diffOutput repo.index repo.worktree)) false
  let untrackedFiles ← collectPaths repo.fs
    (trimOutput (lsFilesOthersOutput repo.index repo.worktree repo.ignored)) true
  return { headTree, stagedChanges, dirtyFiles, untrackedFiles }

end Sync
end Bitloops
