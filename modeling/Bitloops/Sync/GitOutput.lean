import Bitloops.Daemon.SyncMode
import Bitloops.Foundation.Records
import Bitloops.Foundation.UniqueTable

/-!
# Trees and what git prints about them

The state of a repository is three trees: that of HEAD, the index and the worktree.  An entry of
a tree names its content by the identifier that git gives it.  The outputs of the git commands
are computed from the trees, in the formats of `-z`.
-/

namespace Bitloops
namespace Sync

/-! ## Trees -/

inductive EntryMode where
  | regular
  | executable
  | symlink
  | gitlink
  deriving DecidableEq, Repr

def EntryMode.text : EntryMode → List Char
  | .regular => "100644".toList
  | .executable => "100755".toList
  | .symlink => "120000".toList
  | .gitlink => "160000".toList

def EntryMode.objectType : EntryMode → List Char
  | .gitlink => "commit".toList
  | _ => "blob".toList

/-- A regular file, executable or not. -/
def EntryMode.isFile : EntryMode → Bool
  | .regular | .executable => true
  | .symlink | .gitlink => false

structure TreeEntry where
  mode : EntryMode
  oid : String
  deriving DecidableEq, Repr

def nul : Char := Char.ofNat 0

/-- An entry under its path; a path has no NUL, an identifier neither NUL nor white space. -/
structure TreeRow where
  path : String
  entry : TreeEntry
  path_nonempty : path.toList ≠ []
  path_chars : ∀ c ∈ path.toList, decide (c = nul) = false
  oid_nonempty : entry.oid.toList ≠ []
  oid_chars : ∀ c ∈ entry.oid.toList, Daemon.isWhitespace c = false ∧ c ≠ nul

abbrev Tree := UniqueTable TreeRow TreeRow.path

def entryAt (tree : Tree) (path : String) : Option TreeEntry :=
  (findRow TreeRow.path path tree.rows).map (·.entry)

/-! ## Outputs -/

/-- The mode and the identifier that stand for a missing entry. -/
def missingMode : List Char := "000000".toList
def missingOid : List Char := "0000000000000000000000000000000000000000".toList

def modeText (entry : Option TreeEntry) : List Char := (entry.map (·.mode.text)).getD missingMode

def oidText (entry : Option TreeEntry) : List Char := (entry.map (·.oid.toList)).getD missingOid

/-- `git ls-tree -rz --full-tree HEAD`. -/
def lsTreeOutput (head : Tree) : List Char :=
  head.rows.flatMap fun row =>
    row.entry.mode.text ++ ' ' :: row.entry.mode.objectType ++ ' ' :: row.entry.oid.toList ++
      '\t' :: row.path.toList ++ [nul]

/-- The status of a change: added, deleted, modified, or of another type. -/
inductive ChangeStatus where
  | added
  | deleted
  | modified
  | typeChanged
  deriving DecidableEq, Repr

def ChangeStatus.letter : ChangeStatus → Char
  | .added => 'A'
  | .deleted => 'D'
  | .modified => 'M'
  | .typeChanged => 'T'

/-- The types of two modes: a regular file, a symbolic link or a link to a commit. -/
def EntryMode.sameType : EntryMode → EntryMode → Bool
  | .regular, .regular | .regular, .executable => true
  | .executable, .regular | .executable, .executable => true
  | .symlink, .symlink => true
  | .gitlink, .gitlink => true
  | _, _ => false

/-- The status of a path between two trees. -/
def changeStatus : Option TreeEntry → Option TreeEntry → Option ChangeStatus
  | none, none => none
  | none, some _ => some .added
  | some _, none => some .deleted
  | some before, some after =>
    if before = after then none
    else if before.mode.sameType after.mode then some .modified
    else some .typeChanged

/-- The rows of both trees, each path once. -/
def allRows (before after : Tree) : List TreeRow :=
  before.rows ++ after.rows.filter fun row => (entryAt before row.path).isNone

/-- The fields of a raw change, and its path. -/
def rawChange (before after : Option TreeEntry) (status : ChangeStatus) (path : String) :
    List Char :=
  ':' :: modeText before ++ ' ' :: modeText after ++ ' ' :: oidText before ++
    ' ' :: oidText after ++ ' ' :: [status.letter, nul] ++ path.toList ++ [nul]

/-- `git diff-index --cached --raw --no-renames --diff-filter=ADM -z HEAD`. -/
def diffIndexOutput (head index : Tree) : List Char :=
  (allRows head index).flatMap fun row =>
    match changeStatus (entryAt head row.path) (entryAt index row.path) with
    | none | some .typeChanged => []
    | some status => rawChange (entryAt head row.path) (entryAt index row.path) status row.path

/-- `git ls-files --stage -z`, without conflicts. -/
def lsFilesStageOutput (index : Tree) : List Char :=
  index.rows.flatMap fun row =>
    row.entry.mode.text ++ ' ' :: row.entry.oid.toList ++ ' ' :: '0' ::
      '\t' :: row.path.toList ++ [nul]

/-- `git diff --name-only -z`: the tracked paths that the worktree has otherwise or not at all. -/
def diffOutput (index worktree : Tree) : List Char :=
  (index.rows.filter fun row => entryAt worktree row.path ≠ some row.entry).flatMap fun row =>
    row.path.toList ++ [nul]

/-- `git ls-files --others --exclude-standard -z`; a repository inside the worktree is listed as
a directory. -/
def lsFilesOthersOutput (index worktree : Tree) (ignored : String → Bool) : List Char :=
  (worktree.rows.filter fun row => (entryAt index row.path).isNone && !ignored row.path).flatMap
    fun row =>
      row.path.toList ++ (if row.entry.mode = .gitlink then ['/'] else []) ++ [nul]

/-- The output that `run_git` returns is trimmed. -/
def trimOutput (output : List Char) : List Char :=
  ((output.dropWhile Daemon.isWhitespace).reverse.dropWhile Daemon.isWhitespace).reverse

end Sync
end Bitloops
