import Mathlib.Data.List.Basic
import Bitloops.Daemon.Task
import Bitloops.Foundation.OrderBy

/-!
# Sync modes

How the task queue compares and merges the modes of two sync requests, and how an execution
changes the mode of its task.  `Covers` is the abstract order that these operations respect:
a repair covers a full sync, a full sync covers an automatic one, each of them covers every
path request, and a path sync covers the requests whose paths it contains.
-/

namespace Bitloops
namespace Daemon

def isFullLike : SyncTaskMode → Bool
  | .auto | .full => true
  | _ => false

def isWeakerThanRepair : SyncTaskMode → Bool
  | .auto | .full | .paths _ => true
  | _ => false

def isStrongerThanPaths : SyncTaskMode → Bool
  | .auto | .full | .repair => true
  | _ => false

def SyncTaskMode.isPaths : SyncTaskMode → Bool
  | .paths _ => true
  | _ => false

def mergeSyncModes : SyncTaskMode → SyncTaskMode → SyncTaskMode
  | .repair, _ | _, .repair => .repair
  | .full, _ | _, .full => .full
  | .auto, _ => .auto
  | _, mode => mode

/-! ## Normalised paths -/

/-- The characters with the Unicode property `White_Space`. -/
def isWhitespace (c : Char) : Bool :=
  (0x9 ≤ c.toNat && c.toNat ≤ 0xD) || c.toNat = 0x20 || c.toNat = 0x85 || c.toNat = 0xA0 ||
    c.toNat = 0x1680 || (0x2000 ≤ c.toNat && c.toNat ≤ 0x200A) || c.toNat = 0x2028 ||
    c.toNat = 0x2029 || c.toNat = 0x202F || c.toNat = 0x205F || c.toNat = 0x3000

/-- `while normalized.starts_with("./")`. -/
def stripDotSlash : List Char → List Char
  | '.' :: '/' :: rest => stripDotSlash rest
  | chars => chars

def normalizeRepoPath (path : String) : String :=
  let trimmed :=
    ((path.toList.dropWhile isWhitespace).reverse.dropWhile isWhitespace).reverse
  let slashed := trimmed.map fun c => if c = '\\' then '/' else c
  String.ofList ((stripDotSlash slashed).dropWhile (· = '/'))

def normalizePaths (paths : List String) : List String :=
  sortDedup ((paths.map normalizeRepoPath).filter (· ≠ ""))

/-- `effective_sync_mode_after_schema_preparation`: a path sync becomes a repair if the remote
current state was rebuilt. -/
def effectiveSyncMode (mode : SyncTaskMode) (remoteCurrentStateRebuilt : Bool) : SyncTaskMode :=
  match mode with
  | .paths paths => if remoteCurrentStateRebuilt then .repair else .paths paths
  | other => other

/-- `sync_task_mode_from_host`. -/
def syncTaskModeFromHost : SyncTaskMode → SyncTaskMode
  | .paths paths => .paths (normalizePaths paths)
  | other => other

/-! ## Coverage -/

/-- An execution in the first mode does what a request in the second one asks for. -/
def SyncTaskMode.Covers : SyncTaskMode → SyncTaskMode → Prop
  | _, .validate => False
  | .repair, _ => True
  | .full, .full | .full, .auto | .full, .paths _ => True
  | .auto, .auto | .auto, .paths _ => True
  | .paths synced, .paths requested => ∀ path ∈ requested, path ∈ synced
  | _, _ => False

namespace SyncTaskMode

variable {a b c : SyncTaskMode}

instance : DecidableRel Covers := fun a b => by
  cases a <;> cases b <;> unfold Covers <;> infer_instance

theorem Covers.refl (h : a ≠ .validate) : a.Covers a := by
  cases a with
  | validate => exact absurd rfl h
  | paths paths => exact fun _ => id
  | auto | full | repair => trivial

theorem Covers.trans (hab : a.Covers b) (hbc : b.Covers c) : a.Covers c := by
  cases a <;> cases b <;> cases c <;>
    first
    | exact hab.elim
    | exact hbc.elim
    | trivial
    | exact fun path hpath => hab path (hbc path hpath)

/-- What an execution really runs covers what its task asked for. -/
theorem covers_effectiveSyncMode (h : a ≠ .validate) (rebuilt : Bool) :
    (effectiveSyncMode a rebuilt).Covers a := by
  cases a with
  | paths paths =>
    cases rebuilt with
    | false => exact Covers.refl h
    | true => trivial
  | validate => exact absurd rfl h
  | auto | full | repair => exact Covers.refl h

end SyncTaskMode

/-- The cases in which a task absorbs a request of any mode. -/
def absorbsMode (status : DevqlTaskStatus) (existing incoming : SyncTaskMode) : Bool :=
  match existing, incoming with
  | .repair, _ => true
  | .paths _, incoming => status = .queued && isStrongerThanPaths incoming
  | existing, incoming => isFullLike existing && isWeakerThanRepair incoming

/-- Absorbing a request leaves a mode that covers it and everything that was covered before. -/
theorem covers_mergeSyncModes {status : DevqlTaskStatus} {existing incoming : SyncTaskMode}
    (h : absorbsMode status existing incoming = true) (hincoming : incoming ≠ .validate) :
    (mergeSyncModes existing incoming).Covers incoming ∧
      ∀ mode, existing.Covers mode → (mergeSyncModes existing incoming).Covers mode := by
  have hexisting : (mergeSyncModes existing incoming).Covers existing ∧
      (mergeSyncModes existing incoming).Covers incoming := by
    cases existing <;> cases incoming <;>
      first
      | exact absurd rfl hincoming
      | exact ⟨trivial, trivial⟩
      | simp [absorbsMode, isFullLike, isWeakerThanRepair, isStrongerThanPaths] at h
  exact ⟨hexisting.2, fun mode hmode => hexisting.1.trans hmode⟩

end Daemon
end Bitloops
