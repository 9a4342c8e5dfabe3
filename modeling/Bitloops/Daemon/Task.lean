import Mathlib.Data.Nat.Notation

/-!
# DevQL tasks

The task vocabulary that the daemon's task queue and the producer spool share: kinds,
sources, sync modes and task specifications.
-/

namespace Bitloops
namespace Daemon

inductive DevqlTaskKind where
  | sync
  | ingest
  | embeddingsBootstrap
  | summaryBootstrap
  deriving DecidableEq, Repr

inductive DevqlTaskSource where
  | init
  | manualCli
  | watcher
  | postCommit
  | postMerge
  | postCheckout
  | repoPolicyChange
  deriving DecidableEq, Repr

/-- The `Display` form of a source. -/
def DevqlTaskSource.display : DevqlTaskSource → String
  | .init => "init"
  | .manualCli => "manual_cli"
  | .watcher => "watcher"
  | .postCommit => "post_commit"
  | .postMerge => "post_merge"
  | .postCheckout => "post_checkout"
  | .repoPolicyChange => "repo_policy_change"

inductive SyncTaskMode where
  | auto
  | full
  | paths (paths : List String)
  | repair
  | validate
  deriving DecidableEq, Repr

inductive DevqlTaskStatus where
  | queued
  | running
  | completed
  | failed
  | cancelled
  deriving DecidableEq, Repr

structure PostCommitSnapshotSpec where
  commitSha : String
  changedPaths : List String
  deriving DecidableEq, Repr

structure SyncTaskSpec where
  mode : SyncTaskMode
  postCommitSnapshot : Option PostCommitSnapshotSpec
  deriving DecidableEq, Repr

structure IngestTaskSpec where
  commits : List String
  backfill : Option ℕ
  deriving DecidableEq, Repr

inductive EmbeddingsBootstrapMode where
  | local
  | platform
  deriving DecidableEq, Repr

structure EmbeddingsBootstrapTaskSpec where
  configPath : String
  profileName : String
  mode : EmbeddingsBootstrapMode
  gatewayUrlOverride : Option String
  apiKeyEnv : Option String
  deriving DecidableEq, Repr

inductive SummaryBootstrapAction where
  | installRuntimeOnly
  | installRuntimeOnlyPendingProbe
  | configureLocal
  | configureCloud
  deriving DecidableEq, Repr

structure SummaryBootstrapRequest where
  action : SummaryBootstrapAction
  message : Option String
  modelName : Option String
  gatewayUrlOverride : Option String
  apiKeyEnv : Option String
  deriving DecidableEq, Repr

inductive DevqlTaskSpec where
  | sync (spec : SyncTaskSpec)
  | ingest (spec : IngestTaskSpec)
  | embeddingsBootstrap (spec : EmbeddingsBootstrapTaskSpec)
  | summaryBootstrap (request : SummaryBootstrapRequest)
  deriving DecidableEq, Repr

/-- A task of the daemon's queue, without its progress and result. -/
structure DevqlTaskRecord where
  taskId : String
  repoId : String
  initSessionId : Option String
  kind : DevqlTaskKind
  source : DevqlTaskSource
  spec : DevqlTaskSpec
  status : DevqlTaskStatus
  submittedAtUnix : ℕ
  startedAtUnix : Option ℕ
  updatedAtUnix : ℕ
  completedAtUnix : Option ℕ
  error : Option String
  deriving DecidableEq, Repr

/-- The sync specification of a task, if it is a sync task. -/
def DevqlTaskSpec.syncSpec? : DevqlTaskSpec → Option SyncTaskSpec
  | .sync spec => some spec
  | .ingest _ | .embeddingsBootstrap _ | .summaryBootstrap _ => none

/-- Queued or running. -/
def DevqlTaskStatus.isLive : DevqlTaskStatus → Bool
  | .queued | .running => true
  | .completed | .failed | .cancelled => false

end Daemon
end Bitloops
