import Mathlib.Data.Nat.Notation

/-!
# What the capability host exchanges with its consumers

The diffs a sync emits, the reconcile request a current-state consumer receives and the
result it reports, and the mailboxes that the capability packs register.
-/

namespace Bitloops
namespace CapabilityHost

structure ChangedFile where
  path : String
  language : String
  contentId : String
  deriving DecidableEq, Repr

structure RemovedFile where
  path : String
  deriving DecidableEq, Repr

structure SyncFileDiff where
  added : List ChangedFile
  changed : List ChangedFile
  removed : List RemovedFile
  deriving DecidableEq, Repr

structure ChangedArtefact where
  artefactId : String
  symbolId : String
  path : String
  canonicalKind : Option String
  name : String
  deriving DecidableEq, Repr

structure RemovedArtefact where
  artefactId : String
  symbolId : String
  path : String
  deriving DecidableEq, Repr

structure SyncArtefactDiff where
  added : List ChangedArtefact
  changed : List ChangedArtefact
  removed : List RemovedArtefact
  deriving DecidableEq, Repr

inductive ReconcileMode where
  | mergedDelta
  | fullReconcile
  deriving DecidableEq, Repr

structure CurrentStateConsumerRequest where
  runId : Option ℕ
  repoId : String
  repoRoot : String
  activeBranch : Option String
  headCommitSha : Option String
  fromGenerationSeqExclusive : ℕ
  toGenerationSeqInclusive : ℕ
  reconcileMode : ReconcileMode
  fileUpserts : List ChangedFile
  fileRemovals : List RemovedFile
  affectedPaths : List String
  artefactUpserts : List ChangedArtefact
  artefactRemovals : List RemovedArtefact
  deriving DecidableEq, Repr

structure CurrentStateConsumerResult where
  appliedToGenerationSeq : ℕ
  deriving DecidableEq, Repr

/-! ## Mailbox registrations -/

inductive CapabilityMailboxPolicy where
  | cursor
  | job
  deriving DecidableEq, Repr

inductive CapabilityMailboxInitPolicy where
  | background
  | blocksInitCompletion
  deriving DecidableEq, Repr

inductive CapabilityMailboxHandler where
  | currentStateConsumer (handlerId : String)
  | ingester (ingesterId : String)
  deriving DecidableEq, Repr

structure CapabilityMailboxRegistration where
  capabilityId : String
  mailboxName : String
  policy : CapabilityMailboxPolicy
  handler : CapabilityMailboxHandler
  initPolicy : CapabilityMailboxInitPolicy
  deriving DecidableEq, Repr

end CapabilityHost
end Bitloops
