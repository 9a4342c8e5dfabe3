import Bitloops.Daemon.Task
import Bitloops.Foundation.OrderBy

/-!
# Payloads of the DevQL producer spool

Git hooks and the watcher hand work to the daemon as jobs in a spool.  A job carries a
payload, and an enqueue whose dedupe key matches a pending job is merged into that job.
This file models the payloads, the pruning of excluded paths and the merge.

`carriedPaths` and `covers` say which paths a payload asks for: the merge of two path syncs
of one source and the merge of two post-merge refreshes are unions (`unions`), and every
other merge keeps the incoming payload only.
-/

namespace Bitloops
namespace ProducerSpool

open Daemon

inductive ProducerSpoolJobPayload where
  | task (source : DevqlTaskSource) (spec : DevqlTaskSpec)
  | postCommitRefresh (commitSha : String) (changedFiles : List String)
  | postCommitDerivation (commitSha : String) (committedFiles : List String)
      (isRebaseInProgress : Bool)
  | postMergeRefresh (headSha : String) (changedFiles : List String)
  | postMergeSyncRefresh (mergeHeadSha : String) (changedFiles : List String) (isSquash : Bool)
  | postMergeIngestBackfill (mergeHeadSha : String) (isSquash : Bool)
  | prePushSync (remote : String) (stdinLines : List String)
  deriving DecidableEq, Repr

/-- `RepoExclusionMatcher::excludes_repo_relative_path`, as the set of paths it excludes. -/
abbrev RepoExclusionMatcher := String → Bool

/-- The paths that are left after the exclusions; `none` when no path is left. -/
def prunePaths (matcher : RepoExclusionMatcher) (paths : List String) : Option (List String) :=
  let kept := paths.filter fun path => !matcher path
  if kept.isEmpty then none else some kept

/-- `prune_excluded_paths_from_payload`. -/
def pruneExcludedPathsFromPayload (matcher : RepoExclusionMatcher) :
    ProducerSpoolJobPayload → Option ProducerSpoolJobPayload
  | .task source (.sync { mode := .paths paths, .. }) =>
    (prunePaths matcher paths).map fun paths =>
      .task source (.sync { mode := .paths paths, postCommitSnapshot := none })
  | .postCommitRefresh commitSha changedFiles =>
    (prunePaths matcher changedFiles).map (.postCommitRefresh commitSha)
  | .postMergeRefresh headSha changedFiles =>
    (prunePaths matcher changedFiles).map (.postMergeRefresh headSha)
  | .postMergeSyncRefresh mergeHeadSha changedFiles isSquash =>
    (prunePaths matcher changedFiles).map fun changedFiles =>
      .postMergeSyncRefresh mergeHeadSha changedFiles isSquash
  | payload => some payload

/-- `merge_pending_payload`. -/
def mergePendingPayload :
    ProducerSpoolJobPayload → ProducerSpoolJobPayload → ProducerSpoolJobPayload
  | .task existingSource (.sync { mode := .paths existingPaths, .. }),
    incoming@(.task incomingSource (.sync { mode := .paths incomingPaths, .. })) =>
    if existingSource = incomingSource then
      .task existingSource
        (.sync
          { mode := .paths (sortDedup (existingPaths ++ incomingPaths))
            postCommitSnapshot := none })
    else incoming
  | .postMergeSyncRefresh mergeHeadSha existingPaths existingIsSquash,
    .postMergeSyncRefresh _ incomingPaths incomingIsSquash =>
    .postMergeSyncRefresh mergeHeadSha (sortDedup (existingPaths ++ incomingPaths))
      (existingIsSquash || incomingIsSquash)
  | _, incoming => incoming

/-- The paths that a payload names. -/
def carriedPaths : ProducerSpoolJobPayload → List String
  | .task _ (.sync { mode := .paths paths, .. }) => paths
  | .task _ _ => []
  | .postCommitRefresh _ changedFiles => changedFiles
  | .postCommitDerivation _ committedFiles _ => committedFiles
  | .postMergeRefresh _ changedFiles => changedFiles
  | .postMergeSyncRefresh _ changedFiles _ => changedFiles
  | .postMergeIngestBackfill _ _ => []
  | .prePushSync _ _ => []

/-- A full sync covers every path, any other payload the paths it names. -/
def covers : ProducerSpoolJobPayload → String → Prop
  | .task _ (.sync { mode := .full, .. }), _ => True
  | payload, path => path ∈ carriedPaths payload

/-- The kinds of payload whose pending and incoming paths the merge unites: path syncs,
source by source, and post-merge refreshes. -/
def unionClass : ProducerSpoolJobPayload → Option (Option DevqlTaskSource)
  | .task source (.sync { mode := .paths _, .. }) => some (some source)
  | .postMergeSyncRefresh _ _ _ => some none
  | _ => none

/-- The pairs whose paths the merge unites. -/
def unions (existing incoming : ProducerSpoolJobPayload) : Prop :=
  unionClass existing ≠ none ∧ unionClass existing = unionClass incoming

instance (existing incoming : ProducerSpoolJobPayload) : Decidable (unions existing incoming) :=
  inferInstanceAs (Decidable (_ ∧ _))

/-! ## Pruning and merging, path by path -/

theorem prunePaths_eq_some {matcher : RepoExclusionMatcher} {paths kept : List String} :
    prunePaths matcher paths = some kept ↔
      kept ≠ [] ∧ paths.filter (fun path => !matcher path) = kept := by
  unfold prunePaths
  by_cases h : paths.filter (fun path => !matcher path) = []
  · simp only [h, List.isEmpty_nil, if_true]
    constructor
    · intro hnone
      cases hnone
    · rintro ⟨hne, rfl⟩
      exact absurd rfl hne
  · simp only [List.isEmpty_iff, h, if_false, Option.some.injEq]
    constructor
    · rintro rfl
      exact ⟨h, rfl⟩
    · exact fun hkept => hkept.2

theorem prunePaths_eq_none {matcher : RepoExclusionMatcher} {paths : List String} :
    prunePaths matcher paths = none ↔ ∀ path ∈ paths, matcher path = true := by
  simp [prunePaths]

/-- Pruning keeps the kind of a payload, and of its coverage exactly what is not excluded. -/
theorem prune_some {matcher : RepoExclusionMatcher} {payload pruned : ProducerSpoolJobPayload}
    (h : pruneExcludedPathsFromPayload matcher payload = some pruned) :
    unionClass pruned = unionClass payload ∧
      ∀ path, matcher path = false → (covers pruned path ↔ covers payload path) := by
  unfold pruneExcludedPathsFromPayload at h
  split at h
  case h_5 => cases h; exact ⟨rfl, fun _ _ => Iff.rfl⟩
  all_goals
    obtain ⟨kept, hkept, rfl⟩ := Option.map_eq_some_iff.mp h
    obtain ⟨-, rfl⟩ := prunePaths_eq_some.mp hkept
    refine ⟨rfl, fun path hpath => ?_⟩
    simp [covers, carriedPaths, hpath]

/-- A payload is pruned away only when all it covers is excluded. -/
theorem prune_none {matcher : RepoExclusionMatcher} {payload : ProducerSpoolJobPayload}
    (h : pruneExcludedPathsFromPayload matcher payload = none) :
    ∀ path, matcher path = false → ¬ covers payload path := by
  intro path hpath hcovers
  unfold pruneExcludedPathsFromPayload at h
  split at h
  case h_5 => cases h
  all_goals
    rw [Option.map_eq_none_iff, prunePaths_eq_none] at h
    have hexcluded := h path hcovers
    rw [hpath] at hexcluded
    cases hexcluded

theorem unionClass_eq_some {payload : ProducerSpoolJobPayload} {c : Option DevqlTaskSource}
    (h : unionClass payload = some c) :
    (∃ source paths snapshot,
      payload = .task source (.sync { mode := .paths paths, postCommitSnapshot := snapshot }) ∧
        c = some source) ∨
      ∃ head files squash, payload = .postMergeSyncRefresh head files squash ∧ c = none := by
  unfold unionClass at h
  split at h
  · cases h
    exact .inl ⟨_, _, _, rfl, rfl⟩
  · cases h
    exact .inr ⟨_, _, _, rfl, rfl⟩
  · cases h

/-- Where the merge unites, the merged payload covers what either payload covers. -/
theorem merge_of_unions {existing incoming : ProducerSpoolJobPayload}
    (h : unions existing incoming) :
    unionClass (mergePendingPayload existing incoming) = unionClass incoming ∧
      ∀ path, covers (mergePendingPayload existing incoming) path ↔
        covers existing path ∨ covers incoming path := by
  obtain ⟨hne, heq⟩ := h
  obtain ⟨c, hc⟩ := Option.ne_none_iff_exists'.mp hne
  rcases unionClass_eq_some hc with ⟨s, p, snap, rfl, hs⟩ | ⟨head, files, squash, rfl, hs⟩ <;>
    rcases unionClass_eq_some (heq.symm.trans hc) with ⟨s', p', snap', rfl, hs'⟩ |
      ⟨head', files', squash', rfl, hs'⟩
  · have hsource : s = s' := by simpa [hs] using hs'
    simp [mergePendingPayload, hsource, unionClass, covers, carriedPaths]
  · cases hs.symm.trans hs'
  · cases hs.symm.trans hs'
  · simp [mergePendingPayload, unionClass, covers, carriedPaths]

/-- Elsewhere the merge keeps the incoming payload only. -/
theorem merge_of_not_unions {existing incoming : ProducerSpoolJobPayload}
    (h : ¬ unions existing incoming) : mergePendingPayload existing incoming = incoming := by
  unfold mergePendingPayload
  split
  · rename_i existingSource _ _ incomingSource _ _
    rw [if_neg]
    rintro rfl
    exact h ⟨by simp [unionClass], rfl⟩
  · exact absurd ⟨by simp [unionClass], rfl⟩ h
  · rfl

end ProducerSpool
end Bitloops
