import Bitloops.Enrichment.MailboxLease

/-!
# Clone rebuilds follow embedding changes

A change of embedding rows is *followed* if a rebuild of its repository started after it, if a
rebuild is pending, or if an item of its chain is still live, whose batches are to signal the
rebuild.  Only the commit of a batch can end that: it deletes the items, and its signal, if it
emits one, is dropped while a rebuild is running.  `RebuildAssured` is the exact condition.
-/

namespace Bitloops
namespace Enrichment

/-! ## What follows a change -/

/-- The chain that an item belongs to. -/
def SemanticMailboxItemInsert.link (item : SemanticMailboxItemInsert) :
    SemanticMailbox × Option String :=
  (item.mailbox, item.dedupeKey)

/-- An item of the chain is live. -/
def LinkLives (t : MailboxTable) (link : SemanticMailbox × Option String) : Prop :=
  ∃ item ∈ t.rows, item.link = link

instance (t : MailboxTable) : DecidablePred (LinkLives t) :=
  fun link => inferInstanceAs (Decidable (∃ item ∈ t.rows, item.link = link))

def WorkplaneJob.isPendingRebuild (job : WorkplaneJob) (repoId : String) : Bool :=
  job.repoId = repoId && job.mailboxName = cloneRebuildMailbox && job.status = .pending

def RebuildPending (t : JobTable) (repoId : String) : Prop :=
  ∃ job ∈ t.rows, job.isPendingRebuild repoId = true

instance (t : JobTable) : DecidablePred (RebuildPending t) :=
  fun repoId => inferInstanceAs (Decidable (∃ job ∈ t.rows, job.isPendingRebuild repoId = true))

/-- The change is followed by a rebuild that has started or is pending, or by its chain. -/
def Followed (w : World) (accepted : Accepted EmbeddingChange) : Prop :=
  accepted.request.repoId ∈ w.rebuilds.drop accepted.startedBefore ∨
    RebuildPending w.jobs accepted.request.repoId ∨
      ∃ link ∈ accepted.request.chain, LinkLives w.items link

instance (w : World) : DecidablePred (Followed w) :=
  fun accepted => inferInstanceAs (Decidable (_ ∨ _ ∨ ∃ link ∈ accepted.request.chain, _))

/-- Every change is followed. -/
def ChangesFollowed (w : World) : Prop := ∀ accepted ∈ w.changes, Followed w accepted

instance (w : World) : Decidable (ChangesFollowed w) :=
  inferInstanceAs (Decidable (∀ accepted ∈ w.changes, _))

/-! ## The condition -/

/-- A rebuild that was signalled, or enqueued in the same way, is running. -/
def RebuildRunning (t : JobTable) (repoId : String) : Prop :=
  ∃ job ∈ t.rows, job.repoId = repoId ∧ job.mailboxName = cloneRebuildMailbox ∧
    job.dedupeKey = some cloneRebuildMailbox ∧ job.status = .running

instance (t : JobTable) : DecidablePred (RebuildRunning t) :=
  fun repoId => inferInstanceAs (Decidable (∃ job ∈ t.rows, job.repoId = repoId ∧ _))

/-- The changes that the commit of the batch makes. -/
def newChanges (w : World) (batch : ClaimedMailboxBatch) (inputs : BatchInputs) :
    List (Accepted EmbeddingChange) :=
  (embeddingChange batch (prepareMailboxBatch batch inputs)).toList.map (⟨·, w.rebuilds.length⟩)

/-- The chain has an item that the finalization does not delete, or the replacement. -/
def LinkSurvives (w : World) (batch : ClaimedMailboxBatch) (inputs : BatchInputs)
    (finalized : Bool) (link : SemanticMailbox × Option String) : Prop :=
  (∃ item ∈ w.items.rows, item.link = link ∧ (finalized = true → batch.holds item = false)) ∨
    (finalized = true ∧
      ∃ insert ∈ (prepareMailboxBatch batch inputs).replacementBackfillItem, insert.link = link)

instance (w : World) (batch : ClaimedMailboxBatch) (inputs : BatchInputs) (finalized : Bool) :
    DecidablePred (LinkSurvives w batch inputs finalized) := fun link =>
  inferInstanceAs (Decidable ((∃ item ∈ w.items.rows, item.link = link ∧ _) ∨
    (_ ∧ ∃ insert ∈ (prepareMailboxBatch batch inputs).replacementBackfillItem,
      insert.link = link)))

/-- The commit signals a rebuild while none is running, or a rebuild is pending, or every change
of the repository is followed by a started rebuild or by an item of its chain. -/
def CommitAssured (w : World) (batch : ClaimedMailboxBatch) (inputs : BatchInputs)
    (finalized : Bool) : Prop :=
  (finalized = true ∧ (prepareMailboxBatch batch inputs).cloneRebuildSignal = true ∧
      ¬ RebuildRunning w.jobs batch.mailbox.repoId) ∨
    RebuildPending w.jobs batch.mailbox.repoId ∨
      ∀ accepted ∈ w.changes ++ newChanges w batch inputs,
        accepted.request.repoId = batch.mailbox.repoId →
          accepted.request.repoId ∈ w.rebuilds.drop accepted.startedBefore ∨
            ∃ link ∈ accepted.request.chain, LinkSurvives w batch inputs finalized link

instance (w : World) (batch : ClaimedMailboxBatch) (inputs : BatchInputs) (finalized : Bool) :
    Decidable (CommitAssured w batch inputs finalized) :=
  inferInstanceAs (Decidable (_ ∨ _ ∨
    ∀ accepted ∈ w.changes ++ newChanges w batch inputs, _ → _ ∨
      ∃ link ∈ accepted.request.chain, LinkSurvives w batch inputs finalized link))

/-- The commits of embedding batches leave no change behind. -/
def RebuildAssured (w : World) : Action → Prop
  | .commitBatch leaseToken inputs _ _ _ finalized _ =>
    ∀ batch ∈ w.inFlight.find? (·.leaseToken = leaseToken),
      batch.mailbox.store ≠ .summaryRefresh → CommitAssured w batch inputs finalized
  | _ => True

instance (w : World) : DecidablePred (RebuildAssured w) := fun action => by
  unfold RebuildAssured
  split <;> infer_instance

/-! ## Items -/

section Items

variable {now : ℕ} {itemId : String} {insert : SemanticMailboxItemInsert} {t t' : MailboxTable}
  {link : SemanticMailbox × Option String}

theorem LinkLives.rewrite {p : SemanticMailboxItem → Bool}
    {f : SemanticMailboxItem → SemanticMailboxItem}
    (hrows : t'.rows = t.rows.map fun item => if p item then f item else item)
    (hcontent : ∀ item, (f item).toSemanticMailboxItemInsert = item.toSemanticMailboxItemInsert)
    (h : LinkLives t link) : LinkLives t' link := by
  obtain ⟨item, hitem, hlink⟩ := h
  refine ⟨if p item then f item else item, ?_, ?_⟩
  · rw [hrows]
    exact List.mem_map_of_mem hitem
  · split_ifs
    · rw [hcontent item]
      exact hlink
    · exact hlink

/-- An enqueue continues the chain of its item, and ends none. -/
theorem linkLives_enqueueMailboxItem (h : enqueueMailboxItem now itemId insert t = some t') :
    LinkLives t' link ↔ LinkLives t link ∨ insert.link = link := by
  unfold LinkLives
  rcases enqueueMailboxItem_cases h with
    ⟨-, hrows⟩ | ⟨existing, hexisting, ⟨-, hmem⟩ | ⟨-, rfl⟩⟩
  · simp only [hrows, List.mem_append, List.mem_singleton, or_and_right, exists_or,
      exists_eq_left]
    rfl
  · obtain ⟨hlive, hmailbox, hkey⟩ := mem_of_loadDedupedMailboxItem hexisting
    have hsame : (refreshMailboxItem now insert existing).link = existing.link := rfl
    have hinsert : insert.link = existing.link := by
      rw [SemanticMailboxItemInsert.link, SemanticMailboxItemInsert.link, hmailbox, hkey]
    constructor
    · rintro ⟨item, hitem, hlink⟩
      rcases (hmem item).mp hitem with ⟨hold, -⟩ | rfl
      · exact .inl ⟨item, hold, hlink⟩
      · exact .inl ⟨existing, hlive, hsame ▸ hlink⟩
    · intro hlink
      have hrefreshed : existing.link = link →
          ∃ item ∈ t'.rows, item.link = link := fun hlink =>
        ⟨_, (hmem _).mpr (.inr rfl), hsame.trans hlink⟩
      rcases hlink with ⟨item, hitem, hlink⟩ | hlink
      · by_cases hid : item.itemId = existing.itemId
        · obtain rfl := UniqueTable.eq_of_key_eq hitem hlive hid
          exact hrefreshed hlink
        · exact ⟨item, (hmem item).mpr (.inl ⟨hitem, hid⟩), hlink⟩
      · exact hrefreshed (hinsert.symm.trans hlink)
  · obtain ⟨hlive, hmailbox, hkey⟩ := mem_of_loadDedupedMailboxItem hexisting
    refine ⟨.inl, fun hlink => hlink.elim id fun hlink => ⟨existing, hlive, ?_⟩⟩
    rw [← hlink, SemanticMailboxItemInsert.link, SemanticMailboxItemInsert.link, hmailbox, hkey]

theorem linkLives_enqueueMailboxItems {items : List (String × SemanticMailboxItemInsert)}
    (h : enqueueMailboxItems now items t = some t') (hlink : LinkLives t link) :
    LinkLives t' link := by
  induction items generalizing t with
  | nil =>
    cases h
    exact hlink
  | cons head rest ih =>
    rw [enqueueMailboxItems, Option.bind_eq_some_iff] at h
    obtain ⟨next, hnext, hrest⟩ := h
    exact ih hrest ((linkLives_enqueueMailboxItem hnext).mpr (.inl hlink))

/-- The chains after the finalization of a batch. -/
theorem linkLives_executeEmbeddingRuntimeFinalization {batch : ClaimedMailboxBatch}
    {request : CommitBatchRequest} {replacementId : String}
    (h : executeEmbeddingRuntimeFinalization batch request replacementId now t = some t') :
    LinkLives t' link ↔
      (∃ item ∈ t.rows, item.link = link ∧ batch.holds item = false) ∨
        ∃ insert ∈ request.replacementBackfillItem, insert.link = link := by
  have hdelete : LinkLives (t.delete batch.holds) link ↔
      ∃ item ∈ t.rows, item.link = link ∧ batch.holds item = false := by
    simp only [LinkLives, UniqueTable.mem_delete]
    exact exists_congr fun item => by tauto
  unfold executeEmbeddingRuntimeFinalization at h
  cases hreplacement : request.replacementBackfillItem with
  | none =>
    simp only [hreplacement, Option.some.injEq] at h
    subst h
    simp [hdelete]
  | some insert =>
    simp only [hreplacement] at h
    rw [linkLives_enqueueMailboxItem h, hdelete]
    simp

end Items

/-! ## Jobs -/

/-- The job is running. -/
def JobRunning (t : JobTable) (jobId : String) : Prop :=
  ∃ job ∈ t.rows, job.jobId = jobId ∧ job.status = .running

section Jobs

variable {now : ℕ} {jobId repoId : String} {t t' : JobTable} {job existing : WorkplaneJob}

theorem RebuildPending.rewrite {p : WorkplaneJob → Bool} {f : WorkplaneJob → WorkplaneJob}
    (hrows : t'.rows = t.rows.map fun job => if p job then f job else job)
    (hkept : ∀ job ∈ t.rows, p job = true → job.isPendingRebuild repoId = true →
      (f job).isPendingRebuild repoId = true)
    (h : RebuildPending t repoId) : RebuildPending t' repoId := by
  obtain ⟨job, hjob, hpending⟩ := h
  refine ⟨if p job then f job else job, ?_, ?_⟩
  · rw [hrows]
    exact List.mem_map_of_mem hjob
  · split_ifs with hp
    · exact hkept job hjob hp hpending
    · exact hpending

theorem JobRunning.rewrite {p : WorkplaneJob → Bool} {f : WorkplaneJob → WorkplaneJob}
    (hrows : t'.rows = t.rows.map fun job => if p job then f job else job)
    (hkept : ∀ job ∈ t.rows, p job = true → job.jobId = jobId → job.status = .running →
      (f job).jobId = jobId ∧ (f job).status = .running)
    (h : JobRunning t jobId) : JobRunning t' jobId := by
  obtain ⟨job, hjob, hid, hrunning⟩ := h
  refine ⟨if p job then f job else job, ?_, ?_⟩
  · rw [hrows]
    exact List.mem_map_of_mem hjob
  · split_ifs with hp
    · exact hkept job hjob hp hid hrunning
    · exact ⟨hid, hrunning⟩

/-- The three outcomes of the upsert of a job. -/
theorem upsertWorkplaneJob_cases {insert : WorkplaneJobInsert} {found : Option WorkplaneJob}
    (h : upsertWorkplaneJob now jobId insert found t = some t') :
    (∃ existing ∈ found, existing.status = .pending ∧
        t'.rows = t.rows.map fun job =>
          if decide (job.jobId = existing.jobId) then
            { job with updatedAtUnix := now, availableAtUnix := now, lastError := none }
          else job) ∨
      (∃ existing ∈ found, existing.status ≠ .pending ∧ t' = t) ∨
        (found = none ∧ ∃ job : WorkplaneJob, t'.rows = t.rows ++ [job] ∧
          job.repoId = insert.repoId ∧ job.mailboxName = insert.mailboxName ∧
            job.status = .pending) := by
  unfold upsertWorkplaneJob at h
  split at h
  · rename_i existing
    split_ifs at h with hpending
    · cases h
      exact .inl ⟨existing, rfl, hpending, rfl⟩
    · cases h
      exact .inr (.inl ⟨existing, rfl, hpending, rfl⟩)
  · exact .inr (.inr ⟨rfl, _, (UniqueTable.insert?_eq_some.mp h).2, rfl, rfl, rfl⟩)

theorem RebuildPending.upsertWorkplaneJob {insert : WorkplaneJobInsert}
    {found : Option WorkplaneJob} (h : RebuildPending t repoId)
    (hupsert : upsertWorkplaneJob now jobId insert found t = some t') :
    RebuildPending t' repoId := by
  rcases upsertWorkplaneJob_cases hupsert with
    ⟨existing, -, -, hrows⟩ | ⟨existing, -, -, rfl⟩ | ⟨-, job, hrows, -⟩
  · exact h.rewrite hrows fun _ _ _ hpending => hpending
  · exact h
  · obtain ⟨other, hother, hpending⟩ := h
    exact ⟨other, hrows ▸ List.mem_append_left _ hother, hpending⟩

theorem JobRunning.upsertWorkplaneJob {insert : WorkplaneJobInsert} {id : String}
    {found : Option WorkplaneJob} (h : JobRunning t id)
    (hupsert : upsertWorkplaneJob now jobId insert found t = some t') : JobRunning t' id := by
  rcases upsertWorkplaneJob_cases hupsert with
    ⟨existing, -, -, hrows⟩ | ⟨existing, -, -, rfl⟩ | ⟨-, job, hrows, -⟩
  · exact h.rewrite hrows fun _ _ _ hid hrunning => ⟨hid, hrunning⟩
  · exact h
  · obtain ⟨other, hother, hid⟩ := h
    exact ⟨other, hrows ▸ List.mem_append_left _ hother, hid⟩

/-- After a signal a rebuild is pending, unless one was running that keeps the signal away. -/
theorem rebuildPending_upsertRuntimeCloneRebuildSignal {signalled : String}
    (h : upsertRuntimeCloneRebuildSignal now jobId signalled t = some t') :
    RebuildPending t' repoId ↔
      RebuildPending t repoId ∨ (repoId = signalled ∧ ¬ RebuildRunning t signalled) := by
  unfold upsertRuntimeCloneRebuildSignal at h
  set live := t.rows.filter fun job => decide (job.repoId = signalled ∧
    job.mailboxName = cloneRebuildMailbox ∧ job.dedupeKey = some cloneRebuildMailbox ∧
      job.isLive) with hlive
  have hmem : ∀ job, job ∈ live ↔ job ∈ t.rows ∧ job.repoId = signalled ∧
      job.mailboxName = cloneRebuildMailbox ∧ job.dedupeKey = some cloneRebuildMailbox ∧
        job.isLive = true := by simp [hlive]
  rcases upsertWorkplaneJob_cases h with
    ⟨existing, hfound, hpending, hrows⟩ | ⟨existing, hfound, hnot, rfl⟩ |
      ⟨hfound, job, hrows, hrepo, hmailbox, hpending⟩
  · obtain ⟨hexisting, -⟩ := orderBy_head? hfound
    obtain ⟨hrow, hrepo, hmailbox, -, -⟩ := (hmem existing).mp hexisting
    have hexistingPending : existing.isPendingRebuild signalled = true := by
      simp [WorkplaneJob.isPendingRebuild, hrepo, hmailbox, hpending]
    constructor
    · rintro ⟨job, hjob, hisPending⟩
      rw [hrows] at hjob
      obtain ⟨old, hold, rfl⟩ := List.mem_map.mp hjob
      refine .inl ⟨old, hold, ?_⟩
      split_ifs at hisPending <;> exact hisPending
    · intro hor
      have hold : RebuildPending t repoId := by
        rcases hor with hold | ⟨rfl, -⟩
        · exact hold
        · exact ⟨existing, hrow, hexistingPending⟩
      exact hold.rewrite hrows fun _ _ _ hpending => hpending
  · -- the job found is running
    obtain ⟨hexisting, -⟩ := orderBy_head? hfound
    obtain ⟨hrow, hrepo, hmailbox, hkey, hisLive⟩ := (hmem existing).mp hexisting
    have hrunning : existing.status = .running := by
      simpa [WorkplaneJob.isLive, hnot] using hisLive
    refine ⟨.inl, ?_⟩
    rintro (hold | ⟨-, hidle⟩)
    · exact hold
    · exact absurd ⟨existing, hrow, hrepo, hmailbox, hkey, hrunning⟩ hidle
  · have hidle : ¬ RebuildRunning t signalled := by
      rintro ⟨running, hrunningRow, hrunningRepo, hrunningMailbox, hkey, hrunning⟩
      have hmember := (hmem running).mpr
        ⟨hrunningRow, hrunningRepo, hrunningMailbox, hkey, by simp [WorkplaneJob.isLive, hrunning]⟩
      rw [orderBy_head?_eq_none.mp hfound] at hmember
      cases hmember
    constructor
    · rintro ⟨other, hother, hisPending⟩
      rw [hrows, List.mem_append, List.mem_singleton] at hother
      rcases hother with hold | rfl
      · exact .inl ⟨other, hold, hisPending⟩
      · right
        simp only [WorkplaneJob.isPendingRebuild, Bool.and_eq_true, decide_eq_true_eq]
          at hisPending
        exact ⟨hisPending.1.1.symm.trans hrepo, hidle⟩
    · rintro (⟨other, hother, hisPending⟩ | ⟨rfl, -⟩)
      · exact ⟨other, hrows ▸ List.mem_append_left _ hother, hisPending⟩
      · refine ⟨job, hrows ▸ List.mem_concat_self, ?_⟩
        simp [WorkplaneJob.isPendingRebuild, hrepo, hmailbox, hpending]

end Jobs

/-! ## The invariant -/

/-- How the records and the claimed jobs fit together. -/
structure Rebuildable (w : World) : Prop where
  leased : Leased w
  started : ∀ accepted ∈ w.changes, accepted.startedBefore ≤ w.rebuilds.length
  /-- A chain belongs to the repository of its change, and to an embedding mailbox. -/
  chains : ∀ accepted ∈ w.changes, ∀ link ∈ accepted.request.chain,
    link.1.repoId = accepted.request.repoId ∧ link.1.store ≠ .summaryRefresh
  executing : ∀ claimed ∈ w.executing, JobRunning w.jobs claimed.jobId

theorem rebuildable_empty : Rebuildable World.empty where
  leased := leased_empty
  started := fun _ h => (List.not_mem_nil h).elim
  chains := fun _ h => (List.not_mem_nil h).elim
  executing := fun _ h => (List.not_mem_nil h).elim

section Steps

variable {now : ℕ} {batch : ClaimedMailboxBatch} {inputs : BatchInputs} {w w' : World}
  {accepted : Accepted EmbeddingChange}

theorem mem_newChanges (h : accepted ∈ newChanges w batch inputs) :
    accepted = ⟨⟨batch.mailbox.repoId, batch.items.map (·.link)⟩, w.rebuilds.length⟩ ∧
      (batch.mailbox.store = .embedding .code ∨ batch.mailbox.store = .embedding .summary) := by
  obtain ⟨change, hchange, rfl⟩ := List.mem_map.mp h
  rw [Option.mem_toList, embeddingChange] at hchange
  split_ifs at hchange with hchanged
  cases hchange
  exact ⟨rfl, hchanged.2⟩

/-- The records and the jobs, when only the items change. -/
theorem Rebuildable.of_items (h : Rebuildable w) (hleased : Leased w')
    (hchanges : w'.changes = w.changes) (hrebuilds : w'.rebuilds = w.rebuilds)
    (hexecuting : ∀ claimed ∈ w'.executing, claimed ∈ w.executing)
    (hjobs : ∀ claimed ∈ w'.executing, JobRunning w.jobs claimed.jobId →
      JobRunning w'.jobs claimed.jobId) : Rebuildable w' where
  leased := hleased
  started := by
    rw [hchanges, hrebuilds]
    exact h.started
  chains := by
    rw [hchanges]
    exact h.chains
  executing := fun claimed hclaimed =>
    hjobs claimed hclaimed (h.executing claimed (hexecuting claimed hclaimed))

/-- The changes stay followed if no work is lost and no rebuild starts. -/
theorem ChangesFollowed.of_kept (h : ChangesFollowed w) (hchanges : w'.changes = w.changes)
    (hrebuilds : w'.rebuilds = w.rebuilds)
    (hjobs : ∀ repoId, RebuildPending w.jobs repoId → RebuildPending w'.jobs repoId)
    (hitems : ∀ link, LinkLives w.items link → LinkLives w'.items link) :
    ChangesFollowed w' := by
  intro accepted hmem
  rw [hchanges] at hmem
  unfold Followed
  rw [hrebuilds]
  refine (h accepted hmem).imp_right (Or.imp (hjobs _) ?_)
  rintro ⟨link, hlink, hlives⟩
  exact ⟨link, hlink, hitems link hlives⟩

/-- Only rows of its own mailbox are deleted with a batch. -/
theorem holds_eq_false (h : Leased w) (hbatch : batch ∈ w.inFlight) {item : SemanticMailboxItem}
    (hitem : item ∈ w.items.rows) (hmailbox : item.mailbox ≠ batch.mailbox) :
    batch.holds item = false := by
  cases hholds : batch.holds item with
  | false => rfl
  | true =>
    simp only [ClaimedMailboxBatch.holds, Bool.and_eq_true, decide_eq_true_eq] at hholds
    have hmine := h.snapshot batch hbatch item hitem hholds.1
    exact absurd (h.mailboxes batch hbatch item hmine) hmailbox

/-- What the commit of an embedding batch does to the changes, the jobs and the chains. -/
theorem commitBatch_effects {representationKind : EmbeddingRepresentationKind}
    {itemIds : String → String} {replacementId jobId : String} {finalized : Bool}
    (hstore : batch.mailbox.store = .embedding representationKind)
    (h : commitBatch w batch inputs itemIds replacementId jobId finalized now = some w') :
    w'.changes = w.changes ++ newChanges w batch inputs ∧ w'.rebuilds = w.rebuilds ∧
      (∀ repoId, RebuildPending w'.jobs repoId ↔ RebuildPending w.jobs repoId ∨
        (repoId = batch.mailbox.repoId ∧ finalized = true ∧
          (prepareMailboxBatch batch inputs).cloneRebuildSignal = true ∧
            ¬ RebuildRunning w.jobs batch.mailbox.repoId)) ∧
      ∀ link, LinkLives w'.items link ↔ LinkSurvives w batch inputs finalized link := by
  rcases commitBatch_embedding_cases hstore h with
    ⟨rfl, rfl⟩ | ⟨rfl, jobs, items, hjobs, hitems, rfl⟩
  · refine ⟨rfl, rfl, fun repoId => ?_, fun link => ?_⟩
    · simp
    · simp [LinkSurvives, LinkLives]
  · refine ⟨rfl, rfl, fun repoId => ?_, fun link => ?_⟩
    · split_ifs at hjobs with hsignal
      · rw [rebuildPending_upsertRuntimeCloneRebuildSignal hjobs]
        simp [hsignal]
      · cases hjobs
        simp [hsignal]
    · rw [linkLives_executeEmbeddingRuntimeFinalization hitems]
      simp [LinkSurvives]

/-- Changes are followed after the commit of an embedding batch only if it was assured. -/
theorem CommitAssured.of_changesFollowed {representationKind : EmbeddingRepresentationKind}
    {itemIds : String → String} {replacementId jobId : String} {finalized : Bool}
    (hstore : batch.mailbox.store = .embedding representationKind)
    (hcommit : commitBatch w batch inputs itemIds replacementId jobId finalized now = some w')
    (hafter : ChangesFollowed w') : CommitAssured w batch inputs finalized := by
  obtain ⟨hchanges, hrebuilds, hjobs, hitems⟩ := commitBatch_effects hstore hcommit
  simp only [ChangesFollowed, Followed, hchanges, hrebuilds, hjobs, hitems] at hafter
  refine or_iff_not_imp_left.mpr fun hunsignalled => or_iff_not_imp_left.mpr fun hnone => ?_
  intro accepted hmem hrepo
  rcases hafter accepted hmem with hstarted | (hpending | ⟨-, hsignalled⟩) | hlink
  · exact .inl hstarted
  · exact absurd (hrepo ▸ hpending) hnone
  · exact absurd hsignalled hunsignalled
  · exact .inr hlink

/-- The commit of an embedding batch keeps the changes followed if it is assured. -/
theorem ChangesFollowed.commitEmbeddingBatch {representationKind : EmbeddingRepresentationKind}
    {itemIds : String → String} {replacementId jobId : String} {finalized : Bool}
    (h : Rebuildable w) (hbatch : batch ∈ w.inFlight) (hfollowed : ChangesFollowed w)
    (hstore : batch.mailbox.store = .embedding representationKind)
    (hassured : CommitAssured w batch inputs finalized)
    (hcommit : commitBatch w batch inputs itemIds replacementId jobId finalized now = some w') :
    ChangesFollowed w' := by
  obtain ⟨hchanges, hrebuilds, hjobs, hitems⟩ := commitBatch_effects hstore hcommit
  unfold ChangesFollowed Followed
  simp only [hchanges, hrebuilds, hjobs, hitems]
  intro accepted hmem
  by_cases hrepo : accepted.request.repoId = batch.mailbox.repoId
  · rcases hassured with hsignalled | hpending | hothers
    · exact .inr (.inl (.inr ⟨hrepo, hsignalled⟩))
    · exact .inr (.inl (.inl (hrepo ▸ hpending)))
    · exact (hothers accepted hmem hrepo).imp_right .inr
  · -- the batch has no item in the chain of another repository
    rcases List.mem_append.mp hmem with hold | hnew
    · rcases hfollowed accepted hold with hstarted | hpending | ⟨link, hlink, item, hitem, rfl⟩
      · exact .inl hstarted
      · exact .inr (.inl (.inl hpending))
      · refine .inr (.inr ⟨item.link, hlink, .inl ⟨item, hitem, rfl, fun _ => ?_⟩⟩)
        refine holds_eq_false h.leased hbatch hitem fun hmailbox => hrepo ?_
        rw [← (h.chains accepted hold item.link hlink).1, ← hmailbox]
        rfl
    · rw [(mem_newChanges hnew).1] at hrepo
      exact absurd rfl hrepo

/-- The commit of a summary batch ends no chain. -/
theorem ChangesFollowed.commitSummaryBatch {itemIds : String → String}
    {replacementId jobId : String} {finalized : Bool} (h : Rebuildable w)
    (hbatch : batch ∈ w.inFlight) (hfollowed : ChangesFollowed w)
    (hstore : batch.mailbox.store = .summaryRefresh)
    (hcommit : commitBatch w batch inputs itemIds replacementId jobId finalized now = some w') :
    ChangesFollowed w' := by
  obtain ⟨items, hitems, rfl⟩ := commitBatch_summary_cases hstore hcommit
  obtain ⟨t₁, hfollowUps, t₂, rfl, hrows⟩ := executeSummaryCommit_cases hitems
  intro accepted hmem
  refine (hfollowed accepted hmem).imp_right (Or.imp_right ?_)
  rintro ⟨link, hlink, hlives⟩
  obtain ⟨item, hitem, hitemLink⟩ := linkLives_enqueueMailboxItems hfollowUps hlives
  refine ⟨link, hlink, item, UniqueTable.mem_delete.mpr
    ⟨hrows ▸ List.mem_append_left _ hitem, ?_⟩, hitemLink⟩
  cases hholds : batch.holds item with
  | false => rfl
  | true =>
    simp only [ClaimedMailboxBatch.holds, Bool.and_eq_true, decide_eq_true_eq] at hholds
    -- a row with a lease token is a row from before the follow-ups
    have hold : item ∈ w.items.rows := by
      refine (noNewLeases_enqueueMailboxItems h.leased.pendingFree hfollowUps item hitem).resolve_right
        fun hnone => ?_
      rw [hnone] at hholds
      cases hholds.1
    have hmine := h.leased.mailboxes batch hbatch item
      (h.leased.snapshot batch hbatch item hold hholds.1)
    have hsummary : link.1.store = .summaryRefresh := by
      rw [← hitemLink, SemanticMailboxItemInsert.link, hmine, hstore]
    exact absurd hsummary (h.chains accepted hmem link hlink).2

theorem Rebuildable.commitBatch {itemIds : String → String} {replacementId jobId : String}
    {finalized : Bool} (h : Rebuildable w) (hbatch : batch ∈ w.inFlight)
    (hcommit : commitBatch w batch inputs itemIds replacementId jobId finalized now = some w') :
    Rebuildable w' := by
  have hleased := h.leased.commitBatch hcommit
  cases hstore : batch.mailbox.store with
  | summaryRefresh =>
    obtain ⟨items, -, rfl⟩ := commitBatch_summary_cases hstore hcommit
    exact h.of_items hleased rfl rfl (fun _ hmem => hmem) fun _ _ => id
  | embedding representationKind =>
    have hstarted : ∀ accepted ∈ w.changes ++ newChanges w batch inputs,
        accepted.startedBefore ≤ w.rebuilds.length := by
      intro accepted hmem
      rcases List.mem_append.mp hmem with hold | hnew
      · exact h.started accepted hold
      · rw [(mem_newChanges hnew).1]
    have hchains : ∀ accepted ∈ w.changes ++ newChanges w batch inputs,
        ∀ link ∈ accepted.request.chain,
          link.1.repoId = accepted.request.repoId ∧ link.1.store ≠ .summaryRefresh := by
      intro accepted hmem link hlink
      rcases List.mem_append.mp hmem with hold | hnew
      · exact h.chains accepted hold link hlink
      · rw [(mem_newChanges hnew).1] at hlink ⊢
        obtain ⟨item, hitem, rfl⟩ := List.mem_map.mp hlink
        rw [SemanticMailboxItemInsert.link, h.leased.mailboxes batch hbatch item hitem, hstore]
        exact ⟨rfl, fun hsummary => by cases hsummary⟩
    rcases commitBatch_embedding_cases hstore hcommit with
      ⟨-, rfl⟩ | ⟨-, jobs, items, hjobs, -, rfl⟩
    · exact ⟨hleased, hstarted, hchains, h.executing⟩
    · refine ⟨hleased, hstarted, hchains, fun claimed hclaimed => ?_⟩
      have hrunning := h.executing claimed hclaimed
      split_ifs at hjobs with hsignal
      · exact hrunning.upsertWorkplaneJob hjobs
      · cases hjobs
        exact hrunning

/-- Requeueing jobs of another status keeps the running ones. -/
theorem jobRunning_requeueWorkplaneJobs {status : WorkplaneJobStatus} {t : JobTable}
    {jobId : String} (hstatus : status ≠ .running) (h : JobRunning t jobId) :
    JobRunning (requeueWorkplaneJobs status now t) jobId :=
  h.rewrite rfl fun _ _ hp _ hrunning => absurd ((of_decide_eq_true hp).symm.trans hrunning) hstatus

theorem rebuildPending_requeueWorkplaneJobs {status : WorkplaneJobStatus} {t : JobTable}
    {repoId : String} (h : RebuildPending t repoId) :
    RebuildPending (requeueWorkplaneJobs status now t) repoId := by
  refine h.rewrite rfl fun job _ _ hpending => ?_
  simp only [WorkplaneJob.isPendingRebuild, Bool.and_eq_true] at hpending ⊢
  exact ⟨hpending.1, rfl⟩

/-- **Every operation keeps the records and the jobs together.** -/
theorem Rebuildable.step {action : Action} (h : Rebuildable w)
    (hstep : step w action = some w') : Rebuildable w' := by
  have hleased := h.leased.step hstep
  cases action with
  | enqueue items currentIds now =>
    simp only [Enrichment.step, Option.bind_eq_bind, Option.bind_eq_some_iff, Option.some.injEq]
      at hstep
    obtain ⟨t', -, rfl⟩ := hstep
    exact h.of_items hleased rfl rfl (fun _ hmem => hmem) fun _ _ => id
  | leaseBatch mailbox now =>
    simp only [Enrichment.step, Option.bind_eq_bind, Option.bind_eq_some_iff, Option.some.injEq,
      Prod.exists] at hstep
    obtain ⟨t', batch, -, rfl⟩ := hstep
    exact h.of_items hleased rfl rfl (fun _ hmem => hmem) fun _ _ => id
  | commitBatch leaseToken inputs itemIds replacementId jobId finalized now =>
    simp only [Enrichment.step, Option.bind_eq_bind, Option.bind_eq_some_iff] at hstep
    obtain ⟨batch, hfind, hcommit⟩ := hstep
    exact h.commitBatch (List.mem_of_find?_eq_some hfind) hcommit
  | failBatch leaseToken flush error now =>
    simp only [Enrichment.step, Option.bind_eq_bind, Option.bind_eq_some_iff, Option.some.injEq]
      at hstep
    obtain ⟨batch, -, rfl⟩ := hstep
    exact h.of_items hleased rfl rfl (fun _ hmem => hmem) fun _ _ => id
  | loseBatch leaseToken =>
    cases hstep
    exact h.of_items hleased rfl rfl (fun _ hmem => hmem) fun _ _ => id
  | recoverExpiredLeases now =>
    cases hstep
    exact h.of_items hleased rfl rfl (fun _ hmem => hmem) fun _ _ => id
  | retryFailed now =>
    cases hstep
    exact h.of_items hleased rfl rfl (fun _ hmem => hmem) fun _ _ =>
      jobRunning_requeueWorkplaneJobs (by decide)
  | enqueueJob insert jobId now =>
    simp only [Enrichment.step, Option.bind_eq_bind, Option.bind_eq_some_iff, Option.some.injEq]
      at hstep
    obtain ⟨jobs, hjobs, rfl⟩ := hstep
    exact h.of_items hleased rfl rfl (fun _ hmem => hmem) fun _ _ hrunning =>
      hrunning.upsertWorkplaneJob hjobs
  | claimJob jobId now =>
    obtain ⟨job, hjob, hid, -, -, rfl⟩ := claimJob_cases hstep
    refine ⟨hleased, fun accepted hmem => ?_, h.chains, fun claimed hclaimed => ?_⟩
    · have hle := h.started accepted hmem
      dsimp only
      split_ifs
      · rw [List.length_append]
        omega
      · exact hle
    · rcases List.mem_append.mp hclaimed with hold | hnew
      · exact (h.executing claimed hold).rewrite rfl fun _ _ _ hid _ => ⟨hid, rfl⟩
      · rw [List.mem_singleton.mp hnew]
        refine ⟨claimPendingWorkplaneJob now job, ?_, rfl, rfl⟩
        dsimp only
        exact UniqueTable.mem_modify.mpr (.inr ⟨job, hjob, decide_eq_true hid, rfl⟩)
  | completeJob jobId error now =>
    simp only [Enrichment.step, Option.bind_eq_bind, Option.bind_eq_some_iff, Option.some.injEq]
      at hstep
    obtain ⟨job, hfind, rfl⟩ := hstep
    have hid : job.jobId = jobId := by simpa using List.find?_some hfind
    refine h.of_items hleased rfl rfl (fun _ hmem => (List.mem_filter.mp hmem).1) ?_
    intro claimed hclaimed hrunning
    have hother : claimed.jobId ≠ jobId := by simpa using (List.mem_filter.mp hclaimed).2
    refine hrunning.rewrite rfl fun row _ hp hrow _ => ?_
    exact absurd (hrow.symm.trans ((of_decide_eq_true hp).trans hid)) hother
  | restart now =>
    cases hstep
    exact ⟨hleased, h.started, h.chains, fun _ hmem => (List.not_mem_nil hmem).elim⟩

/-- **The step lemma.**  An assured operation keeps the changes followed. -/
theorem ChangesFollowed.step {action : Action} (h : Rebuildable w)
    (hfollowed : ChangesFollowed w) (hok : RebuildAssured w action)
    (hstep : step w action = some w') : ChangesFollowed w' := by
  cases action with
  | enqueue items currentIds now =>
    simp only [Enrichment.step, Option.bind_eq_bind, Option.bind_eq_some_iff, Option.some.injEq]
      at hstep
    obtain ⟨t', henqueue, rfl⟩ := hstep
    exact hfollowed.of_kept rfl rfl (fun _ => id) fun _ => linkLives_enqueueMailboxItems henqueue
  | leaseBatch mailbox now =>
    simp only [Enrichment.step, Option.bind_eq_bind, Option.bind_eq_some_iff, Option.some.injEq,
      Prod.exists] at hstep
    obtain ⟨t', batch, hlease, rfl⟩ := hstep
    obtain ⟨-, -, -, hrows⟩ := leaseMailboxBatchForRepo_cases hlease
    refine hfollowed.of_kept rfl rfl (fun _ => id) ?_
    rintro link ⟨item, hitem, hlink⟩
    rcases hrows item hitem with hsame | htaken
    · exact ⟨item, hsame, hlink⟩
    · exact ⟨_, htaken, hlink⟩
  | commitBatch leaseToken inputs itemIds replacementId jobId finalized now =>
    simp only [Enrichment.step, Option.bind_eq_bind, Option.bind_eq_some_iff] at hstep
    obtain ⟨batch, hfind, hcommit⟩ := hstep
    have hbatch := List.mem_of_find?_eq_some hfind
    cases hstore : batch.mailbox.store with
    | summaryRefresh => exact hfollowed.commitSummaryBatch h hbatch hstore hcommit
    | embedding representationKind =>
      have hassured := hok batch hfind fun hsummary => by
        rw [hstore] at hsummary
        cases hsummary
      exact hfollowed.commitEmbeddingBatch h hbatch hstore hassured hcommit
  | failBatch leaseToken flush error now =>
    simp only [Enrichment.step, Option.bind_eq_bind, Option.bind_eq_some_iff, Option.some.injEq]
      at hstep
    obtain ⟨batch, -, rfl⟩ := hstep
    exact hfollowed.of_kept rfl rfl (fun _ => id) fun _ => LinkLives.rewrite rfl fun _ => rfl
  | loseBatch leaseToken =>
    cases hstep
    exact hfollowed.of_kept rfl rfl (fun _ => id) fun _ => id
  | recoverExpiredLeases now =>
    cases hstep
    exact hfollowed.of_kept rfl rfl (fun _ => id) fun _ => LinkLives.rewrite rfl fun _ => rfl
  | retryFailed now =>
    cases hstep
    exact hfollowed.of_kept rfl rfl (fun _ => rebuildPending_requeueWorkplaneJobs)
      fun _ => LinkLives.rewrite rfl fun _ => rfl
  | enqueueJob insert jobId now =>
    simp only [Enrichment.step, Option.bind_eq_bind, Option.bind_eq_some_iff, Option.some.injEq]
      at hstep
    obtain ⟨jobs, hjobs, rfl⟩ := hstep
    exact hfollowed.of_kept rfl rfl (fun _ hpending => hpending.upsertWorkplaneJob hjobs)
      fun _ => id
  | claimJob jobId now =>
    obtain ⟨job, hjob, hid, -, -, rfl⟩ := claimJob_cases hstep
    intro accepted hmem
    rcases hfollowed accepted hmem with hstarted | ⟨pending, hrow, hpending⟩ | hchain
    · refine .inl ?_
      dsimp only
      split_ifs
      · rw [List.drop_append_of_le_length (h.started accepted hmem)]
        exact List.mem_append_left _ hstarted
      · exact hstarted
    · by_cases hclaimed : pending.jobId = jobId
      · -- the pending rebuild is the job that starts
        obtain rfl := UniqueTable.eq_of_key_eq hrow hjob (hclaimed.trans hid.symm)
        simp only [WorkplaneJob.isPendingRebuild, Bool.and_eq_true, decide_eq_true_eq] at hpending
        refine .inl ?_
        dsimp only
        rw [if_pos hpending.1.2, List.drop_append_of_le_length (h.started accepted hmem),
          hpending.1.1]
        exact List.mem_concat_self
      · refine .inr (.inl ⟨pending, ?_, hpending⟩)
        dsimp only
        exact UniqueTable.mem_modify.mpr (.inl ⟨hrow, decide_eq_false hclaimed⟩)
    · exact .inr (.inr hchain)
  | completeJob jobId error now =>
    simp only [Enrichment.step, Option.bind_eq_bind, Option.bind_eq_some_iff, Option.some.injEq]
      at hstep
    obtain ⟨job, hfind, rfl⟩ := hstep
    obtain ⟨row, hrow, hid, hrunning⟩ := h.executing job (List.mem_of_find?_eq_some hfind)
    refine hfollowed.of_kept rfl rfl (fun repoId hpending => hpending.rewrite rfl ?_) fun _ => id
    intro other hother hp hisPending
    -- the row of the claimed job is running
    obtain rfl := UniqueTable.eq_of_key_eq hother hrow ((of_decide_eq_true hp).trans hid.symm)
    simp [WorkplaneJob.isPendingRebuild, hrunning] at hisPending
  | restart now =>
    cases hstep
    exact hfollowed.of_kept rfl rfl (fun _ => rebuildPending_requeueWorkplaneJobs)
      fun _ => LinkLives.rewrite rfl fun _ => rfl

end Steps

/-! ## Runs -/

/-- A change of code embeddings signals a rebuild, which runs. -/
def signalledRebuildActions : List Action :=
  let mailbox : SemanticMailbox := ⟨"repo", .embedding .code⟩
  [.enqueue [("item", artefactItem mailbox none "a")] [] 0, .leaseBatch mailbox 1,
    .commitBatch 0 ⟨true, [], ["a"], ["a"], [], []⟩ id "next" "job" true 2, .claimJob "job" 3,
    .completeJob "job" none 4]

/-- A backfill of summary embeddings in two batches; the inputs of the second one are fresh. -/
def freshTailActions : List Action :=
  let mailbox : SemanticMailbox := ⟨"repo", .embedding .summary⟩
  let ids := (List.range 33).map fun n => String.ofList (List.replicate (n + 1) 'a')
  [.enqueue ((workplaneJobItems mailbox none []).map (Prod.mk "item")) ids 0,
    .leaseBatch mailbox 1, .commitBatch 0 ⟨true, ids, ["a"], ["a"], [], []⟩ id "next" "job" true 2,
    .leaseBatch mailbox 3,
    .commitBatch 1 ⟨true, ids, ids.drop 32, ids.drop 32, ids.drop 32, []⟩ id "next" "job" true 4]

end Enrichment
end Bitloops
