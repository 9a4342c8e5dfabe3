import Bitloops.Enrichment.MailboxBatch

/-!
# Leased rows and claimed batches

Only leasing a batch gives rows a lease token, and the token is a new one.  A batch at work
therefore still has the rows with its token as they are (`Leased`), in every run: whatever else
happens to these rows also takes their token away.
-/

namespace Bitloops
namespace Enrichment

/-! ## The enqueue of one item -/

section Enqueue

variable {now : ℕ} {itemId : String} {insert : SemanticMailboxItemInsert}
  {item existing : SemanticMailboxItem} {t t' : MailboxTable}

theorem mem_of_loadDedupedMailboxItem {mailbox : SemanticMailbox} {dedupeKey : Option String}
    (h : loadDedupedMailboxItem t mailbox dedupeKey = some item) :
    item ∈ t.rows ∧ item.mailbox = mailbox ∧ item.dedupeKey = dedupeKey := by
  unfold loadDedupedMailboxItem at h
  split at h
  · cases h
  · obtain ⟨hmem, -⟩ := orderBy_head? h
    simpa using hmem

/-- The three outcomes of an enqueue. -/
theorem enqueueMailboxItem_cases (h : enqueueMailboxItem now itemId insert t = some t') :
    (loadDedupedMailboxItem t insert.mailbox insert.dedupeKey = none ∧
        t'.rows = t.rows ++ [newMailboxItem now itemId insert]) ∨
      ∃ existing, loadDedupedMailboxItem t insert.mailbox insert.dedupeKey = some existing ∧
        ((existing.status = .pending ∧
            ∀ item, item ∈ t'.rows ↔ (item ∈ t.rows ∧ item.itemId ≠ existing.itemId) ∨
              item = refreshMailboxItem now insert existing) ∨
          (existing.status ≠ .pending ∧ t' = t)) := by
  unfold enqueueMailboxItem at h
  split at h
  · rename_i existing hexisting
    obtain ⟨hmem, -⟩ := mem_of_loadDedupedMailboxItem hexisting
    refine .inr ⟨existing, hexisting, ?_⟩
    split_ifs at h with hpending
    · cases h
      refine .inl ⟨hpending, fun item => ?_⟩
      refine UniqueTable.mem_modify.trans ?_
      simp only [decide_eq_false_iff_not, decide_eq_true_eq]
      refine or_congr_right ⟨?_, ?_⟩
      · rintro ⟨old, hold, hid, rfl⟩
        rw [UniqueTable.eq_of_key_eq hold hmem hid]
      · rintro rfl
        exact ⟨existing, hmem, rfl, rfl⟩
    · cases h
      exact .inr ⟨hpending, rfl⟩
  · rename_i hnone
    exact .inl ⟨hnone, (UniqueTable.insert?_eq_some.mp h).2⟩

end Enqueue

/-! ## Leases -/

/-- Only leasing a batch gives a row a lease token. -/
def NoNewLeases (t t' : MailboxTable) : Prop :=
  ∀ item ∈ t'.rows, item ∈ t.rows ∨ item.leaseToken = none

/-- A pending row has no lease token. -/
def PendingFree (t : MailboxTable) : Prop :=
  ∀ item ∈ t.rows, item.status = .pending → item.leaseToken = none

/-- How the rows and the claimed batches fit together. -/
structure Leased (w : World) : Prop where
  pendingFree : PendingFree w.items
  rowTokens : ∀ item ∈ w.items.rows, ∀ token ∈ item.leaseToken, token < w.leases
  batchTokens : ∀ batch ∈ w.inFlight, batch.leaseToken < w.leases
  /-- The batch still has the rows of its lease as they are. -/
  snapshot : ∀ batch ∈ w.inFlight, ∀ item ∈ w.items.rows,
    item.leaseToken = some batch.leaseToken → item ∈ batch.items
  mailboxes : ∀ batch ∈ w.inFlight, ∀ item ∈ batch.items, item.mailbox = batch.mailbox
  /-- A batch has artefacts only, or a single item. -/
  shape : ∀ batch ∈ w.inFlight,
    (∀ item ∈ batch.items, item.itemKind = .artefact) ∨ ∃ item, batch.items = [item]

theorem leased_empty : Leased World.empty where
  pendingFree := fun _ h => (List.not_mem_nil h).elim
  rowTokens := fun _ h => (List.not_mem_nil h).elim
  batchTokens := fun _ h => (List.not_mem_nil h).elim
  snapshot := fun _ h => (List.not_mem_nil h).elim
  mailboxes := fun _ h => (List.not_mem_nil h).elim
  shape := fun _ h => (List.not_mem_nil h).elim

section Leases

variable {now : ℕ} {itemId : String} {insert : SemanticMailboxItemInsert}
  {t t' t'' : MailboxTable} {batch : ClaimedMailboxBatch} {inputs : BatchInputs} {w w' : World}

theorem NoNewLeases.trans (h : NoNewLeases t t') (h' : NoNewLeases t' t'') : NoNewLeases t t'' :=
  fun item hitem => (h' item hitem).elim (h item) .inr

theorem PendingFree.of_noNewLeases (h : PendingFree t) (ht : NoNewLeases t t') :
    PendingFree t' :=
  fun item hitem hpending => (ht item hitem).elim (h item · hpending) id

theorem noNewLeases_delete {p : SemanticMailboxItem → Bool} : NoNewLeases t (t.delete p) :=
  fun _ hitem => .inl (UniqueTable.mem_delete.mp hitem).1

/-- Rewriting rows into rows without a lease. -/
theorem noNewLeases_rewrite {p : SemanticMailboxItem → Bool}
    {f : SemanticMailboxItem → SemanticMailboxItem}
    (hrows : t'.rows = t.rows.map fun item => if p item then f item else item)
    (hfree : ∀ item, (f item).leaseToken = none) : NoNewLeases t t' := by
  intro item hitem
  rw [hrows] at hitem
  obtain ⟨old, hold, rfl⟩ := List.mem_map.mp hitem
  split_ifs
  · exact .inr (hfree old)
  · exact .inl hold

theorem noNewLeases_enqueueMailboxItem (hfree : PendingFree t)
    (h : enqueueMailboxItem now itemId insert t = some t') : NoNewLeases t t' := by
  rcases enqueueMailboxItem_cases h with
    ⟨-, hrows⟩ | ⟨existing, hexisting, ⟨hpending, hmem⟩ | ⟨-, rfl⟩⟩
  · intro item hitem
    rw [hrows, List.mem_append, List.mem_singleton] at hitem
    rcases hitem with hold | rfl
    · exact .inl hold
    · exact .inr rfl
  · intro item hitem
    rcases (hmem item).mp hitem with ⟨hold, -⟩ | rfl
    · exact .inl hold
    · exact .inr (hfree existing (mem_of_loadDedupedMailboxItem hexisting).1 hpending)
  · exact fun item hitem => .inl hitem

theorem noNewLeases_enqueueMailboxItems {items : List (String × SemanticMailboxItemInsert)}
    (hfree : PendingFree t) (h : enqueueMailboxItems now items t = some t') :
    NoNewLeases t t' := by
  induction items generalizing t with
  | nil =>
    cases h
    exact fun item hitem => .inl hitem
  | cons head rest ih =>
    rw [enqueueMailboxItems, Option.bind_eq_some_iff] at h
    obtain ⟨next, hnext, hrest⟩ := h
    have hfirst := noNewLeases_enqueueMailboxItem hfree hnext
    exact hfirst.trans (ih (hfree.of_noNewLeases hfirst) hrest)

/-- Without a new lease, the rows and the batches still fit together. -/
theorem Leased.of_noNewLeases (h : Leased w) (hitems : NoNewLeases w.items w'.items)
    (hinFlight : ∀ batch ∈ w'.inFlight, batch ∈ w.inFlight) (hleases : w'.leases = w.leases) :
    Leased w' where
  pendingFree := h.pendingFree.of_noNewLeases hitems
  rowTokens := by
    intro item hitem token htoken
    rw [hleases]
    rcases hitems item hitem with hold | hnone
    · exact h.rowTokens item hold token htoken
    · rw [hnone] at htoken
      cases htoken
  batchTokens := fun batch hbatch => hleases ▸ h.batchTokens batch (hinFlight batch hbatch)
  snapshot := by
    intro batch hbatch item hitem htoken
    rcases hitems item hitem with hold | hnone
    · exact h.snapshot batch (hinFlight batch hbatch) item hold htoken
    · rw [hnone] at htoken
      cases htoken
  mailboxes := fun batch hbatch => h.mailboxes batch (hinFlight batch hbatch)
  shape := fun batch hbatch => h.shape batch (hinFlight batch hbatch)

theorem mem_of_mem_selectedItems {mailbox : SemanticMailbox}
    {itemKind : SemanticMailboxItemKind} {item : SemanticMailboxItem}
    (h : item ∈ selectedItems t mailbox itemKind now) :
    item ∈ t.rows ∧ item.mailbox = mailbox ∧ item.itemKind = itemKind := by
  have hmem := mem_orderBy.mp (List.mem_of_mem_take h)
  simp only [isAvailable, List.mem_filter, Bool.and_eq_true, decide_eq_true_eq] at hmem
  exact ⟨hmem.1, hmem.2.1.1.1, hmem.2.2⟩

/-- A lease takes artefacts only, or a single backfill. -/
theorem selectedItems_shape (t : MailboxTable) (mailbox : SemanticMailbox)
    (itemKind : SemanticMailboxItemKind) (now : ℕ) :
    (∀ item ∈ selectedItems t mailbox itemKind now, item.itemKind = .artefact) ∨
      selectedItems t mailbox itemKind now = [] ∨
        ∃ item, selectedItems t mailbox itemKind now = [item] := by
  cases itemKind with
  | artefact => exact .inl fun item hitem => (mem_of_mem_selectedItems hitem).2.2
  | repoBackfill =>
    right
    have hlen : (selectedItems t mailbox .repoBackfill now).length ≤ 1 := List.length_take_le _ _
    rcases hitems : selectedItems t mailbox .repoBackfill now with _ | ⟨first, rest⟩
    · exact .inl rfl
    · rw [hitems, List.length_cons] at hlen
      have hrest : rest = [] := List.length_eq_zero_iff.mp (by omega)
      exact .inr ⟨first, by rw [hrest]⟩

/-- What a lease selects, and what it writes. -/
theorem leaseMailboxBatchForRepo_cases {mailbox : SemanticMailbox} {leaseToken : ℕ}
    (h : leaseMailboxBatchForRepo now mailbox leaseToken t = some (t', batch)) :
    ∃ itemKind,
      batch = ⟨mailbox, leaseToken,
          (selectedItems t mailbox itemKind now).map (leaseItem now leaseToken)⟩ ∧
        (∀ item ∈ t'.rows, item ∈ t.rows ∨ ∃ old ∈ selectedItems t mailbox itemKind now,
          item = leaseItem now leaseToken old) ∧
        ∀ item ∈ t.rows, item ∈ t'.rows ∨ leaseItem now leaseToken item ∈ t'.rows := by
  simp only [leaseMailboxBatchForRepo, Option.bind_eq_bind, Option.bind_eq_some_iff] at h
  obtain ⟨oldest, -, h⟩ := h
  split_ifs at h with hempty
  cases h
  refine ⟨oldest.itemKind, rfl, fun item hitem => ?_, fun item hitem => ?_⟩
  · rcases UniqueTable.mem_modify.mp hitem with ⟨hold, -⟩ | ⟨old, hold, hleased, rfl⟩
    · exact .inl hold
    · -- the selected row with this identifier is the row itself
      simp only [Bool.and_eq_true, decide_eq_true_eq, List.mem_map] at hleased
      obtain ⟨-, picked, hpicked, hid⟩ := hleased
      obtain rfl := UniqueTable.eq_of_key_eq (mem_of_mem_selectedItems hpicked).1 hold hid
      exact .inr ⟨picked, hpicked, rfl⟩
  · cases hp : decide (item.status = .pending) &&
        decide (item.itemId ∈ (selectedItems t mailbox oldest.itemKind now).map (·.itemId)) with
    | false => exact .inl (UniqueTable.mem_modify.mpr (.inl ⟨hitem, hp⟩))
    | true => exact .inr (UniqueTable.mem_modify.mpr (.inr ⟨item, hitem, hp, rfl⟩))

/-- A lease gives its batch the rows as it writes them. -/
theorem Leased.leaseBatch {mailbox : SemanticMailbox} (h : Leased w)
    (hlease : leaseMailboxBatchForRepo now mailbox w.leases w.items = some (t', batch)) :
    Leased { w with items := t', inFlight := w.inFlight ++ [batch], leases := w.leases + 1 } := by
  obtain ⟨itemKind, rfl, hrows, -⟩ := leaseMailboxBatchForRepo_cases hlease
  have hinFlight : ∀ {P : ClaimedMailboxBatch → Prop}, (∀ old ∈ w.inFlight, P old) →
      P ⟨mailbox, w.leases, (selectedItems w.items mailbox itemKind now).map
        (leaseItem now w.leases)⟩ →
      ∀ old ∈ w.inFlight ++ [⟨mailbox, w.leases, (selectedItems w.items mailbox itemKind now).map
        (leaseItem now w.leases)⟩], P old := by
    intro P hold hnew old hmem
    rcases List.mem_append.mp hmem with hmem | hmem
    · exact hold old hmem
    · exact List.mem_singleton.mp hmem ▸ hnew
  refine ⟨?_, ?_, hinFlight ?_ ?_, hinFlight ?_ ?_, hinFlight h.mailboxes ?_,
    hinFlight h.shape ?_⟩
  · intro item hitem hpending
    rcases hrows item hitem with hold | ⟨old, -, rfl⟩
    · exact h.pendingFree item hold hpending
    · cases hpending
  · intro item hitem token htoken
    rcases hrows item hitem with hold | ⟨old, -, rfl⟩
    · exact Nat.lt_succ_of_lt (h.rowTokens item hold token htoken)
    · cases htoken
      exact Nat.lt_succ_self _
  · exact fun old hold => Nat.lt_succ_of_lt (h.batchTokens old hold)
  · exact Nat.lt_succ_self _
  · intro old hmem item hitem htoken
    rcases hrows item hitem with hold | ⟨picked, -, rfl⟩
    · exact h.snapshot old hmem item hold htoken
    · have hfresh := h.batchTokens old hmem
      have heq : w.leases = old.leaseToken := Option.some.inj htoken
      omega
  · intro item hitem htoken
    rcases hrows item hitem with hold | ⟨picked, hpicked, rfl⟩
    · exact absurd (h.rowTokens item hold _ htoken) (lt_irrefl _)
    · exact List.mem_map_of_mem hpicked
  · intro item hitem
    obtain ⟨picked, hpicked, rfl⟩ := List.mem_map.mp hitem
    exact (mem_of_mem_selectedItems hpicked).2.1
  · rcases selectedItems_shape w.items mailbox itemKind now with hartefacts | hempty | ⟨item, hone⟩
    · left
      intro item hitem
      obtain ⟨picked, hpicked, rfl⟩ := List.mem_map.mp hitem
      exact hartefacts picked hpicked
    · left
      intro item hitem
      rw [hempty] at hitem
      cases hitem
    · exact .inr ⟨leaseItem now w.leases item, by rw [hone]; rfl⟩

/-! ## Commits -/

/-- The commit of a summary batch enqueues its follow-ups, inserts its replacement, and deletes
its items. -/
theorem executeSummaryCommit_cases {request : CommitBatchRequest} {itemIds : String → String}
    {replacementId : String}
    (h : executeSummaryCommit batch request itemIds replacementId now t = some t') :
    ∃ t₁ : MailboxTable, enqueueMailboxItems now (request.followUpItems itemIds) t = some t₁ ∧
      ∃ t₂ : MailboxTable, t' = t₂.delete batch.holds ∧
        t₂.rows = t₁.rows ++
          (request.replacementBackfillItem.map (newMailboxItem now replacementId)).toList := by
  simp only [executeSummaryCommit, Option.bind_eq_bind, Option.bind_eq_some_iff] at h
  obtain ⟨t₁, hfollowUps, h⟩ := h
  refine ⟨t₁, hfollowUps, ?_⟩
  cases hreplacement : request.replacementBackfillItem with
  | none =>
    simp only [hreplacement, Option.bind_some, Option.some.injEq] at h
    exact ⟨t₁, h.symm, (List.append_nil _).symm⟩
  | some insert =>
    simp only [hreplacement, Option.bind_eq_some_iff, Option.some.injEq] at h
    obtain ⟨t₂, hinsert, rfl⟩ := h
    exact ⟨t₂, rfl, (UniqueTable.insert?_eq_some.mp hinsert).2⟩

theorem noNewLeases_executeSummaryCommit {request : CommitBatchRequest}
    {itemIds : String → String} {replacementId : String} (hfree : PendingFree t)
    (h : executeSummaryCommit batch request itemIds replacementId now t = some t') :
    NoNewLeases t t' := by
  obtain ⟨t₁, hfollowUps, t₂, rfl, hrows⟩ := executeSummaryCommit_cases h
  have hreplacement : NoNewLeases t₁ t₂ := by
    intro item hitem
    rw [hrows, List.mem_append, Option.mem_toList, Option.map_eq_some_iff] at hitem
    rcases hitem with hold | ⟨insert, -, rfl⟩
    · exact .inl hold
    · exact .inr rfl
  exact ((noNewLeases_enqueueMailboxItems hfree hfollowUps).trans hreplacement).trans
    noNewLeases_delete

theorem noNewLeases_executeEmbeddingRuntimeFinalization {request : CommitBatchRequest}
    {replacementId : String} (hfree : PendingFree t)
    (h : executeEmbeddingRuntimeFinalization batch request replacementId now t = some t') :
    NoNewLeases t t' := by
  unfold executeEmbeddingRuntimeFinalization at h
  split at h
  · have hdelete : NoNewLeases t (t.delete batch.holds) := noNewLeases_delete
    exact hdelete.trans (noNewLeases_enqueueMailboxItem (hfree.of_noNewLeases hdelete) h)
  · cases h
    exact noNewLeases_delete

/-- The outcome of the commit of a summary batch. -/
theorem commitBatch_summary_cases {itemIds : String → String} {replacementId jobId : String}
    {finalized : Bool} (hstore : batch.mailbox.store = .summaryRefresh)
    (h : commitBatch w batch inputs itemIds replacementId jobId finalized now = some w') :
    let request := prepareMailboxBatch batch inputs
    ∃ items, executeSummaryCommit batch request itemIds replacementId now w.items = some items ∧
      w' = { w with
        items
        completed := w.completed ++ [⟨batch, inputs⟩]
        inFlight := w.inFlight.filter (·.leaseToken ≠ batch.leaseToken)
        requests :=
          w.requests ++
            (request.embeddingFollowUps.flatMap (·.requests [])).map (⟨·, w.leases⟩) } := by
  simp only [commitBatch, hstore, Option.bind_eq_bind, Option.bind_eq_some_iff,
    Option.some.injEq] at h
  obtain ⟨items, hitems, rfl⟩ := h
  exact ⟨items, hitems, rfl⟩

/-- The outcomes of the commit of an embedding batch. -/
theorem commitBatch_embedding_cases {representationKind : EmbeddingRepresentationKind}
    {itemIds : String → String} {replacementId jobId : String} {finalized : Bool}
    (hstore : batch.mailbox.store = .embedding representationKind)
    (h : commitBatch w batch inputs itemIds replacementId jobId finalized now = some w') :
    let request := prepareMailboxBatch batch inputs
    let changes :=
      w.changes ++ (embeddingChange batch request).toList.map (⟨·, w.rebuilds.length⟩)
    (finalized = false ∧ w' = { w with changes }) ∨
      (finalized = true ∧ ∃ jobs items,
        (if request.cloneRebuildSignal then
            upsertRuntimeCloneRebuildSignal now jobId batch.mailbox.repoId w.jobs
          else some w.jobs) = some jobs ∧
        executeEmbeddingRuntimeFinalization batch request replacementId now w.items =
          some items ∧
        w' = { w with
          items, jobs, changes
          completed := w.completed ++ [⟨batch, inputs⟩]
          inFlight := w.inFlight.filter (·.leaseToken ≠ batch.leaseToken) }) := by
  simp only [commitBatch, hstore] at h
  cases finalized with
  | false =>
    simp only [Bool.false_eq_true, ↓reduceIte, Option.some.injEq] at h
    exact .inl ⟨rfl, h.symm⟩
  | true =>
    refine .inr ⟨rfl, ?_⟩
    simp only [↓reduceIte] at h
    split_ifs at h ⊢
    · simp only [Option.bind_eq_bind, Option.bind_eq_some_iff, Option.some.injEq] at h
      obtain ⟨jobs, hjobs, items, hitems, rfl⟩ := h
      exact ⟨jobs, items, hjobs, hitems, rfl⟩
    · simp only [Option.bind_eq_bind, Option.bind_some, Option.bind_eq_some_iff,
        Option.some.injEq] at h
      obtain ⟨items, hitems, rfl⟩ := h
      exact ⟨w.jobs, items, rfl, hitems, rfl⟩

theorem Leased.commitBatch {itemIds : String → String} {replacementId jobId : String}
    {finalized : Bool} (h : Leased w)
    (hcommit : commitBatch w batch inputs itemIds replacementId jobId finalized now = some w') :
    Leased w' := by
  have hinFlight : ∀ other ∈ w.inFlight.filter (·.leaseToken ≠ batch.leaseToken),
      other ∈ w.inFlight := fun _ hother => (List.mem_filter.mp hother).1
  cases hstore : batch.mailbox.store with
  | summaryRefresh =>
    obtain ⟨items, hitems, rfl⟩ := commitBatch_summary_cases hstore hcommit
    exact h.of_noNewLeases (noNewLeases_executeSummaryCommit h.pendingFree hitems) hinFlight rfl
  | embedding representationKind =>
    rcases commitBatch_embedding_cases hstore hcommit with
      ⟨-, rfl⟩ | ⟨-, jobs, items, -, hitems, rfl⟩
    · exact h.of_noNewLeases (fun _ hitem => .inl hitem) (fun _ hmem => hmem) rfl
    · exact h.of_noNewLeases (noNewLeases_executeEmbeddingRuntimeFinalization h.pendingFree hitems)
        hinFlight rfl

/-- **Every operation keeps the rows and the batches together.** -/
theorem Leased.step {action : Action} (h : Leased w) (hstep : step w action = some w') :
    Leased w' := by
  have hsame : NoNewLeases w.items w.items := fun _ hitem => .inl hitem
  have hending : ∀ {token : ℕ}, ∀ batch ∈ w.inFlight.filter (·.leaseToken ≠ token),
      batch ∈ w.inFlight := fun _ hmem => (List.mem_filter.mp hmem).1
  cases action with
  | enqueue items currentIds now =>
    simp only [Enrichment.step, Option.bind_eq_bind, Option.bind_eq_some_iff, Option.some.injEq]
      at hstep
    obtain ⟨t', henqueue, rfl⟩ := hstep
    have hnew := noNewLeases_enqueueMailboxItems h.pendingFree henqueue
    exact h.of_noNewLeases hnew (fun _ hmem => hmem) rfl
  | leaseBatch mailbox now =>
    simp only [Enrichment.step, Option.bind_eq_bind, Option.bind_eq_some_iff, Option.some.injEq,
      Prod.exists] at hstep
    obtain ⟨t', batch, hlease, rfl⟩ := hstep
    exact h.leaseBatch hlease
  | commitBatch leaseToken inputs itemIds replacementId jobId finalized now =>
    simp only [Enrichment.step, Option.bind_eq_bind, Option.bind_eq_some_iff] at hstep
    obtain ⟨batch, -, hcommit⟩ := hstep
    exact h.commitBatch hcommit
  | failBatch leaseToken flush error now =>
    simp only [Enrichment.step, Option.bind_eq_bind, Option.bind_eq_some_iff, Option.some.injEq]
      at hstep
    obtain ⟨batch, -, rfl⟩ := hstep
    exact h.of_noNewLeases (noNewLeases_rewrite rfl fun _ => rfl) hending rfl
  | loseBatch leaseToken =>
    cases hstep
    exact h.of_noNewLeases hsame hending rfl
  | recoverExpiredLeases now =>
    cases hstep
    exact h.of_noNewLeases (noNewLeases_rewrite rfl fun _ => rfl) (fun _ hmem => hmem) rfl
  | retryFailed now =>
    cases hstep
    exact h.of_noNewLeases (noNewLeases_rewrite rfl fun _ => rfl) (fun _ hmem => hmem) rfl
  | enqueueJob insert jobId now =>
    simp only [Enrichment.step, Option.bind_eq_bind, Option.bind_eq_some_iff, Option.some.injEq]
      at hstep
    obtain ⟨jobs, -, rfl⟩ := hstep
    exact h.of_noNewLeases hsame (fun _ hmem => hmem) rfl
  | claimJob jobId now =>
    obtain ⟨job, -, -, -, -, rfl⟩ := claimJob_cases hstep
    exact h.of_noNewLeases hsame (fun _ hmem => hmem) rfl
  | completeJob jobId error now =>
    simp only [Enrichment.step, Option.bind_eq_bind, Option.bind_eq_some_iff, Option.some.injEq]
      at hstep
    obtain ⟨job, -, rfl⟩ := hstep
    exact h.of_noNewLeases hsame (fun _ hmem => hmem) rfl
  | restart now =>
    cases hstep
    exact h.of_noNewLeases (noNewLeases_rewrite rfl fun _ => rfl)
      (fun _ hmem => (List.not_mem_nil hmem).elim) rfl

end Leases

end Enrichment
end Bitloops
