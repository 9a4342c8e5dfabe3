import Bitloops.Enrichment.MailboxLease

/-!
# Fenced leases and unique items

The commit or the failure of a batch should change no item that has lost its lease token, and no
key should have two live items.  A commit also writes the replacement of a large backfill, and
does so without looking whether the batch still holds that backfill: the summary store inserts
it, the embedding store enqueues it.  `ReplacementsFree` is the exact condition under which the
leases are fenced and the items unique.
-/

namespace Bitloops
namespace Enrichment

/-! ## The statement -/

def SemanticMailboxItem.isLive (item : SemanticMailboxItem) : Bool :=
  item.status = .pending || item.status = .leased

/-- At most one live item has the key. -/
def LiveUnique (t : MailboxTable) : Prop :=
  ∀ item ∈ t.rows, ∀ other ∈ t.rows, item.isLive = true → other.isLive = true →
    item.mailbox = other.mailbox → item.dedupeKey.isSome → item.dedupeKey = other.dedupeKey →
      item = other

/-- An item is leased if and only if it has a lease token. -/
def LeasedByToken (t : MailboxTable) : Prop :=
  ∀ item ∈ t.rows, item.status = .leased ↔ item.leaseToken.isSome

/-- Every item without the token stays as it is; only a pending item under the key of a follow-up
is refreshed by it. -/
def LeavesOthers (leaseToken : ℕ) (followUps : List SemanticMailboxItemInsert)
    (t t' : MailboxTable) : Prop :=
  ∀ item ∈ t.rows, item.leaseToken ≠ some leaseToken →
    item ∈ t'.rows ∨ ∃ followUp ∈ followUps, item.status = .pending ∧
      item.mailbox = followUp.mailbox ∧ item.dedupeKey = followUp.dedupeKey

/-- The commit or the failure of a batch leaves the items alone that have lost its token. -/
def Fenced (w : World) (action : Action) (w' : World) : Prop :=
  match action with
  | .commitBatch leaseToken inputs _ _ _ _ _ =>
    ∀ batch ∈ w.inFlight.find? (·.leaseToken = leaseToken),
      LeavesOthers leaseToken (prepareMailboxBatch batch inputs).embeddingFollowUps w.items w'.items
  | .failBatch leaseToken _ _ _ => LeavesOthers leaseToken [] w.items w'.items
  | _ => True

instance : DecidablePred LiveUnique := fun t =>
  inferInstanceAs (Decidable (∀ item ∈ t.rows, ∀ other ∈ t.rows, _))

instance : DecidablePred LeasedByToken := fun t =>
  inferInstanceAs (Decidable (∀ item ∈ t.rows, _))

/-- What is claimed of a step. -/
def LeasesKept (w : World) (action : Action) (w' : World) : Prop :=
  Fenced w action w' ∧ LeasedByToken w'.items ∧ LiveUnique w'.items

/-! ## The condition -/

/-- The replacement meets no item that the batch does not hold: no live one under its key in the
summary store, and no pending one that the upsert would change in the embedding store. -/
def ReplacementFree (t : MailboxTable) (batch : ClaimedMailboxBatch) (finalized : Bool) (now : ℕ)
    (insert : SemanticMailboxItemInsert) : Prop :=
  match batch.mailbox.store with
  | .summaryRefresh =>
    ∀ item ∈ t.rows, item.isLive = true → item.mailbox = insert.mailbox →
      insert.dedupeKey.isSome → item.dedupeKey = insert.dedupeKey → batch.holds item = true
  | .embedding _ =>
    finalized = true →
      ∀ existing ∈ loadDedupedMailboxItem (t.delete batch.holds) insert.mailbox insert.dedupeKey,
        existing.status = .pending → refreshMailboxItem now insert existing = existing

instance (t : MailboxTable) (batch : ClaimedMailboxBatch) (finalized : Bool) (now : ℕ)
    (insert : SemanticMailboxItemInsert) :
    Decidable (ReplacementFree t batch finalized now insert) := by
  unfold ReplacementFree
  split <;> infer_instance

/-- Two items that may be live at once. -/
def Distinguished (item other : SemanticMailboxItem) : Prop :=
  item.mailbox = other.mailbox → item.dedupeKey.isSome → item.dedupeKey = other.dedupeKey →
    item = other

instance (item other : SemanticMailboxItem) : Decidable (Distinguished item other) :=
  inferInstanceAs (Decidable (item.mailbox = other.mailbox → item.dedupeKey.isSome → _ → _))

/-- The condition: the replacement of a commit is free, and a retry revives no failed item whose
key another item has. -/
def ReplacementsFree (w : World) (action : Action) : Prop :=
  match action with
  | .commitBatch leaseToken inputs _ _ _ finalized now =>
    ∀ batch ∈ w.inFlight.find? (·.leaseToken = leaseToken),
      ∀ insert ∈ (prepareMailboxBatch batch inputs).replacementBackfillItem,
        ReplacementFree w.items batch finalized now insert
  | .retryFailed _ =>
    ∀ item ∈ w.items.rows, item.status = .failed → ∀ other ∈ w.items.rows, Distinguished item other
  | _ => True

instance (w : World) : ∀ action, Decidable (ReplacementsFree w action)
  | .commitBatch leaseToken inputs _ _ _ finalized now =>
    inferInstanceAs (Decidable (∀ batch ∈ w.inFlight.find? (·.leaseToken = leaseToken),
      ∀ insert ∈ (prepareMailboxBatch batch inputs).replacementBackfillItem,
        ReplacementFree w.items batch finalized now insert))
  | .retryFailed _ =>
    inferInstanceAs (Decidable (∀ item ∈ w.items.rows, item.status = .failed →
      ∀ other ∈ w.items.rows, Distinguished item other))
  | .enqueue .. | .leaseBatch .. | .failBatch .. | .loseBatch .. | .recoverExpiredLeases ..
  | .enqueueJob .. | .claimJob .. | .completeJob .. | .restart .. => isTrue trivial

/-! ## Rewriting, inserting and deleting items -/

section Tables

variable {t t' : MailboxTable} {item existing : SemanticMailboxItem} {now : ℕ} {itemId : String}
  {insert : SemanticMailboxItemInsert} {batch : ClaimedMailboxBatch}

theorem loadDedupedMailboxItem_eq_none {mailbox : SemanticMailbox} {dedupeKey : Option String}
    (h : loadDedupedMailboxItem t mailbox dedupeKey = none) (hitem : item ∈ t.rows)
    (hmailbox : item.mailbox = mailbox) (hkey : item.dedupeKey = dedupeKey) : dedupeKey = none := by
  cases dedupeKey with
  | none => rfl
  | some key =>
    have hempty := orderBy_head?_eq_none.mp h
    have hmem : item ∈ t.rows.filter fun item =>
        item.mailbox = mailbox ∧ item.dedupeKey = some key :=
      List.mem_filter.mpr ⟨hitem, decide_eq_true ⟨hmailbox, hkey⟩⟩
    rw [hempty] at hmem
    exact absurd hmem List.not_mem_nil

/-- Rewriting items without reviving one. -/
theorem LiveUnique.rewrite {p : SemanticMailboxItem → Bool}
    {f : SemanticMailboxItem → SemanticMailboxItem} (h : LiveUnique t)
    (hrows : t'.rows = t.rows.map fun item => if p item then f item else item)
    (hmailbox : ∀ item, (f item).mailbox = item.mailbox)
    (hkey : ∀ item, (f item).dedupeKey = item.dedupeKey)
    (hlive : ∀ item ∈ t.rows, p item = true → (f item).isLive = true → item.isLive = true) :
    LiveUnique t' := by
  have horigin : ∀ item ∈ t'.rows, ∃ old ∈ t.rows, item = (if p old then f old else old) ∧
      item.mailbox = old.mailbox ∧ item.dedupeKey = old.dedupeKey ∧
        (item.isLive = true → old.isLive = true) := by
    intro item hitem
    rw [hrows] at hitem
    obtain ⟨old, hold, rfl⟩ := List.mem_map.mp hitem
    refine ⟨old, hold, rfl, ?_⟩
    split_ifs with hp
    · exact ⟨hmailbox old, hkey old, hlive old hold hp⟩
    · exact ⟨rfl, rfl, id⟩
  intro item hitem other hother hitemLive hotherLive hsame hsome hkeys
  obtain ⟨old, hold, heq, hm, hk, hl⟩ := horigin item hitem
  obtain ⟨old', hold', heq', hm', hk', hl'⟩ := horigin other hother
  have hboth : old = old' := by
    refine h old hold old' hold' (hl hitemLive) (hl' hotherLive) ?_ ?_ ?_
    · rw [← hm, hsame, hm']
    · rw [← hk]
      exact hsome
    · rw [← hk, hkeys, hk']
  rw [heq, heq', hboth]

theorem LiveUnique.of_subset (h : LiveUnique t) (hsub : ∀ item ∈ t'.rows, item ∈ t.rows) :
    LiveUnique t' :=
  fun item hitem other hother => h item (hsub item hitem) other (hsub other hother)

/-- A new item under a key that no live item has. -/
theorem LiveUnique.append (h : LiveUnique t)
    (hrows : ∀ item ∈ t'.rows, item ∈ t.rows ∨ item = newMailboxItem now itemId insert)
    (hfree : ∀ item ∈ t'.rows, item ∈ t.rows → item.isLive = true →
      item.mailbox = insert.mailbox → item.dedupeKey = insert.dedupeKey →
        insert.dedupeKey = none) : LiveUnique t' := by
  intro item hitem other hother hitemLive hotherLive hsame hsome hkeys
  rcases hrows item hitem with hold | rfl
  · rcases hrows other hother with hold' | rfl
    · exact h item hold other hold' hitemLive hotherLive hsame hsome hkeys
    · have hnone := hfree item hitem hold hitemLive hsame hkeys
      rw [hkeys] at hsome
      exact absurd hsome (by simp [newMailboxItem, hnone])
  · rcases hrows other hother with hold' | rfl
    · have hnone := hfree other hother hold' hotherLive hsame.symm hkeys.symm
      exact absurd hsome (by simp [newMailboxItem, hnone])
    · rfl

/-- Enqueueing looks the key up first. -/
theorem LiveUnique.enqueueMailboxItem (h : LiveUnique t)
    (henqueue : enqueueMailboxItem now itemId insert t = some t') : LiveUnique t' := by
  rcases enqueueMailboxItem_cases henqueue with
    ⟨hnone, hrows⟩ | ⟨existing, hexisting, ⟨hpending, hmem⟩ | ⟨-, rfl⟩⟩
  · have hnew : ∀ item ∈ t'.rows, item ∈ t.rows ∨ item = newMailboxItem now itemId insert := by
      intro item hitem
      rw [hrows, List.mem_append, List.mem_singleton] at hitem
      exact hitem
    exact h.append hnew fun item _ hold _ hmailbox hkey =>
      loadDedupedMailboxItem_eq_none hnone hold hmailbox hkey
  · obtain ⟨hrow, -, -⟩ := mem_of_loadDedupedMailboxItem hexisting
    have hrows : ∀ item ∈ t'.rows, item ∈ t.rows ∧ item.itemId ≠ existing.itemId ∨
        item = refreshMailboxItem now insert existing := fun item hitem => (hmem item).mp hitem
    have hlive : (refreshMailboxItem now insert existing).isLive = true → existing.isLive = true :=
      id
    have hapart : ∀ item ∈ t.rows, item.itemId ≠ existing.itemId → item.isLive = true →
        existing.isLive = true → item.mailbox = existing.mailbox → item.dedupeKey.isSome →
          item.dedupeKey = existing.dedupeKey → False := by
      intro item hitem hne hl hl' hsame hsome hkeys
      exact hne (congrArg _ (h item hitem existing hrow hl hl' hsame hsome hkeys))
    intro item hitem other hother hitemLive hotherLive hsame hsome hkeys
    rcases hrows item hitem with ⟨hold, hne⟩ | rfl
    · rcases hrows other hother with ⟨hold', hne'⟩ | rfl
      · exact h item hold other hold' hitemLive hotherLive hsame hsome hkeys
      · exact (hapart item hold hne hitemLive (hlive hotherLive) hsame hsome hkeys).elim
    · rcases hrows other hother with ⟨hold', hne'⟩ | rfl
      · refine (hapart other hold' hne' hotherLive (hlive hitemLive) hsame.symm ?_ hkeys.symm).elim
        rw [← hkeys]
        exact hsome
      · rfl
  · exact h

theorem LiveUnique.enqueueMailboxItems {items : List (String × SemanticMailboxItemInsert)}
    (h : LiveUnique t) (henqueue : enqueueMailboxItems now items t = some t') : LiveUnique t' := by
  induction items generalizing t with
  | nil =>
    cases henqueue
    exact h
  | cons head rest ih =>
    rw [Enrichment.enqueueMailboxItems, Option.bind_eq_some_iff] at henqueue
    obtain ⟨next, hnext, hrest⟩ := henqueue
    exact ih (h.enqueueMailboxItem hnext) hrest

/-- An enqueue changes at most the pending item under its key. -/
theorem mem_enqueueMailboxItem (henqueue : enqueueMailboxItem now itemId insert t = some t')
    (hitem : item ∈ t.rows) :
    item ∈ t'.rows ∨ item.status = .pending ∧ item.mailbox = insert.mailbox ∧
      item.dedupeKey = insert.dedupeKey := by
  rcases enqueueMailboxItem_cases henqueue with
    ⟨-, hrows⟩ | ⟨existing, hexisting, ⟨hpending, hmem⟩ | ⟨-, rfl⟩⟩
  · rw [hrows]
    exact .inl (List.mem_append_left _ hitem)
  · obtain ⟨hrow, hmailbox, hkey⟩ := mem_of_loadDedupedMailboxItem hexisting
    by_cases hid : item.itemId = existing.itemId
    · obtain rfl := UniqueTable.eq_of_key_eq hitem hrow hid
      exact .inr ⟨hpending, hmailbox, hkey⟩
    · exact .inl ((hmem item).mpr (.inl ⟨hitem, hid⟩))
  · exact .inl hitem

theorem mem_enqueueMailboxItems {items : List (String × SemanticMailboxItemInsert)}
    (henqueue : enqueueMailboxItems now items t = some t') (hitem : item ∈ t.rows) :
    item ∈ t'.rows ∨ ∃ entry ∈ items, item.status = .pending ∧
      item.mailbox = entry.2.mailbox ∧ item.dedupeKey = entry.2.dedupeKey := by
  induction items generalizing t with
  | nil =>
    cases henqueue
    exact .inl hitem
  | cons head rest ih =>
    rw [Enrichment.enqueueMailboxItems, Option.bind_eq_some_iff] at henqueue
    obtain ⟨next, hnext, hrest⟩ := henqueue
    rcases mem_enqueueMailboxItem hnext hitem with hmem | hrefreshed
    · refine (ih hrest hmem).imp_right ?_
      rintro ⟨entry, hentry, hcoalesced⟩
      exact ⟨entry, List.mem_cons_of_mem _ hentry, hcoalesced⟩
    · exact .inr ⟨head, List.mem_cons_self, hrefreshed⟩

/-- What an enqueue leaves in another mailbox was there before. -/
theorem mem_of_mem_enqueueMailboxItems {items : List (String × SemanticMailboxItemInsert)}
    (henqueue : enqueueMailboxItems now items t = some t') (hitem : item ∈ t'.rows)
    (hother : ∀ entry ∈ items, entry.2.mailbox ≠ item.mailbox) : item ∈ t.rows := by
  induction items generalizing t with
  | nil =>
    cases henqueue
    exact hitem
  | cons head rest ih =>
    rw [Enrichment.enqueueMailboxItems, Option.bind_eq_some_iff] at henqueue
    obtain ⟨next, hnext, hrest⟩ := henqueue
    have hmem : item ∈ next.rows := ih hrest fun entry hentry =>
      hother entry (List.mem_cons_of_mem _ hentry)
    have hhead := hother head List.mem_cons_self
    rcases enqueueMailboxItem_cases hnext with
      ⟨-, hrows⟩ | ⟨existing, hexisting, ⟨-, hnextMem⟩ | ⟨-, rfl⟩⟩
    · rw [hrows, List.mem_append, List.mem_singleton] at hmem
      rcases hmem with hold | rfl
      · exact hold
      · exact absurd rfl hhead
    · rcases (hnextMem item).mp hmem with ⟨hold, -⟩ | rfl
      · exact hold
      · exact absurd (mem_of_loadDedupedMailboxItem hexisting).2.1.symm hhead
    · exact hmem

/-! ### Tokens -/

theorem LeasedByToken.of_mem (h : LeasedByToken t)
    (hrows : ∀ item ∈ t'.rows, item ∈ t.rows ∨ (item.status = .leased ↔ item.leaseToken.isSome)) :
    LeasedByToken t' :=
  fun item hitem => (hrows item hitem).elim (h item) id

theorem LeasedByToken.rewrite {p : SemanticMailboxItem → Bool}
    {f : SemanticMailboxItem → SemanticMailboxItem} (h : LeasedByToken t)
    (hrows : t'.rows = t.rows.map fun item => if p item then f item else item)
    (hf : ∀ item, (f item).status = .leased ↔ (f item).leaseToken.isSome) : LeasedByToken t' := by
  refine h.of_mem fun item hitem => ?_
  rw [hrows] at hitem
  obtain ⟨old, hold, rfl⟩ := List.mem_map.mp hitem
  split_ifs
  · exact .inr (hf old)
  · exact .inl hold

theorem LeasedByToken.enqueueMailboxItems {items : List (String × SemanticMailboxItemInsert)}
    (h : LeasedByToken t) (henqueue : enqueueMailboxItems now items t = some t') :
    LeasedByToken t' := by
  induction items generalizing t with
  | nil =>
    cases henqueue
    exact h
  | cons head rest ih =>
    rw [Enrichment.enqueueMailboxItems, Option.bind_eq_some_iff] at henqueue
    obtain ⟨next, hnext, hrest⟩ := henqueue
    refine ih (h.of_mem fun item hitem => ?_) hrest
    rcases enqueueMailboxItem_cases hnext with
      ⟨-, hrows⟩ | ⟨existing, hexisting, ⟨-, hmem⟩ | ⟨-, rfl⟩⟩
    · rw [hrows, List.mem_append, List.mem_singleton] at hitem
      rcases hitem with hold | rfl
      · exact .inl hold
      · exact .inr (by simp [newMailboxItem])
    · rcases (hmem item).mp hitem with ⟨hold, -⟩ | rfl
      · exact .inl hold
      · exact .inr (h existing (mem_of_loadDedupedMailboxItem hexisting).1)
    · exact .inl hitem

theorem releaseItem_leased_iff {status : SemanticMailboxItemStatus} (hstatus : status ≠ .leased)
    {availableAtUnix : ℕ} {lastError : Option String} :
    (releaseItem status availableAtUnix now lastError item).status = .leased ↔
      (releaseItem status availableAtUnix now lastError item).leaseToken.isSome := by
  simp [releaseItem, hstatus]

theorem failedBatchStatus_ne_leased {flush : Bool} {error : String} :
    (failedBatchStatus batch flush error).1 ≠ .leased := by
  unfold failedBatchStatus
  cases batch.mailbox.store with
  | summaryRefresh =>
    dsimp only
    split_ifs <;> exact fun h => (nomatch h)
  | embedding representationKind =>
    dsimp only
    split_ifs <;> exact fun h => (nomatch h)

/-- An item that the batch holds is leased. -/
theorem LeasedByToken.isLive_of_holds (h : LeasedByToken t) (hitem : item ∈ t.rows)
    (hholds : batch.holds item = true) : item.isLive = true := by
  simp only [ClaimedMailboxBatch.holds, Bool.and_eq_true, decide_eq_true_eq] at hholds
  have hleased : item.status = .leased := (h item hitem).mpr (by rw [hholds.1, Option.isSome_some])
  simp [SemanticMailboxItem.isLive, hleased]

theorem holds_eq_false_of_ne (h : item.leaseToken ≠ some batch.leaseToken) :
    batch.holds item = false := by
  simp [ClaimedMailboxBatch.holds, h]

/-- A pending item is not held. -/
theorem holds_of_pending (hfree : PendingFree t) (hitem : item ∈ t.rows)
    (hpending : item.status = .pending) : item.leaseToken ≠ some batch.leaseToken := by
  rw [hfree item hitem hpending]
  exact fun h => (nomatch h)

end Tables

/-! ## Commits -/

section Commits

variable {w w' : World} {t t' : MailboxTable} {batch : ClaimedMailboxBatch} {inputs : BatchInputs}
  {insert : SemanticMailboxItemInsert} {now : ℕ} {finalized : Bool}

theorem mailbox_of_replacementBackfillItem (h : replacementBackfillItem batch inputs = some insert) :
    insert.mailbox = batch.mailbox := by
  have hfold : ∀ (step : Option SemanticMailboxItemInsert → SemanticMailboxItem →
        Option SemanticMailboxItemInsert),
      (∀ replacement item, (∀ insert ∈ replacement, insert.mailbox = batch.mailbox) →
        ∀ insert ∈ step replacement item, insert.mailbox = batch.mailbox) →
      ∀ (items : List SemanticMailboxItem) (init : Option SemanticMailboxItemInsert),
        (∀ insert ∈ init, insert.mailbox = batch.mailbox) →
          ∀ insert ∈ items.foldl step init, insert.mailbox = batch.mailbox := by
    intro step hstep items
    induction items with
    | nil => exact fun init hinit => hinit
    | cons item items ih => exact fun init hinit => ih _ (hstep init item hinit)
  refine hfold _ (fun replacement item hreplacement insert hinsert => ?_) batch.items none
    (fun _ h => (by cases h)) insert h
  split at hinsert
  · cases hinsert
    rfl
  · exact hreplacement insert hinsert

theorem replacement_of_summary (hstore : batch.mailbox.store = .summaryRefresh) :
    (prepareMailboxBatch batch inputs).replacementBackfillItem =
      replacementBackfillItem batch inputs := by
  simp only [prepareMailboxBatch, hstore, prepareSummaryMailboxBatch]

theorem followUps_of_embedding {representationKind : EmbeddingRepresentationKind}
    (hstore : batch.mailbox.store = .embedding representationKind) :
    (prepareMailboxBatch batch inputs).embeddingFollowUps = [] := by
  simp only [prepareMailboxBatch, hstore, prepareEmbeddingMailboxBatch]
  split_ifs <;> rfl

/-- A summary follow-up asks another mailbox. -/
theorem mailbox_ne_of_mem_followUpItems (hstore : batch.mailbox.store = .summaryRefresh)
    {itemIds : String → String} {entry : String × SemanticMailboxItemInsert}
    (h : entry ∈ (prepareMailboxBatch batch inputs).followUpItems itemIds) :
    entry.2 ∈ (prepareMailboxBatch batch inputs).embeddingFollowUps ∧
      entry.2.mailbox ≠ batch.mailbox := by
  obtain ⟨followUp, hfollowUp, rfl⟩ := List.mem_map.mp h
  refine ⟨hfollowUp, fun heq => ?_⟩
  simp only [prepareMailboxBatch, hstore, prepareSummaryMailboxBatch] at hfollowUp
  obtain ⟨id, -, rfl⟩ := List.mem_map.mp hfollowUp
  have hstores := congrArg SemanticMailbox.store heq
  rw [hstore] at hstores
  cases hstores

/-- **The commit of a summary batch** is fenced, and keeps the items unique exactly when its
replacement is free. -/
theorem leasesKept_summaryCommit (finalized : Bool) {itemIds : String → String} {replacementId : String}
    (hleased : LeasedByToken t) (hunique : LiveUnique t)
    (hstore : batch.mailbox.store = .summaryRefresh)
    (hcommit : executeSummaryCommit batch (prepareMailboxBatch batch inputs) itemIds replacementId
      now t = some t') :
    LeavesOthers batch.leaseToken (prepareMailboxBatch batch inputs).embeddingFollowUps t t' ∧
      LeasedByToken t' ∧
      (LiveUnique t' ↔ ∀ insert ∈ (prepareMailboxBatch batch inputs).replacementBackfillItem,
        ReplacementFree t batch finalized now insert) := by
  obtain ⟨t₁, hfollowUps, t₂, rfl, hrows⟩ := executeSummaryCommit_cases hcommit
  have hleased₁ : LeasedByToken t₁ := hleased.enqueueMailboxItems hfollowUps
  have hunique₁ : LiveUnique t₁ := hunique.enqueueMailboxItems hfollowUps
  have hmem₂ : ∀ item, item ∈ t₂.rows ↔ item ∈ t₁.rows ∨
      ∃ insert ∈ (prepareMailboxBatch batch inputs).replacementBackfillItem,
        item = newMailboxItem now replacementId insert := by
    intro item
    rw [hrows, List.mem_append, Option.mem_toList, Option.map_eq_some_iff]
    simp only [eq_comm, Option.mem_def]
  refine ⟨fun item hitem htoken => ?_, ?_, ?_⟩
  · rcases mem_enqueueMailboxItems hfollowUps hitem with hkept | ⟨entry, hentry, hcoalesced⟩
    · exact .inl (UniqueTable.mem_delete.mpr
        ⟨(hmem₂ item).mpr (.inl hkept), holds_eq_false_of_ne htoken⟩)
    · exact .inr ⟨entry.2, (mailbox_ne_of_mem_followUpItems hstore hentry).1, hcoalesced⟩
  · refine hleased₁.of_mem fun item hitem => ?_
    rcases (hmem₂ item).mp (UniqueTable.mem_delete.mp hitem).1 with hold | ⟨insert, -, rfl⟩
    · exact .inl hold
    · exact .inr (by simp [newMailboxItem])
  · have hmailbox : ∀ insert ∈ (prepareMailboxBatch batch inputs).replacementBackfillItem,
        insert.mailbox = batch.mailbox := by
      intro insert hinsert
      rw [replacement_of_summary hstore] at hinsert
      exact mailbox_of_replacementBackfillItem hinsert
    -- the follow-ups leave the mailbox of the batch alone
    have hsame : ∀ item, item.mailbox = batch.mailbox → (item ∈ t₁.rows ↔ item ∈ t.rows) := by
      intro item hitemMailbox
      constructor
      · refine fun hitem => mem_of_mem_enqueueMailboxItems hfollowUps hitem fun entry hentry => ?_
        rw [hitemMailbox]
        exact (mailbox_ne_of_mem_followUpItems hstore hentry).2
      · intro hitem
        refine (mem_enqueueMailboxItems hfollowUps hitem).resolve_right ?_
        rintro ⟨entry, hentry, -, hentryMailbox, -⟩
        exact (mailbox_ne_of_mem_followUpItems hstore hentry).2
          (hentryMailbox.symm.trans hitemMailbox)
    constructor
    · intro h insert hinsert
      simp only [ReplacementFree, hstore]
      intro item hitem hlive hitemMailbox hsome hkey
      cases hholds : batch.holds item with
      | true => rfl
      | false =>
        -- the item and the replacement are both there, and they are different
        have hitemBatch : item.mailbox = batch.mailbox := hitemMailbox.trans (hmailbox insert hinsert)
        have hitem₁ : item ∈ t₁.rows := (hsame item hitemBatch).mpr hitem
        have hnew : newMailboxItem now replacementId insert ∈ t₂.rows :=
          (hmem₂ _).mpr (.inr ⟨insert, hinsert, rfl⟩)
        have hkept : item ∈ (t₂.delete batch.holds).rows :=
          UniqueTable.mem_delete.mpr ⟨(hmem₂ item).mpr (.inl hitem₁), hholds⟩
        have hnewKept : newMailboxItem now replacementId insert ∈ (t₂.delete batch.holds).rows :=
          UniqueTable.mem_delete.mpr ⟨hnew, holds_eq_false_of_ne fun htoken => (nomatch htoken)⟩
        have heq := h item hkept _ hnewKept hlive (by simp [SemanticMailboxItem.isLive,
          newMailboxItem]) hitemMailbox (hkey ▸ hsome) hkey
        have hnodup := t₂.unique
        rw [hrows, List.map_append, Option.mem_def.mp hinsert] at hnodup
        have hapart := (List.nodup_append.mp hnodup).2.2
        exact absurd (congrArg _ heq) (hapart _ (List.mem_map_of_mem hitem₁) _
          (by simp))
    · intro h
      cases hreplacement : (prepareMailboxBatch batch inputs).replacementBackfillItem with
      | none =>
        refine hunique₁.of_subset fun item hitem => ?_
        rcases (hmem₂ item).mp (UniqueTable.mem_delete.mp hitem).1 with hold | ⟨insert, hinsert, -⟩
        · exact hold
        · rw [hreplacement] at hinsert
          cases hinsert
      | some insert =>
        have hfree := h insert hreplacement
        simp only [ReplacementFree, hstore] at hfree
        have hnew : ∀ item ∈ (t₂.delete batch.holds).rows,
            item ∈ t₁.rows ∨ item = newMailboxItem now replacementId insert := by
          intro item hitem
          rcases (hmem₂ item).mp (UniqueTable.mem_delete.mp hitem).1 with hold | ⟨other, hother, rfl⟩
          · exact .inl hold
          · rw [hreplacement] at hother
            cases hother
            exact .inr rfl
        refine hunique₁.append hnew fun item hitem hold hlive hitemMailbox hkey => ?_
        have hitemBatch := hitemMailbox.trans (hmailbox insert hreplacement)
        cases hsome : insert.dedupeKey with
        | none => rfl
        | some key =>
          have hholds := hfree item ((hsame item hitemBatch).mp hold) hlive hitemMailbox
            (by rw [hsome, Option.isSome_some]) hkey
          rw [(UniqueTable.mem_delete.mp hitem).2] at hholds
          cases hholds

/-- **The commit of an embedding batch** keeps the items unique, and is fenced exactly when its
replacement is free. -/
theorem leasesKept_embeddingCommit {representationKind : EmbeddingRepresentationKind}
    {replacementId : String} (hfree : PendingFree t) (hleased : LeasedByToken t)
    (hunique : LiveUnique t) (hstore : batch.mailbox.store = .embedding representationKind)
    (hcommit : executeEmbeddingRuntimeFinalization batch (prepareMailboxBatch batch inputs)
      replacementId now t = some t') :
    (LeavesOthers batch.leaseToken (prepareMailboxBatch batch inputs).embeddingFollowUps t t' ↔
      ∀ insert ∈ (prepareMailboxBatch batch inputs).replacementBackfillItem,
        ReplacementFree t batch true now insert) ∧
      LeasedByToken t' ∧ LiveUnique t' := by
  have hdeleted : LiveUnique (t.delete batch.holds) :=
    hunique.of_subset fun item hitem => (UniqueTable.mem_delete.mp hitem).1
  have hdeletedLeased : LeasedByToken (t.delete batch.holds) :=
    hleased.of_mem fun item hitem => .inl (UniqueTable.mem_delete.mp hitem).1
  have hkept : ∀ item ∈ t.rows, item.leaseToken ≠ some batch.leaseToken →
      item ∈ (t.delete batch.holds).rows := fun item hitem htoken =>
    UniqueTable.mem_delete.mpr ⟨hitem, holds_eq_false_of_ne htoken⟩
  rw [followUps_of_embedding hstore]
  cases hreplacement : (prepareMailboxBatch batch inputs).replacementBackfillItem with
  | none =>
    simp only [executeEmbeddingRuntimeFinalization, hreplacement, Option.some.injEq] at hcommit
    subst hcommit
    exact ⟨⟨fun _ _ h => (nomatch h), fun _ item hitem htoken => .inl (hkept item hitem htoken)⟩,
      hdeletedLeased, hdeleted⟩
  | some insert =>
    simp only [executeEmbeddingRuntimeFinalization, hreplacement] at hcommit
    have hone : enqueueMailboxItems now [(replacementId, insert)] (t.delete batch.holds) =
        some t' := by
      rw [enqueueMailboxItems, hcommit]
      rfl
    refine ⟨?_, hdeletedLeased.enqueueMailboxItems hone, hdeleted.enqueueMailboxItem hcommit⟩
    simp only [Option.mem_def, Option.some.injEq, forall_eq', ReplacementFree, hstore, true_implies,
      LeavesOthers, List.not_mem_nil, false_and, exists_false, or_false]
    constructor
    · intro h existing hexisting hpending
      obtain ⟨hrow, -, -⟩ := mem_of_loadDedupedMailboxItem hexisting
      have hold := (UniqueTable.mem_delete.mp hrow).1
      have hstays := h existing hold (holds_of_pending hfree hold hpending)
      rcases enqueueMailboxItem_cases hcommit with
        ⟨hnone, -⟩ | ⟨other, hother, ⟨-, hmem⟩ | ⟨hnot, -⟩⟩
      · rw [hnone] at hexisting
        cases hexisting
      · obtain rfl := Option.some.inj (hexisting.symm.trans hother)
        rcases (hmem existing).mp hstays with ⟨-, hne⟩ | hsame
        · exact absurd rfl hne
        · exact hsame.symm
      · obtain rfl := Option.some.inj (hexisting.symm.trans hother)
        exact absurd hpending hnot
    · intro h item hitem htoken
      have hdelete := hkept item hitem htoken
      rcases enqueueMailboxItem_cases hcommit with
        ⟨-, hrows⟩ | ⟨existing, hexisting, ⟨hpending, hmem⟩ | ⟨-, rfl⟩⟩
      · rw [hrows]
        exact List.mem_append_left _ hdelete
      · by_cases hid : item.itemId = existing.itemId
        · have hrow := (mem_of_loadDedupedMailboxItem hexisting).1
          obtain rfl := UniqueTable.eq_of_key_eq hdelete hrow hid
          exact (hmem item).mpr (.inr (h item hexisting hpending).symm)
        · exact (hmem item).mpr (.inl ⟨hdelete, hid⟩)
      · exact hdelete

end Commits

/-! ## Steps -/

section Steps

variable {w w' : World} {t t' : MailboxTable} {batch : ClaimedMailboxBatch} {now : ℕ}

/-- A lease rewrites pending items. -/
theorem leaseMailboxBatchForRepo_rows {mailbox : SemanticMailbox} {leaseToken : ℕ}
    (h : leaseMailboxBatchForRepo now mailbox leaseToken t = some (t', batch)) :
    ∃ p : SemanticMailboxItem → Bool,
      t'.rows = t.rows.map (fun item => if p item then leaseItem now leaseToken item else item) ∧
        ∀ item, p item = true → item.status = .pending := by
  simp only [leaseMailboxBatchForRepo, Option.bind_eq_bind, Option.bind_eq_some_iff] at h
  obtain ⟨oldest, -, h⟩ := h
  split_ifs at h
  cases h
  refine ⟨_, rfl, fun item hp => ?_⟩
  simp only [Bool.and_eq_true, decide_eq_true_eq] at hp
  exact hp.1

/-- Releasing leased items keeps the items unique. -/
theorem LiveUnique.release {p : SemanticMailboxItem → Bool}
    {f : SemanticMailboxItem → SemanticMailboxItem} (h : LiveUnique t)
    (hrows : t'.rows = t.rows.map fun item => if p item then f item else item)
    (hf : ∀ item, (f item).mailbox = item.mailbox ∧ (f item).dedupeKey = item.dedupeKey)
    (hp : ∀ item, p item = true → item.status = .pending ∨ item.status = .leased) :
    LiveUnique t' := by
  refine h.rewrite hrows (fun item => (hf item).1) (fun item => (hf item).2) fun item _ hpitem _ => ?_
  rw [SemanticMailboxItem.isLive, Bool.or_eq_true, decide_eq_true_eq, decide_eq_true_eq]
  exact hp item hpitem

/-- **A retry** keeps the items unique exactly when it revives no failed item whose key another
item has. -/
theorem liveUnique_retry_iff (now : ℕ) (h : LiveUnique t) :
    LiveUnique (requeueSemanticInboxItems .failed now t) ↔
      ∀ item ∈ t.rows, item.status = .failed → ∀ other ∈ t.rows, Distinguished item other := by
  have hrows : (requeueSemanticInboxItems .failed now t).rows = t.rows.map fun item =>
      if item.status = .failed then releaseItem .pending item.availableAtUnix now none item
      else item := by
    simp only [requeueSemanticInboxItems, UniqueTable.modify, decide_eq_true_eq]
  constructor
  · intro hafter item hitem hfailed other hother hmailbox hsome hkey
    have hrevived : ∀ old : SemanticMailboxItem, old ∈ t.rows →
        ∃ new ∈ (requeueSemanticInboxItems .failed now t).rows, new.isLive = true ∧
          new.mailbox = old.mailbox ∧ new.dedupeKey = old.dedupeKey ∧ new.itemId = old.itemId := by
      intro old hold
      refine ⟨_, hrows ▸ List.mem_map_of_mem hold, ?_⟩
      split_ifs with hstatus
      · exact ⟨by simp [SemanticMailboxItem.isLive, releaseItem], rfl, rfl, rfl⟩
      · refine ⟨?_, rfl, rfl, rfl⟩
        cases hcases : old.status with
        | pending => simp [SemanticMailboxItem.isLive, hcases]
        | leased => simp [SemanticMailboxItem.isLive, hcases]
        | failed => exact absurd hcases hstatus
    obtain ⟨new, hnew, hlive, hm, hk, hid⟩ := hrevived item hitem
    obtain ⟨new', hnew', hlive', hm', hk', hid'⟩ := hrevived other hother
    have hsame := hafter new hnew new' hnew' hlive hlive' (hm.trans (hmailbox.trans hm'.symm))
      (hk ▸ hsome) (hk.trans (hkey.trans hk'.symm))
    exact UniqueTable.eq_of_key_eq hitem hother (hid.symm.trans (hsame ▸ hid'))
  · intro hdistinct
    have horigin : ∀ item ∈ (requeueSemanticInboxItems .failed now t).rows, ∃ old ∈ t.rows,
        item = (if old.status = .failed then releaseItem .pending old.availableAtUnix now none old
          else old) ∧ item.mailbox = old.mailbox ∧ item.dedupeKey = old.dedupeKey ∧
          (old.status ≠ .failed → item.isLive = true → old.isLive = true) := by
      intro item hitem
      rw [hrows] at hitem
      obtain ⟨old, hold, rfl⟩ := List.mem_map.mp hitem
      refine ⟨old, hold, rfl, ?_⟩
      split_ifs with hstatus
      · exact ⟨rfl, rfl, fun hnot => absurd hstatus hnot⟩
      · exact ⟨rfl, rfl, fun _ => id⟩
    intro item hitem other hother hitemLive hotherLive hsame hsome hkeys
    obtain ⟨old, hold, heq, hm, hk, hl⟩ := horigin item hitem
    obtain ⟨old', hold', heq', hm', hk', hl'⟩ := horigin other hother
    have hboth : old = old' := by
      have hmailboxes : old.mailbox = old'.mailbox := by rw [← hm, hsame, hm']
      have hkeysOld : old.dedupeKey = old'.dedupeKey := by rw [← hk, hkeys, hk']
      have hsomeOld : old.dedupeKey.isSome = true := by rw [← hk]; exact hsome
      by_cases hfailed : old.status = .failed
      · exact hdistinct old hold hfailed old' hold' hmailboxes hsomeOld hkeysOld
      · by_cases hfailed' : old'.status = .failed
        · exact (hdistinct old' hold' hfailed' old hold hmailboxes.symm (hkeysOld ▸ hsomeOld)
            hkeysOld.symm).symm
        · exact h old hold old' hold' (hl hfailed hitemLive) (hl' hfailed' hotherLive) hmailboxes
            hsomeOld hkeysOld
    rw [heq, heq', hboth]

/-- **The step lemma.**  From a state with unique items, a step does what is claimed exactly when
it meets the condition. -/
theorem leasesKept_iff {action : Action} (hw : Leased w) (htoken : LeasedByToken w.items)
    (hunique : LiveUnique w.items) (hstep : step w action = some w') :
    LeasesKept w action w' ↔ ReplacementsFree w action := by
  cases action with
  | enqueue items currentIds now =>
    simp only [Enrichment.step, Option.bind_eq_bind, Option.bind_eq_some_iff, Option.some.injEq]
      at hstep
    obtain ⟨t', henqueue, rfl⟩ := hstep
    exact iff_of_true ⟨trivial, htoken.enqueueMailboxItems henqueue,
      hunique.enqueueMailboxItems henqueue⟩ trivial
  | leaseBatch mailbox now =>
    simp only [Enrichment.step, Option.bind_eq_bind, Option.bind_eq_some_iff, Option.some.injEq,
      Prod.exists] at hstep
    obtain ⟨t', batch, hlease, rfl⟩ := hstep
    obtain ⟨p, hrows, hp⟩ := leaseMailboxBatchForRepo_rows hlease
    refine iff_of_true ⟨trivial, ?_, ?_⟩ trivial
    · exact htoken.rewrite hrows fun item => by simp [leaseItem]
    · exact hunique.release hrows (fun item => ⟨rfl, rfl⟩) fun item hitem => .inl (hp item hitem)
  | commitBatch leaseToken inputs itemIds replacementId jobId finalized now =>
    simp only [Enrichment.step, Option.bind_eq_bind, Option.bind_eq_some_iff] at hstep
    obtain ⟨batch, hfind, hcommit⟩ := hstep
    obtain rfl : batch.leaseToken = leaseToken := by simpa using List.find?_some hfind
    simp only [LeasesKept, Fenced, ReplacementsFree, hfind, Option.mem_def, Option.some.injEq,
      forall_eq']
    cases hstore : batch.mailbox.store with
    | summaryRefresh =>
      obtain ⟨items, hitems, rfl⟩ := commitBatch_summary_cases hstore hcommit
      obtain ⟨hfenced, hleased, hiff⟩ := leasesKept_summaryCommit finalized htoken
        hunique hstore hitems
      exact ⟨fun h => hiff.mp h.2.2, fun h => ⟨hfenced, hleased, hiff.mpr h⟩⟩
    | embedding representationKind =>
      rcases commitBatch_embedding_cases hstore hcommit with
        ⟨rfl, rfl⟩ | ⟨rfl, jobs, items, -, hitems, rfl⟩
      · refine iff_of_true ⟨fun item hitem _ => .inl hitem, htoken, hunique⟩ fun insert _ => ?_
        simp only [ReplacementFree, hstore]
        exact fun h => (by cases h)
      · obtain ⟨hiff, hleased, hkept⟩ := leasesKept_embeddingCommit hw.pendingFree htoken hunique
          hstore hitems
        exact ⟨fun h => hiff.mp h.1, fun h => ⟨hiff.mpr h, hleased, hkept⟩⟩
  | failBatch leaseToken flush error now =>
    simp only [Enrichment.step, Option.bind_eq_bind, Option.bind_eq_some_iff, Option.some.injEq]
      at hstep
    obtain ⟨batch, hfind, rfl⟩ := hstep
    obtain rfl : batch.leaseToken = leaseToken := by simpa using List.find?_some hfind
    refine iff_of_true ⟨fun item hitem hother => .inl ?_, ?_, ?_⟩ trivial
    · refine List.mem_map.mpr ⟨item, hitem, ?_⟩
      rw [holds_eq_false_of_ne hother]
      rfl
    · exact htoken.rewrite rfl fun item => releaseItem_leased_iff failedBatchStatus_ne_leased
    · exact hunique.rewrite rfl (fun _ => rfl) (fun _ => rfl) fun item hitem hholds _ =>
        htoken.isLive_of_holds hitem hholds
  | loseBatch leaseToken =>
    cases hstep
    exact iff_of_true ⟨trivial, htoken, hunique⟩ trivial
  | recoverExpiredLeases now =>
    cases hstep
    refine iff_of_true ⟨trivial, ?_, ?_⟩ trivial
    · exact htoken.rewrite rfl fun item => by simp [releaseItem]
    · refine hunique.release rfl (fun item => ⟨rfl, rfl⟩) fun item hitem => ?_
      simp only [Bool.and_eq_true, decide_eq_true_eq] at hitem
      exact .inr hitem.1
  | retryFailed now =>
    cases hstep
    have hleased : LeasedByToken (requeueSemanticInboxItems .failed now w.items) :=
      htoken.rewrite rfl fun item => by simp [releaseItem]
    have hiff := liveUnique_retry_iff now hunique
    exact ⟨fun h => hiff.mp h.2.2, fun h => ⟨trivial, hleased, hiff.mpr h⟩⟩
  | enqueueJob insert jobId now =>
    simp only [Enrichment.step, Option.bind_eq_bind, Option.bind_eq_some_iff, Option.some.injEq]
      at hstep
    obtain ⟨jobs, -, rfl⟩ := hstep
    exact iff_of_true ⟨trivial, htoken, hunique⟩ trivial
  | claimJob jobId now =>
    obtain ⟨job, -, -, -, -, rfl⟩ := claimJob_cases hstep
    exact iff_of_true ⟨trivial, htoken, hunique⟩ trivial
  | completeJob jobId error now =>
    simp only [Enrichment.step, Option.bind_eq_bind, Option.bind_eq_some_iff, Option.some.injEq]
      at hstep
    obtain ⟨job, -, rfl⟩ := hstep
    exact iff_of_true ⟨trivial, htoken, hunique⟩ trivial
  | restart now =>
    cases hstep
    refine iff_of_true ⟨trivial, ?_, ?_⟩ trivial
    · exact htoken.rewrite rfl fun item => by simp [releaseItem]
    · exact hunique.release rfl (fun item => ⟨rfl, rfl⟩) fun item hitem =>
        .inr (of_decide_eq_true hitem)

end Steps

/-! ## Runs -/

/-- A backfill of the summary mailbox that is one artefact larger than a batch. -/
def largeSummaryBackfill : String × SemanticMailboxItemInsert :=
  ("item", repoBackfillItem ⟨"repo", .summaryRefresh⟩ none
    (some ("abcdefghijklmnopq".toList.map fun c => String.ofList [c])) "backfill")

/-- The first batch is committed in time; the worker of the second one loses its lease, and
commits while another worker is at work. -/
def replacedInTimeActions : List Action :=
  let mailbox : SemanticMailbox := ⟨"repo", .summaryRefresh⟩
  let inputs : BatchInputs := ⟨true, [], ["a", "q"], [], [], ["a"]⟩
  [.enqueue [largeSummaryBackfill] [] 0, .leaseBatch mailbox 1,
    .commitBatch 0 inputs id "next" "job" true 2, .leaseBatch mailbox 3,
    .recoverExpiredLeases 400, .leaseBatch mailbox 401,
    .commitBatch 1 inputs id "other" "job" true 402, .failBatch 2 false "error" 403,
    .retryFailed 404]

/-- The lease of the first batch expires before the batch is committed. -/
def replacedLateActions : List Action :=
  [.enqueue [largeSummaryBackfill] [] 0, .leaseBatch ⟨"repo", .summaryRefresh⟩ 1,
    .recoverExpiredLeases 400,
    .commitBatch 0 ⟨true, [], ["a", "q"], [], [], []⟩ id "next" "job" true 401]

/-- **A claimed batch keeps its rows.**  In every run, whatever other workers do, the rows that
still have the token of a batch are rows of the batch as it was claimed; the batch is of one
mailbox, and of artefacts only or of a single item; and no pending row has a token. -/
theorem claimed_rows_kept {actions : List Action} {w : World}
    (hrun : Run.exec step World.empty actions = some w) :
    PendingFree w.items ∧
      (∀ batch ∈ w.inFlight, ∀ item ∈ w.items.rows,
        item.leaseToken = some batch.leaseToken → item ∈ batch.items) ∧
      (∀ batch ∈ w.inFlight, ∀ item ∈ batch.items, item.mailbox = batch.mailbox) ∧
      ∀ batch ∈ w.inFlight, (∀ item ∈ batch.items, item.itemKind = .artefact) ∨
        ∃ item, batch.items = [item] := by
  have hw : Leased w :=
    Run.exec_invariant Leased (fun _ _ _ hleased hstep => hleased.step hstep) leased_empty hrun
  exact ⟨hw.pendingFree, hw.snapshot, hw.mailboxes, hw.shape⟩

theorem claimed_rows_kept_of_backfill :
    ∃ w, Run.exec step World.empty (replacedInTimeActions.take 2) = some w ∧
      w.inFlight.length = 1 ∧ ∀ batch ∈ w.inFlight, ∀ item ∈ w.items.rows,
        item.leaseToken = some batch.leaseToken → item ∈ batch.items := by
  have hfacts : (Run.exec step World.empty (replacedInTimeActions.take 2)).map
      (fun w => w.inFlight.length) = some 1 := by decide
  obtain ⟨w, hrun, hlength⟩ := Option.map_eq_some_iff.mp hfacts
  exact ⟨w, hrun, hlength, (claimed_rows_kept hrun).2.1⟩

end Enrichment
end Bitloops
