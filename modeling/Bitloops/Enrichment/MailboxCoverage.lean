import Bitloops.Enrichment.MailboxLease
import Mathlib

/-!
# Requested artefacts are kept

An artefact that was asked for is *retained* if a batch that was leased later has handled it,
or if a live item of the mailbox still names it.  Three steps can lose one: an enqueue that
overwrites the payload of a pending item, an enqueue that is dropped because the item under its
key is leased or failed, and a commit that deletes items whose artefacts were asked for again
while the batch was at work.  `Undisturbed` says that none of them does.
-/

namespace Bitloops
namespace Enrichment

/-! ## What items and batches cover -/

def SemanticMailboxItemInsert.Covers (item : SemanticMailboxItemInsert) (r : MailboxRequest) :
    Prop :=
  item.mailbox = r.mailbox ∧ item.Names r.artefactId

instance (item : SemanticMailboxItemInsert) : DecidablePred item.Covers :=
  fun _ => inferInstanceAs (Decidable (_ ∧ _))

/-- A live item of the mailbox names the artefact. -/
def TableCovers (t : MailboxTable) (r : MailboxRequest) : Prop := ∃ item ∈ t.rows, item.Covers r

instance (t : MailboxTable) : DecidablePred (TableCovers t) :=
  fun r => inferInstanceAs (Decidable (∃ item ∈ t.rows, item.Covers r))

/-- The representation of the batch is inactive, so that the whole batch is acknowledged. -/
def CompletedBatch.inactive (done : CompletedBatch) : Bool :=
  done.batch.mailbox.store ≠ .summaryRefresh && !done.inputs.representationActive

/-- The batch has taken the artefact, or has found that there is nothing to do for it: a
whole-repository backfill asks for current artefacts only. -/
def CompletedBatch.Handles (done : CompletedBatch) (r : MailboxRequest) : Prop :=
  ∃ item ∈ done.batch.items, item.mailbox = r.mailbox ∧
    ((done.inactive = true ∧ item.Names r.artefactId) ∨
      r.artefactId ∈
        (splitItem (semanticMailboxBatchSize done.batch.mailbox.store) done.inputs item).1 ∨
      (item.itemKind = .repoBackfill ∧ item.payload = none ∧
        r.artefactId ∉ done.inputs.backfillArtefactIds))

instance (done : CompletedBatch) : DecidablePred done.Handles :=
  fun r => inferInstanceAs (Decidable (∃ item ∈ done.batch.items, item.mailbox = r.mailbox ∧ _))

/-- A batch that was leased after the request was accepted has handled it. -/
def Handled (completed : List CompletedBatch) (accepted : Accepted MailboxRequest) : Prop :=
  ∃ done ∈ completed,
    accepted.startedBefore ≤ done.batch.leaseToken ∧ done.Handles accepted.request

instance (completed : List CompletedBatch) : DecidablePred (Handled completed) :=
  fun accepted => inferInstanceAs (Decidable (∃ done ∈ completed,
    accepted.startedBefore ≤ done.batch.leaseToken ∧ done.Handles accepted.request))

/-- Every artefact that was asked for was handled by a later batch or is named by a live item. -/
def Retained (w : World) : Prop :=
  ∀ accepted ∈ w.requests, Handled w.completed accepted ∨ TableCovers w.items accepted.request

instance (w : World) : Decidable (Retained w) :=
  inferInstanceAs (Decidable (∀ accepted ∈ w.requests, _ ∨ _))

/-! ## The condition -/

/-- The requests that no later batch has handled. -/
def awaitedRequests (completed : List CompletedBatch) (requests : List (Accepted MailboxRequest)) :
    List (Accepted MailboxRequest) :=
  requests.filter fun accepted => ¬ Handled completed accepted

/-- No awaited artefact is lost by the enqueue of one item.  If the item under its key is
pending, what that item and the new payload name is named afterwards by the refreshed item or
by another one; if it is leased or failed, what the dropped item names is named by a live item. -/
def SafeInsert (now : ℕ) (awaited : List MailboxRequest) (t : MailboxTable)
    (insert : SemanticMailboxItemInsert) : Prop :=
  match loadDedupedMailboxItem t insert.mailbox insert.dedupeKey with
  | none => True
  | some existing =>
    if existing.status = .pending then
      ∀ r ∈ awaited, existing.Covers r ∨ insert.Covers r →
        (refreshMailboxItem now insert existing).Covers r ∨
          ∃ other ∈ t.rows, other.itemId ≠ existing.itemId ∧ other.Covers r
    else ∀ r ∈ awaited, insert.Covers r → TableCovers t r

instance (now : ℕ) (awaited : List MailboxRequest) (t : MailboxTable)
    (insert : SemanticMailboxItemInsert) : Decidable (SafeInsert now awaited t insert) := by
  unfold SafeInsert
  split <;> infer_instance

/-- The same for the loop over several items; what an item asks for is awaited from its turn on. -/
def SafeInserts (now : ℕ) (currentIds : List String) :
    List (String × SemanticMailboxItemInsert) → List MailboxRequest → MailboxTable → Prop
  | [], _, _ => True
  | (itemId, insert) :: rest, awaited, t =>
    SafeInsert now (awaited ++ insert.requests currentIds) t insert ∧
      ∀ t' ∈ enqueueMailboxItem now itemId insert t,
        SafeInserts now currentIds rest (awaited ++ insert.requests currentIds) t'

instance SafeInserts.decidable (now : ℕ) (currentIds : List String) :
    ∀ (items : List (String × SemanticMailboxItemInsert)) (awaited : List MailboxRequest)
      (t : MailboxTable), Decidable (SafeInserts now currentIds items awaited t)
  | [], _, _ => isTrue trivial
  | (itemId, insert) :: rest, awaited, t =>
    have : DecidablePred (SafeInserts now currentIds rest
        (awaited ++ insert.requests currentIds)) :=
      SafeInserts.decidable now currentIds rest _
    inferInstanceAs (Decidable (_ ∧ ∀ t' ∈ enqueueMailboxItem now itemId insert t, _))

/-- What was asked for again after the batch was leased is not deleted with its items. -/
def LateRequestsKept (batch : ClaimedMailboxBatch) (replacement : Option SemanticMailboxItemInsert)
    (awaited : List (Accepted MailboxRequest)) (t : MailboxTable) : Prop :=
  ∀ accepted ∈ awaited, batch.leaseToken < accepted.startedBefore →
    TableCovers t accepted.request →
      TableCovers (t.delete batch.holds) accepted.request ∨
        ∃ insert ∈ replacement, insert.Covers accepted.request

instance (batch : ClaimedMailboxBatch) (replacement : Option SemanticMailboxItemInsert)
    (awaited : List (Accepted MailboxRequest)) (t : MailboxTable) :
    Decidable (LateRequestsKept batch replacement awaited t) :=
  inferInstanceAs (Decidable (∀ accepted ∈ awaited, _ → _ → _ ∨ ∃ insert ∈ replacement, _))

/-- A condition that depends on the store is decided for each. -/
def decidableForStore {p q : Prop} (store : SemanticStore) (hp : Decidable p) (hq : Decidable q) :
    Decidable (match store with
      | .summaryRefresh => p
      | .embedding _ => q) :=
  match store with
  | .summaryRefresh => hp
  | .embedding _ => hq

/-- The condition on the commit of a batch. -/
def SafeCommit (w : World) (batch : ClaimedMailboxBatch) (inputs : BatchInputs)
    (itemIds : String → String) (finalized : Bool) (now : ℕ) : Prop :=
  let request := prepareMailboxBatch batch inputs
  let awaited := awaitedRequests (w.completed ++ [{ batch, inputs }]) w.requests
  match batch.mailbox.store with
  | .summaryRefresh =>
    SafeInserts now [] (request.followUpItems itemIds) (awaited.map (·.request)) w.items ∧
      ∀ t ∈ enqueueMailboxItems now (request.followUpItems itemIds) w.items,
        LateRequestsKept batch request.replacementBackfillItem awaited t
  | .embedding _ =>
    finalized = true →
      LateRequestsKept batch request.replacementBackfillItem awaited w.items ∧
        ∀ insert ∈ request.replacementBackfillItem,
          SafeInsert now (awaited.map (·.request)) (w.items.delete batch.holds) insert

instance (w : World) (batch : ClaimedMailboxBatch) (inputs : BatchInputs)
    (itemIds : String → String) (finalized : Bool) (now : ℕ) :
    Decidable (SafeCommit w batch inputs itemIds finalized now) :=
  decidableForStore batch.mailbox.store inferInstance inferInstance

/-- No operation loses an awaited artefact. -/
def Undisturbed (w : World) : Action → Prop
  | .enqueue items currentIds now =>
    SafeInserts now currentIds items
      ((awaitedRequests w.completed w.requests).map (·.request)) w.items
  | .commitBatch leaseToken inputs itemIds _ _ finalized now =>
    ∀ batch ∈ w.inFlight.find? (·.leaseToken = leaseToken),
      SafeCommit w batch inputs itemIds finalized now
  | _ => True

instance (w : World) : DecidablePred (Undisturbed w)
  | .enqueue items currentIds now =>
    inferInstanceAs (Decidable (SafeInserts now currentIds items
      ((awaitedRequests w.completed w.requests).map (·.request)) w.items))
  | .commitBatch leaseToken inputs itemIds _ _ finalized now =>
    inferInstanceAs (Decidable (∀ batch ∈ w.inFlight.find? (·.leaseToken = leaseToken),
      SafeCommit w batch inputs itemIds finalized now))
  | .leaseBatch .. | .failBatch .. | .loseBatch .. | .recoverExpiredLeases .. | .retryFailed ..
  | .enqueueJob .. | .claimJob .. | .completeJob .. | .restart .. => isTrue trivial

/-! ## The enqueue of one item -/

section Enqueue

variable {now : ℕ} {itemId : String} {insert : SemanticMailboxItemInsert}
  {item existing : SemanticMailboxItem} {t t' : MailboxTable} {r : MailboxRequest}

@[simp] theorem covers_newMailboxItem :
    (newMailboxItem now itemId insert).Covers r ↔ insert.Covers r := Iff.rfl

/-- An artefact of the request is covered by the item. -/
theorem covers_of_mem_requests {currentIds : List String} (h : r ∈ insert.requests currentIds) :
    insert.Covers r := by
  unfold SemanticMailboxItemInsert.requests at h
  obtain ⟨id, hid, rfl⟩ := List.mem_map.mp h
  refine ⟨rfl, ?_⟩
  unfold SemanticMailboxItemInsert.Names
  cases hkind : insert.itemKind with
  | artefact =>
    simp only [hkind, Option.mem_toList] at hid ⊢
    exact hid
  | repoBackfill =>
    cases hpayload : insert.payload with
    | none => trivial
    | some payload =>
      simp only [hkind, hpayload] at hid ⊢
      exact hid

/-- A safe enqueue keeps what is awaited, and covers what the item asks for. -/
theorem SafeInsert.covers {awaited : List MailboxRequest}
    (hsafe : SafeInsert now awaited t insert)
    (h : enqueueMailboxItem now itemId insert t = some t') (hr : r ∈ awaited)
    (hcovers : TableCovers t r ∨ insert.Covers r) : TableCovers t' r := by
  unfold SafeInsert at hsafe
  rcases enqueueMailboxItem_cases h with
    ⟨-, hrows⟩ | ⟨existing, hexisting, ⟨hpending, hmem⟩ | ⟨hlive, rfl⟩⟩
  · rcases hcovers with ⟨item, hitem, hcovers⟩ | hcovers
    · exact ⟨item, hrows ▸ List.mem_append_left _ hitem, hcovers⟩
    · exact ⟨newMailboxItem now itemId insert, hrows ▸ List.mem_concat_self, hcovers⟩
  · rw [hexisting] at hsafe
    simp only [hpending, ↓reduceIte] at hsafe
    have hexistingMem := (mem_of_loadDedupedMailboxItem hexisting).1
    have hkept : existing.Covers r ∨ insert.Covers r → TableCovers t' r := by
      intro hneeded
      rcases hsafe r hr hneeded with hrefreshed | ⟨other, hother, hid, hcovers⟩
      · exact ⟨_, (hmem _).mpr (.inr rfl), hrefreshed⟩
      · exact ⟨other, (hmem _).mpr (.inl ⟨hother, hid⟩), hcovers⟩
    rcases hcovers with ⟨item, hitem, hcovers⟩ | hcovers
    · by_cases hid : item.itemId = existing.itemId
      · obtain rfl := UniqueTable.eq_of_key_eq hitem hexistingMem hid
        exact hkept (.inl hcovers)
      · exact ⟨item, (hmem _).mpr (.inl ⟨hitem, hid⟩), hcovers⟩
    · exact hkept (.inr hcovers)
  · rw [hexisting] at hsafe
    simp only [hlive, ↓reduceIte] at hsafe
    exact hcovers.elim id (hsafe r hr)

/-- The loop keeps what is awaited, and covers what its items ask for. -/
theorem SafeInserts.covers {currentIds : List String}
    {items : List (String × SemanticMailboxItemInsert)} {awaited : List MailboxRequest}
    (hsafe : SafeInserts now currentIds items awaited t)
    (h : enqueueMailboxItems now items t = some t')
    (hr : (r ∈ awaited ∧ TableCovers t r) ∨ r ∈ items.flatMap (·.2.requests currentIds)) :
    TableCovers t' r := by
  induction items generalizing t awaited with
  | nil =>
    cases h
    rcases hr with ⟨-, hcovers⟩ | hr
    · exact hcovers
    · cases hr
  | cons head rest ih =>
    obtain ⟨itemId, insert⟩ := head
    rw [enqueueMailboxItems, Option.bind_eq_some_iff] at h
    obtain ⟨next, hnext, hrest⟩ := h
    obtain ⟨hfirst, hlater⟩ := hsafe
    rcases hr with ⟨hr, hcovers⟩ | hr
    · have hr' := List.mem_append_left (insert.requests currentIds) hr
      exact ih (hlater next hnext) hrest (.inl ⟨hr', hfirst.covers hnext hr' (.inl hcovers)⟩)
    · rw [List.flatMap_cons] at hr
      rcases List.mem_append.mp hr with hr | hr
      · have hr' := List.mem_append_right awaited hr
        have hcovers := hfirst.covers hnext hr' (.inr (covers_of_mem_requests hr))
        exact ih (hlater next hnext) hrest (.inl ⟨hr', hcovers⟩)
      · exact ih (hlater next hnext) hrest (.inr hr)

end Enqueue

/-! ## What a batch handles -/

section Batches

variable {batch : ClaimedMailboxBatch} {inputs : BatchInputs} {item : SemanticMailboxItem}
  {r : MailboxRequest} {t : MailboxTable}

/-- The artefacts that a backfill asks for, split at the batch size. -/
theorem mem_splitItem_backfill (inputs : BatchInputs) (size : ℕ) {id : String}
    (hkind : item.itemKind = .repoBackfill) (hnames : item.Names id) :
    id ∈ (splitItem size inputs item).1 ∨
      (item.payload = none ∧ id ∉ inputs.backfillArtefactIds) ∨
        ∃ remaining, (splitItem size inputs item).2 = some remaining ∧ id ∈ remaining := by
  have hsplit : ∀ {requested : List String}, id ∈ requested →
      id ∈ requested.take size ∨
        ∃ remaining, (if requested.length > size then some (requested.drop size) else none) =
          some remaining ∧ id ∈ remaining := by
    intro requested hid
    rw [← List.take_append_drop size requested, List.mem_append] at hid
    refine hid.imp_right fun hdrop => ?_
    have hlen : requested.length > size := by
      have := List.length_pos_of_mem hdrop
      rw [List.length_drop] at this
      omega
    exact ⟨_, if_pos hlen, hdrop⟩
  unfold SemanticMailboxItemInsert.Names at hnames
  unfold splitItem
  rw [hkind] at hnames ⊢
  cases hpayload : item.payload with
  | none =>
    by_cases hid : id ∈ inputs.backfillArtefactIds
    · exact (hsplit hid).imp_right .inr
    · exact .inr (.inl ⟨rfl, hid⟩)
  | some payload =>
    rw [hpayload] at hnames
    exact (hsplit hnames).imp_right .inr

/-- A batch that prepares its items leaves the replacement of its backfill. -/
theorem prepareMailboxBatch_replacement (h : (CompletedBatch.mk batch inputs).inactive = false) :
    (prepareMailboxBatch batch inputs).replacementBackfillItem =
      replacementBackfillItem batch inputs := by
  unfold prepareMailboxBatch
  cases hstore : batch.mailbox.store with
  | summaryRefresh => rfl
  | embedding kind =>
    have hactive : inputs.representationActive = true := by
      simpa [CompletedBatch.inactive, hstore] using h
    simp only [prepareEmbeddingMailboxBatch, hactive, ↓reduceIte]

/-- What an item of the batch covers is handled, or covered by the replacement. -/
theorem handles_or_replaced
    (hshape : (∀ item ∈ batch.items, item.itemKind = .artefact) ∨ ∃ item, batch.items = [item])
    (hmailbox : item.mailbox = batch.mailbox) (hitem : item ∈ batch.items)
    (hcovers : item.Covers r) :
    (CompletedBatch.mk batch inputs).Handles r ∨
      ∃ insert ∈ (prepareMailboxBatch batch inputs).replacementBackfillItem,
        insert.Covers r := by
  obtain ⟨hr, hnames⟩ := hcovers
  cases hinactive : (CompletedBatch.mk batch inputs).inactive with
  | true => exact .inl ⟨item, hitem, hr, .inl ⟨hinactive, hnames⟩⟩
  | false =>
    rw [prepareMailboxBatch_replacement hinactive]
    cases hkind : item.itemKind with
    | artefact =>
      have hid : item.artefactId = some r.artefactId := by
        simpa [SemanticMailboxItemInsert.Names, hkind] using hnames
      refine .inl ⟨item, hitem, hr, .inr (.inl ?_)⟩
      simp [splitItem, hkind, hid]
    | repoBackfill =>
      rcases mem_splitItem_backfill inputs (semanticMailboxBatchSize batch.mailbox.store) hkind
        hnames with
        htaken | ⟨hpayload, habsent⟩ | ⟨remaining, hremaining, hid⟩
      · exact .inl ⟨item, hitem, hr, .inr (.inl htaken)⟩
      · exact .inl ⟨item, hitem, hr, .inr (.inr ⟨hkind, hpayload, habsent⟩)⟩
      · -- the batch has no other item, so its replacement is the one of this item
        have hitems : batch.items = [item] := by
          rcases hshape with hartefacts | ⟨only, honly⟩
          · rw [hartefacts item hitem] at hkind
            cases hkind
          · rw [honly] at hitem ⊢
            rw [List.mem_singleton.mp hitem]
        right
        simp only [replacementBackfillItem, hitems, List.foldl_cons, List.foldl_nil, hremaining]
        exact ⟨_, rfl, hmailbox ▸ hr, hid⟩

/-- What is covered before the items of the batch are deleted is handled by the batch, covered
afterwards, or covered by the replacement. -/
theorem LateRequestsKept.covers {awaited : List (Accepted MailboxRequest)}
    {accepted : Accepted MailboxRequest}
    (hlate : LateRequestsKept batch (prepareMailboxBatch batch inputs).replacementBackfillItem
      awaited t)
    (hshape : (∀ item ∈ batch.items, item.itemKind = .artefact) ∨ ∃ item, batch.items = [item])
    (hmailboxes : ∀ item ∈ batch.items, item.mailbox = batch.mailbox)
    (hsnapshot : ∀ item ∈ t.rows, item.leaseToken = some batch.leaseToken → item ∈ batch.items)
    (hmem : accepted ∈ awaited)
    (hunhandled : accepted.startedBefore ≤ batch.leaseToken →
      ¬ (CompletedBatch.mk batch inputs).Handles accepted.request)
    (hcovers : TableCovers t accepted.request) :
    TableCovers (t.delete batch.holds) accepted.request ∨
      ∃ insert ∈ (prepareMailboxBatch batch inputs).replacementBackfillItem,
        insert.Covers accepted.request := by
  rcases lt_or_ge batch.leaseToken accepted.startedBefore with hlt | hle
  · exact hlate accepted hmem hlt hcovers
  · obtain ⟨item, hitem, hcovers⟩ := hcovers
    cases hholds : batch.holds item with
    | false => exact .inl ⟨item, UniqueTable.mem_delete.mpr ⟨hitem, hholds⟩, hcovers⟩
    | true =>
      simp only [ClaimedMailboxBatch.holds, Bool.and_eq_true, decide_eq_true_eq] at hholds
      have hmine := hsnapshot item hitem hholds.1
      rcases handles_or_replaced hshape (hmailboxes item hmine) hmine hcovers with hdone | hnext
      · exact absurd hdone (hunhandled hle)
      · exact .inr hnext

end Batches

/-! ## The steps -/

section Steps

variable {now : ℕ} {t t' : MailboxTable} {batch : ClaimedMailboxBatch} {inputs : BatchInputs}
  {w w' : World} {accepted : Accepted MailboxRequest} {r : MailboxRequest}

/-- Rewriting rows into rows that ask for the same artefacts. -/
theorem TableCovers.rewrite {p : SemanticMailboxItem → Bool}
    {f : SemanticMailboxItem → SemanticMailboxItem}
    (hrows : t'.rows = t.rows.map fun item => if p item then f item else item)
    (hcontent : ∀ item, (f item).toSemanticMailboxItemInsert = item.toSemanticMailboxItemInsert)
    (h : TableCovers t r) : TableCovers t' r := by
  obtain ⟨item, hitem, hcovers⟩ := h
  refine ⟨if p item then f item else item, ?_, ?_⟩
  · rw [hrows]
    exact List.mem_map_of_mem hitem
  · split_ifs
    · rw [hcontent item]
      exact hcovers
    · exact hcovers

theorem mem_awaitedRequests {completed : List CompletedBatch}
    {requests : List (Accepted MailboxRequest)} (h : accepted ∈ requests)
    (hnot : ¬ Handled completed accepted) : accepted ∈ awaitedRequests completed requests :=
  List.mem_filter.mpr ⟨h, decide_eq_true hnot⟩

theorem Handled.append {completed more : List CompletedBatch} (h : Handled completed accepted) :
    Handled (completed ++ more) accepted := by
  obtain ⟨done, hmem, hdone⟩ := h
  exact ⟨done, List.mem_append_left _ hmem, hdone⟩

/-- Nothing changes for the requests if the table covers what it covered. -/
theorem Retained.of_covers (h : Retained w) (hrequests : w'.requests = w.requests)
    (hcompleted : w'.completed = w.completed)
    (hcovers : ∀ r, TableCovers w.items r → TableCovers w'.items r) : Retained w' := by
  intro accepted hmem
  rw [hrequests] at hmem
  rw [hcompleted]
  exact (h accepted hmem).imp_right (hcovers _)

/-- An enqueue keeps the awaited requests, and covers its own. -/
theorem Retained.enqueue {items : List (String × SemanticMailboxItemInsert)}
    {currentIds : List String} (h : Retained w)
    (hsafe : SafeInserts now currentIds items
      ((awaitedRequests w.completed w.requests).map (·.request)) w.items)
    (henqueue : enqueueMailboxItems now items w.items = some t') :
    Retained
      { w with
        items := t'
        requests :=
          w.requests ++ (items.flatMap (·.2.requests currentIds)).map (⟨·, w.leases⟩) } := by
  intro accepted hmem
  rcases List.mem_append.mp hmem with hold | hnew
  · by_cases hhandled : Handled w.completed accepted
    · exact .inl hhandled
    · right
      have hcovers := (h accepted hold).resolve_left hhandled
      have hawaited := mem_awaitedRequests hold hhandled
      exact hsafe.covers henqueue (.inl ⟨List.mem_map_of_mem hawaited, hcovers⟩)
  · obtain ⟨r, hr, rfl⟩ := List.mem_map.mp hnew
    exact .inr (hsafe.covers henqueue (.inr hr))

/-- A request that the batch has not handled either was covered before the commit. -/
theorem Retained.awaited (h : Retained w) (hmem : accepted ∈ w.requests)
    (hunhandled : ¬ Handled (w.completed ++ [⟨batch, inputs⟩]) accepted) :
    TableCovers w.items accepted.request ∧
      (accepted.startedBefore ≤ batch.leaseToken →
        ¬ (CompletedBatch.mk batch inputs).Handles accepted.request) := by
  refine ⟨(h accepted hmem).resolve_left fun hold => hunhandled hold.append, ?_⟩
  intro hstarted hdone
  exact hunhandled ⟨_, List.mem_concat_self, hstarted, hdone⟩

/-- The deletion of the items keeps what other mailboxes are asked for. -/
theorem TableCovers.delete_holds (h : TableCovers t r)
    (hmailboxes : ∀ item ∈ batch.items, item.mailbox = batch.mailbox)
    (hsnapshot : ∀ item ∈ t.rows, item.leaseToken = some batch.leaseToken → item ∈ batch.items)
    (hother : r.mailbox ≠ batch.mailbox) : TableCovers (t.delete batch.holds) r := by
  obtain ⟨item, hitem, hcovers⟩ := h
  refine ⟨item, UniqueTable.mem_delete.mpr ⟨hitem, ?_⟩, hcovers⟩
  cases hholds : batch.holds item with
  | false => rfl
  | true =>
    simp only [ClaimedMailboxBatch.holds, Bool.and_eq_true, decide_eq_true_eq] at hholds
    have hmine := hmailboxes item (hsnapshot item hitem hholds.1)
    exact absurd (hcovers.1.symm.trans hmine) hother

/-- A summary follow-up asks the mailbox of the summary embeddings. -/
theorem mailbox_of_mem_followUps {followUp : SemanticMailboxItemInsert}
    (h : followUp ∈ (prepareSummaryMailboxBatch batch inputs).embeddingFollowUps) :
    followUp.mailbox = { batch.mailbox with store := .embedding .summary } := by
  obtain ⟨id, -, rfl⟩ := List.mem_map.mp h
  rfl

/-- The replacement of a summary batch is inserted before the items are deleted. -/
theorem TableCovers.insert_replacement {replacement : Option SemanticMailboxItemInsert}
    {replacementId : String}
    (hrows : t'.rows = t.rows ++ (replacement.map (newMailboxItem now replacementId)).toList)
    (h : TableCovers (t.delete batch.holds) r ∨ ∃ insert ∈ replacement, insert.Covers r) :
    TableCovers (t'.delete batch.holds) r := by
  rcases h with ⟨item, hitem, hcovers⟩ | ⟨insert, hinsert, hcovers⟩
  · obtain ⟨hitem, hheld⟩ := UniqueTable.mem_delete.mp hitem
    exact ⟨item, UniqueTable.mem_delete.mpr ⟨hrows ▸ List.mem_append_left _ hitem, hheld⟩,
      hcovers⟩
  · refine ⟨newMailboxItem now replacementId insert, UniqueTable.mem_delete.mpr ⟨?_, ?_⟩,
      covers_newMailboxItem.mpr hcovers⟩
    · rw [hrows, List.mem_append, Option.mem_toList]
      exact .inr (Option.mem_map_of_mem _ hinsert)
    · simp [ClaimedMailboxBatch.holds, newMailboxItem]

/-- The commit of a summary batch. -/
theorem Retained.executeSummaryCommit {itemIds : String → String} {replacementId : String}
    {finalized : Bool} (hleased : Leased w) (hbatch : batch ∈ w.inFlight) (h : Retained w)
    (hstore : batch.mailbox.store = .summaryRefresh)
    (hsafe : SafeCommit w batch inputs itemIds finalized now)
    (hcommit : executeSummaryCommit batch (prepareMailboxBatch batch inputs) itemIds replacementId
      now w.items = some t') :
    Retained
      { w with
        items := t'
        completed := w.completed ++ [⟨batch, inputs⟩]
        inFlight := w.inFlight.filter (·.leaseToken ≠ batch.leaseToken)
        requests :=
          w.requests ++ ((prepareMailboxBatch batch inputs).embeddingFollowUps.flatMap
            (·.requests [])).map (⟨·, w.leases⟩) } := by
  simp only [SafeCommit, hstore] at hsafe
  obtain ⟨hinserts, hlate⟩ := hsafe
  obtain ⟨t₁, hfollowUps, t₂, rfl, hrows⟩ := executeSummaryCommit_cases hcommit
  have hmailboxes := hleased.mailboxes batch hbatch
  have hsnapshot : ∀ item ∈ t₁.rows, item.leaseToken = some batch.leaseToken →
      item ∈ batch.items := by
    intro item hitem htoken
    rcases noNewLeases_enqueueMailboxItems hleased.pendingFree hfollowUps item hitem
      with hold | hnone
    · exact hleased.snapshot batch hbatch item hold htoken
    · rw [hnone] at htoken
      cases htoken
  have hrequests :
      ((prepareMailboxBatch batch inputs).followUpItems itemIds).flatMap (·.2.requests []) =
        (prepareMailboxBatch batch inputs).embeddingFollowUps.flatMap (·.requests []) := by
    simp only [CommitBatchRequest.followUpItems, List.flatMap_map]
  intro accepted hmem
  rcases List.mem_append.mp hmem with hold | hnew
  · refine or_iff_not_imp_left.mpr fun hhandled => ?_
    obtain ⟨hcovers, hunhandled⟩ := h.awaited hold hhandled
    have hawaited := mem_awaitedRequests hold hhandled
    have hcovers₁ := hinserts.covers hfollowUps (.inl ⟨List.mem_map_of_mem hawaited, hcovers⟩)
    exact TableCovers.insert_replacement hrows ((hlate t₁ hfollowUps).covers
      (hleased.shape batch hbatch) hmailboxes hsnapshot hawaited hunhandled hcovers₁)
  · -- a follow-up asks another mailbox than the one of the deleted items
    obtain ⟨r, hr, rfl⟩ := List.mem_map.mp hnew
    have hcovers₁ := hinserts.covers hfollowUps (.inr (hrequests ▸ hr))
    refine .inr (TableCovers.insert_replacement hrows
      (.inl (hcovers₁.delete_holds hmailboxes hsnapshot ?_)))
    obtain ⟨followUp, hfollowUp, hr⟩ := List.mem_flatMap.mp hr
    simp only [prepareMailboxBatch, hstore] at hfollowUp
    rw [(covers_of_mem_requests hr).1.symm, mailbox_of_mem_followUps hfollowUp]
    intro heq
    have hsummary : SemanticStore.embedding .summary = batch.mailbox.store :=
      congrArg (·.store) heq
    rw [hstore] at hsummary
    cases hsummary

/-- The finalization of an embedding batch deletes its items before it enqueues the
replacement. -/
theorem Retained.executeEmbeddingRuntimeFinalization {itemIds : String → String}
    {replacementId : String} {representationKind : EmbeddingRepresentationKind} {jobs : JobTable}
    {changes : List (Accepted EmbeddingChange)}
    (hleased : Leased w) (hbatch : batch ∈ w.inFlight) (h : Retained w)
    (hstore : batch.mailbox.store = .embedding representationKind)
    (hsafe : SafeCommit w batch inputs itemIds true now)
    (hcommit : executeEmbeddingRuntimeFinalization batch (prepareMailboxBatch batch inputs)
      replacementId now w.items = some t') :
    Retained
      { w with
        items := t', jobs, changes
        completed := w.completed ++ [⟨batch, inputs⟩]
        inFlight := w.inFlight.filter (·.leaseToken ≠ batch.leaseToken) } := by
  simp only [SafeCommit, hstore, forall_const] at hsafe
  obtain ⟨hlate, hinsert⟩ := hsafe
  intro accepted hmem
  refine or_iff_not_imp_left.mpr fun hhandled => ?_
  obtain ⟨hcovers, hunhandled⟩ := h.awaited hmem hhandled
  have hawaited := mem_awaitedRequests hmem hhandled
  have hkept := hlate.covers (hleased.shape batch hbatch) (hleased.mailboxes batch hbatch)
    (hleased.snapshot batch hbatch) hawaited hunhandled hcovers
  unfold Enrichment.executeEmbeddingRuntimeFinalization at hcommit
  cases hreplacement : (prepareMailboxBatch batch inputs).replacementBackfillItem with
  | none =>
    simp only [hreplacement, Option.some.injEq] at hcommit
    subst hcommit
    rcases hkept with hkept | ⟨insert, hnone, -⟩
    · exact hkept
    · rw [hreplacement] at hnone
      cases hnone
  | some insert =>
    simp only [hreplacement] at hcommit
    refine (hinsert insert hreplacement).covers hcommit (List.mem_map_of_mem hawaited)
      (hkept.imp_right ?_)
    rintro ⟨other, hother, hcovers⟩
    rw [hreplacement] at hother
    cases hother
    exact hcovers

/-- **The step lemma.** -/
theorem Retained.step {action : Action} (hleased : Leased w) (h : Retained w)
    (hok : Undisturbed w action) (hstep : step w action = some w') : Retained w' := by
  cases action with
  | enqueue items currentIds now =>
    simp only [Enrichment.step, Option.bind_eq_bind, Option.bind_eq_some_iff, Option.some.injEq]
      at hstep
    obtain ⟨t', henqueue, rfl⟩ := hstep
    exact h.enqueue hok henqueue
  | leaseBatch mailbox now =>
    simp only [Enrichment.step, Option.bind_eq_bind, Option.bind_eq_some_iff, Option.some.injEq,
      Prod.exists] at hstep
    obtain ⟨t', batch, hlease, rfl⟩ := hstep
    obtain ⟨-, -, -, hrows⟩ := leaseMailboxBatchForRepo_cases hlease
    refine h.of_covers rfl rfl ?_
    rintro r ⟨item, hitem, hcovers⟩
    rcases hrows item hitem with hsame | htaken
    · exact ⟨item, hsame, hcovers⟩
    · exact ⟨_, htaken, hcovers⟩
  | commitBatch leaseToken inputs itemIds replacementId jobId finalized now =>
    simp only [Enrichment.step, Option.bind_eq_bind, Option.bind_eq_some_iff] at hstep
    obtain ⟨batch, hfind, hcommit⟩ := hstep
    have hbatch := List.mem_of_find?_eq_some hfind
    cases hstore : batch.mailbox.store with
    | summaryRefresh =>
      obtain ⟨items, hitems, rfl⟩ := commitBatch_summary_cases hstore hcommit
      exact h.executeSummaryCommit hleased hbatch hstore (hok batch hfind) hitems
    | embedding representationKind =>
      rcases commitBatch_embedding_cases hstore hcommit with
        ⟨-, rfl⟩ | ⟨rfl, jobs, items, -, hitems, rfl⟩
      · exact h.of_covers rfl rfl fun _ => id
      · exact h.executeEmbeddingRuntimeFinalization hleased hbatch hstore (hok batch hfind) hitems
  | failBatch leaseToken flush error now =>
    simp only [Enrichment.step, Option.bind_eq_bind, Option.bind_eq_some_iff, Option.some.injEq]
      at hstep
    obtain ⟨batch, -, rfl⟩ := hstep
    exact h.of_covers rfl rfl fun _ => TableCovers.rewrite rfl fun _ => rfl
  | loseBatch leaseToken =>
    cases hstep
    exact h.of_covers rfl rfl fun _ => id
  | recoverExpiredLeases now =>
    cases hstep
    exact h.of_covers rfl rfl fun _ => TableCovers.rewrite rfl fun _ => rfl
  | retryFailed now =>
    cases hstep
    exact h.of_covers rfl rfl fun _ => TableCovers.rewrite rfl fun _ => rfl
  | enqueueJob insert jobId now =>
    simp only [Enrichment.step, Option.bind_eq_bind, Option.bind_eq_some_iff, Option.some.injEq]
      at hstep
    obtain ⟨jobs, -, rfl⟩ := hstep
    exact h.of_covers rfl rfl fun _ => id
  | claimJob jobId now =>
    obtain ⟨job, -, -, -, -, rfl⟩ := claimJob_cases hstep
    exact h.of_covers rfl rfl fun _ => id
  | completeJob jobId error now =>
    simp only [Enrichment.step, Option.bind_eq_bind, Option.bind_eq_some_iff, Option.some.injEq]
      at hstep
    obtain ⟨job, -, rfl⟩ := hstep
    exact h.of_covers rfl rfl fun _ => id
  | restart now =>
    cases hstep
    exact h.of_covers rfl rfl fun _ => TableCovers.rewrite rfl fun _ => rfl

end Steps

/-! ## Runs -/

/-- A backfill grows while it is pending, and is asked for again while its batch is at work. -/
def growingBackfillActions : List Action :=
  let mailbox : SemanticMailbox := ⟨"repo", .embedding .code⟩
  let backfill := fun ids => (workplaneRepoBackfillItems (fun _ _ => "") mailbox none ids).map
    (Prod.mk "item")
  [.enqueue (backfill ["a"]) [] 0, .enqueue (backfill ["b", "a"]) [] 1, .leaseBatch mailbox 2,
    .enqueue [("again", artefactItem mailbox none "a")] [] 3,
    .commitBatch 0 ⟨true, [], ["a", "b"], ["a", "b"], [], []⟩ id "next" "job" true 4]

/-- Two small backfills of one mailbox. -/
def overwrittenBackfillActions : List Action :=
  let backfill := fun ids => (workplaneRepoBackfillItems (fun _ _ => "") ⟨"repo", .summaryRefresh⟩
    none ids).map (Prod.mk "item")
  [.enqueue (backfill ["a"]) [] 0, .enqueue (backfill ["b"]) [] 1]

end Enrichment
end Bitloops
