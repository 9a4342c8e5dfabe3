import Mathlib.Data.Prod.Lex
import Mathlib.Data.String.Basic
import Bitloops.Foundation.OrderBy
import Bitloops.Foundation.UniqueTable

/-!
# Semantic mailbox items

The summary store and the embedding store keep their items in two tables of the same shape;
the embedding store has a mailbox for each representation.  The model keeps the rows of both
in one table, and a row knows its mailbox.

An item names one artefact, or the artefacts of its payload, or, as a whole-repository
backfill, every artefact.  Enqueueing coalesces: an item whose dedupe key is in use overwrites
the payload of the pending item with that key, and is dropped if that item is leased or failed.
-/

namespace Bitloops
namespace Enrichment

/-! ## Mailboxes -/

inductive EmbeddingRepresentationKind where
  | code
  | identity
  | architecture
  | summary
  deriving DecidableEq, Repr

inductive SemanticStore where
  | summaryRefresh
  | embedding (representationKind : EmbeddingRepresentationKind)
  deriving DecidableEq, Repr

/-- The name of the mailbox. -/
def SemanticStore.mailboxName : SemanticStore → String
  | .summaryRefresh => "semantic_clones.summary_refresh"
  | .embedding .code => "semantic_clones.embedding.code"
  | .embedding .identity => "semantic_clones.embedding.identity"
  | .embedding .architecture => "semantic_clones.embedding.architecture"
  | .embedding .summary => "semantic_clones.embedding.summary"

structure SemanticMailbox where
  repoId : String
  store : SemanticStore
  deriving DecidableEq, Repr

/-! ## Items -/

inductive SemanticMailboxItemKind where
  | artefact
  | repoBackfill
  deriving DecidableEq, Repr

inductive SemanticMailboxItemStatus where
  | pending
  | leased
  | failed
  deriving DecidableEq, Repr

/-- `payload_json`: a list of artefact identifiers, or the path of an architecture cleanup. -/
inductive MailboxPayload where
  | artefactIds (ids : List String)
  | pathCleanup (path : String)
  deriving DecidableEq, Repr

/-- `payload_artefact_ids_from_value`. -/
def payloadArtefactIdsFromValue : MailboxPayload → List String
  | .artefactIds ids => ids
  | .pathCleanup _ => []

/-- `SemanticSummaryMailboxItemInsert` and `SemanticEmbeddingMailboxItemInsert`. -/
structure SemanticMailboxItemInsert where
  mailbox : SemanticMailbox
  initSessionId : Option String
  itemKind : SemanticMailboxItemKind
  artefactId : Option String
  payload : Option MailboxPayload
  dedupeKey : Option String
  deriving DecidableEq, Repr

/-- A row of one of the two stores. -/
structure SemanticMailboxItem extends SemanticMailboxItemInsert where
  itemId : String
  status : SemanticMailboxItemStatus
  attempts : ℕ
  availableAtUnix : ℕ
  submittedAtUnix : ℕ
  leasedAtUnix : Option ℕ
  leaseExpiresAtUnix : Option ℕ
  leaseToken : Option ℕ
  updatedAtUnix : ℕ
  lastError : Option String
  deriving DecidableEq, Repr

abbrev MailboxTable := UniqueTable SemanticMailboxItem SemanticMailboxItem.itemId

/-- The artefacts that an item asks for. -/
def SemanticMailboxItemInsert.Names (item : SemanticMailboxItemInsert) (artefactId : String) :
    Prop :=
  match item.itemKind, item.payload with
  | .artefact, _ => item.artefactId = some artefactId
  | .repoBackfill, none => True
  | .repoBackfill, some payload => artefactId ∈ payloadArtefactIdsFromValue payload

instance (item : SemanticMailboxItemInsert) : DecidablePred item.Names := fun _ => by
  unfold SemanticMailboxItemInsert.Names
  split <;> infer_instance

/-! ## Enqueueing -/

/-- The position of a status in the `ORDER BY` of the lookups. -/
def SemanticMailboxItemStatus.dedupeRank : SemanticMailboxItemStatus → ℕ
  | .leased => 0
  | .pending => 1
  | .failed => 2

/-- `load_deduped_summary_mailbox_item` and its siblings: the item that is live under the key. -/
def loadDedupedMailboxItem (t : MailboxTable) (mailbox : SemanticMailbox)
    (dedupeKey : Option String) : Option SemanticMailboxItem :=
  match dedupeKey with
  | none => none
  | some dedupeKey =>
    (orderBy (fun item => toLex (item.status.dedupeRank, item.submittedAtUnix))
      (t.rows.filter fun item => item.mailbox = mailbox ∧ item.dedupeKey = some dedupeKey)).head?

/-- A new item is pending and available at once. -/
def newMailboxItem (now : ℕ) (itemId : String) (insert : SemanticMailboxItemInsert) :
    SemanticMailboxItem :=
  { insert with
    itemId
    status := .pending
    attempts := 0
    availableAtUnix := now
    submittedAtUnix := now
    leasedAtUnix := none
    leaseExpiresAtUnix := none
    leaseToken := none
    updatedAtUnix := now
    lastError := none }

/-- A pending item takes over the payload of the insert with its key. -/
def refreshMailboxItem (now : ℕ) (insert : SemanticMailboxItemInsert)
    (item : SemanticMailboxItem) : SemanticMailboxItem :=
  { item with
    initSessionId := item.initSessionId.or insert.initSessionId
    payload := insert.payload
    updatedAtUnix := now
    availableAtUnix := now
    lastError := none }

/-- One turn of the loops of `enqueue_semantic_summary_mailbox_items` and
`enqueue_semantic_embedding_mailbox_items`, and `upsert_runtime_embedding_mailbox_item`.  (The
loop of the embedding store looks the keys up beforehand and keeps the rows it found up to date,
so that it sees what a query would return.) -/
def enqueueMailboxItem (now : ℕ) (itemId : String) (insert : SemanticMailboxItemInsert)
    (t : MailboxTable) : Option MailboxTable :=
  match loadDedupedMailboxItem t insert.mailbox insert.dedupeKey with
  | some existing =>
    if existing.status = .pending then
      some (t.modify (fun item => item.itemId = existing.itemId) (refreshMailboxItem now insert)
        fun _ => rfl)
    else some t
  | none => t.insert? (newMailboxItem now itemId insert)

/-- The whole loop, with an identifier for each item that may have to be inserted. -/
def enqueueMailboxItems (now : ℕ) :
    List (String × SemanticMailboxItemInsert) → MailboxTable → Option MailboxTable
  | [], t => some t
  | (itemId, insert) :: rest, t =>
    (enqueueMailboxItem now itemId insert t).bind (enqueueMailboxItems now rest)

/-! ## Requests -/

def repoBackfillMailboxChunkSize : ℕ := 32

def repoBackfillDedupeKey (mailboxName : String) : String := mailboxName ++ ":repo_backfill"

/-- `digest` is the hexadecimal SHA-256 digest of the name and the identifiers. -/
def repoBackfillChunkDedupeKey (digest : String → List String → String) (mailboxName : String)
    (artefactIds : List String) : String :=
  mailboxName ++ ":repo_backfill:chunk:" ++ digest mailboxName artefactIds

/-- `slice::chunks`. -/
def chunks (size : ℕ) (ids : List String) : List (List String) :=
  go ids.length ids
where
  go : ℕ → List String → List (List String)
    | _, [] => []
    | 0, _ :: _ => []
    | fuel + 1, ids@(_ :: _) => ids.take size :: go fuel (ids.drop size)

/-- The item for one artefact. -/
def artefactItem (mailbox : SemanticMailbox) (initSessionId : Option String)
    (artefactId : String) : SemanticMailboxItemInsert where
  mailbox := mailbox
  initSessionId := initSessionId
  itemKind := .artefact
  artefactId := some artefactId
  payload := none
  dedupeKey := some (mailbox.store.mailboxName ++ ":" ++ artefactId)

/-- A backfill of the artefacts, or of the whole repository. -/
def repoBackfillItem (mailbox : SemanticMailbox) (initSessionId : Option String)
    (artefactIds : Option (List String)) (dedupeKey : String) : SemanticMailboxItemInsert where
  mailbox := mailbox
  initSessionId := initSessionId
  itemKind := .repoBackfill
  artefactId := none
  payload := artefactIds.map .artefactIds
  dedupeKey := some dedupeKey

/-- `enqueue_workplane_summary_jobs` and `enqueue_workplane_embedding_jobs`: without artefacts
the whole repository is asked for. -/
def workplaneJobItems (mailbox : SemanticMailbox) (initSessionId : Option String)
    (artefactIds : List String) : List SemanticMailboxItemInsert :=
  if artefactIds = [] then
    [repoBackfillItem mailbox initSessionId none (repoBackfillDedupeKey mailbox.store.mailboxName)]
  else artefactIds.map (artefactItem mailbox initSessionId)

/-- `enqueue_workplane_summary_repo_backfill_job` and
`enqueue_workplane_embedding_repo_backfill_job`. -/
def workplaneRepoBackfillItems (digest : String → List String → String)
    (mailbox : SemanticMailbox) (initSessionId : Option String) (artefactIds : List String) :
    List SemanticMailboxItemInsert :=
  (chunks repoBackfillMailboxChunkSize artefactIds).map fun chunkIds =>
    repoBackfillItem mailbox initSessionId (some chunkIds)
      (if artefactIds.length > repoBackfillMailboxChunkSize then
        repoBackfillChunkDedupeKey digest mailbox.store.mailboxName chunkIds
      else repoBackfillDedupeKey mailbox.store.mailboxName)

inductive SemanticClonesMailboxPayload where
  | artefact (artefactId : String)
  | pathCleanup (path : String)
  | repoBackfill (workItemCount : Option ℕ) (artefactIds : Option (List String))
  deriving DecidableEq, Repr

/-- `summary_mailbox_item_from_job` and `embedding_mailbox_item_from_job`, with
`semantic_mailbox_payload_parts`. -/
def mailboxItemFromJob (mailbox : SemanticMailbox) (initSessionId : Option String)
    (dedupeKey : Option String) : SemanticClonesMailboxPayload → SemanticMailboxItemInsert
  | .artefact artefactId =>
    { mailbox, initSessionId, dedupeKey, itemKind := .artefact, artefactId := some artefactId,
      payload := none }
  | .pathCleanup path =>
    { mailbox, initSessionId, dedupeKey, itemKind := .repoBackfill, artefactId := none,
      payload := some (.pathCleanup path) }
  | .repoBackfill _ artefactIds =>
    { mailbox, initSessionId, dedupeKey, itemKind := .repoBackfill, artefactId := none,
      payload := artefactIds.map .artefactIds }

/-! ## What the requests name -/

variable {mailbox : SemanticMailbox} {initSessionId : Option String} {artefactId : String}
  {artefactIds : List String}

theorem flatten_chunks {size : ℕ} (hsize : 0 < size) (ids : List String) :
    (chunks size ids).flatten = ids := by
  have hgo : ∀ (fuel : ℕ) (ids : List String), ids.length ≤ fuel →
      (chunks.go size fuel ids).flatten = ids := by
    intro fuel
    induction fuel with
    | zero =>
      intro ids hlen
      rw [List.length_eq_zero_iff.mp (Nat.le_zero.mp hlen)]
      rfl
    | succ fuel ih =>
      intro ids hlen
      cases ids with
      | nil => rfl
      | cons id ids =>
        have hdrop : ((id :: ids).drop size).length ≤ fuel := by
          rw [List.length_drop]
          omega
        rw [chunks.go, List.flatten_cons, ih _ hdrop, List.take_append_drop]
  exact hgo ids.length ids le_rfl

@[simp] theorem names_artefactItem {id : String} :
    (artefactItem mailbox initSessionId artefactId).Names id ↔ artefactId = id := by
  simp [SemanticMailboxItemInsert.Names, artefactItem]

@[simp] theorem names_repoBackfillItem {dedupeKey id : String} :
    (repoBackfillItem mailbox initSessionId (some artefactIds) dedupeKey).Names id ↔
      id ∈ artefactIds := by
  simp [SemanticMailboxItemInsert.Names, repoBackfillItem, payloadArtefactIdsFromValue]

end Enrichment
end Bitloops
