import Bitloops.Enrichment.MailboxItem
import Bitloops.Foundation.Coverage
import Bitloops.Foundation.Run
import Mathlib

/-!
# Mailbox batches and clone rebuilds

A worker leases a batch of one mailbox, prepares it and commits it.  A backfill that is larger
than a batch leaves a replacement item that names the remaining artefacts, and the batch that
ends a backfill of code or summary embeddings signals a rebuild of the clone edges.

What the relational store answers while a batch is prepared, the clock and the fresh
identifiers are part of the operations.  Lease tokens are numbered in the order in which they
are drawn.  The world also keeps four records that no operation reads: the artefacts that were
requested, the batches that were committed, the changes of embedding rows, and the clone
rebuilds that were started.
-/

namespace Bitloops
namespace Enrichment

/-! ## Leases -/

/-- `SEMANTIC_SUMMARY_MAILBOX_BATCH_SIZE` and `SEMANTIC_EMBEDDING_MAILBOX_BATCH_SIZE`. -/
def semanticMailboxBatchSize : SemanticStore → ℕ
  | .summaryRefresh => 16
  | .embedding _ => 32

def semanticMailboxLeaseSecs : ℕ := 300

structure ClaimedMailboxBatch where
  mailbox : SemanticMailbox
  leaseToken : ℕ
  items : List SemanticMailboxItem

def isAvailable (now : ℕ) (mailbox : SemanticMailbox) (item : SemanticMailboxItem) : Bool :=
  item.mailbox = mailbox && item.status = .pending && item.availableAtUnix ≤ now

/-- `ORDER BY submitted_at_unix ASC, item_id ASC`. -/
def submissionOrder (item : SemanticMailboxItem) : ℕ ×ₗ String :=
  toLex (item.submittedAtUnix, item.itemId)

/-- `load_selected_summary_item_ids` and `load_selected_embedding_item_ids`. -/
def selectedItems (t : MailboxTable) (mailbox : SemanticMailbox)
    (itemKind : SemanticMailboxItemKind) (now : ℕ) : List SemanticMailboxItem :=
  (orderBy submissionOrder
    (t.rows.filter fun item => isAvailable now mailbox item && item.itemKind = itemKind)).take
    (match itemKind with
    | .repoBackfill => 1
    | .artefact => semanticMailboxBatchSize mailbox.store)

def leaseItem (now leaseToken : ℕ) (item : SemanticMailboxItem) : SemanticMailboxItem :=
  { item with
    status := .leased
    attempts := item.attempts + 1
    leasedAtUnix := some now
    leaseExpiresAtUnix := some (now + semanticMailboxLeaseSecs)
    leaseToken := some leaseToken
    updatedAtUnix := now }

/-- `lease_summary_mailbox_batch_for_repo` and `lease_embedding_mailbox_batch_for_repo`. -/
def leaseMailboxBatchForRepo (now : ℕ) (mailbox : SemanticMailbox) (leaseToken : ℕ)
    (t : MailboxTable) : Option (MailboxTable × ClaimedMailboxBatch) := do
  let oldest ← (orderBy submissionOrder (t.rows.filter (isAvailable now mailbox))).head?
  let selected := selectedItems t mailbox oldest.itemKind now
  if selected = [] then none
  else
    some
      (t.modify
          (fun item => item.status = .pending && item.itemId ∈ selected.map (·.itemId))
          (leaseItem now leaseToken) fun _ => rfl,
        { mailbox, leaseToken, items := selected.map (leaseItem now leaseToken) })

/-- The rows that an acknowledgement or a failure of the batch concerns. -/
def ClaimedMailboxBatch.holds (batch : ClaimedMailboxBatch) (item : SemanticMailboxItem) : Bool :=
  item.leaseToken = some batch.leaseToken && item.itemId ∈ batch.items.map (·.itemId)

/-! ## Failures and recovery -/

def isRetryableEmbeddingFailure (error : String) : Bool :=
  let lower := (error.map Char.toLower).toList
  "timed out after".toList <:+: lower || "was cancelled".toList <:+: lower ||
    "was canceled".toList <:+: lower

def transientEmbeddingRetryBackoffSecs : ℕ → ℕ
  | 0 | 1 => 5
  | 2 => 15
  | _ => 30

def workplaneTransientEmbeddingRetryLimit : ℕ := 3

/-- The status of the items of a failed batch, with the seconds until they are available: the
preparation has failed, or (`flush`) the commit. -/
def failedBatchStatus (batch : ClaimedMailboxBatch) (flush : Bool) (error : String) :
    SemanticMailboxItemStatus × ℕ :=
  let attempts := (batch.items.map (·.attempts)).foldl max 0
  if flush then (.pending, 5)
  else
    match batch.mailbox.store with
    | .summaryRefresh => (.failed, 0)
    | .embedding _ =>
      if attempts < workplaneTransientEmbeddingRetryLimit ∧ isRetryableEmbeddingFailure error then
        (.pending, transientEmbeddingRetryBackoffSecs attempts)
      else (.failed, 0)

/-- An item without a lease. -/
def releaseItem (status : SemanticMailboxItemStatus) (availableAtUnix now : ℕ)
    (lastError : Option String) (item : SemanticMailboxItem) : SemanticMailboxItem :=
  { item with
    status
    availableAtUnix
    leasedAtUnix := none
    leaseExpiresAtUnix := none
    leaseToken := none
    updatedAtUnix := now
    lastError }

/-- `update_summary_mailbox_batch_failure` and `update_embedding_mailbox_batch_failure`. -/
def updateMailboxBatchFailure (batch : ClaimedMailboxBatch) (flush : Bool) (error : String)
    (now : ℕ) (t : MailboxTable) : MailboxTable :=
  let (status, retryInSecs) := failedBatchStatus batch flush error
  t.modify batch.holds (releaseItem status (now + retryInSecs) now (some error)) fun _ => rfl

/-- `recover_expired_semantic_inbox_leases`. -/
def recoverExpiredSemanticInboxLeases (now : ℕ) (t : MailboxTable) : MailboxTable :=
  t.modify (fun item => item.status = .leased && item.leaseExpiresAtUnix.any (· ≤ now))
    (fun item => releaseItem .pending item.availableAtUnix now item.lastError item) fun _ => rfl

/-- `requeue_leased_semantic_inbox_items` and `retry_failed_semantic_inbox_items`. -/
def requeueSemanticInboxItems (status : SemanticMailboxItemStatus) (now : ℕ) (t : MailboxTable) :
    MailboxTable :=
  t.modify (fun item => item.status = status)
    (fun item => releaseItem .pending item.availableAtUnix now none item) fun _ => rfl

/-! ## Preparation -/

/-- What the preparation of a batch reads. -/
structure BatchInputs where
  /-- The representation is active and has a provider. -/
  representationActive : Bool
  /-- `load_current_summary_backfill_artefact_ids` and its sibling. -/
  backfillArtefactIds : List String
  /-- The artefacts for which `load_current_semantic_inputs` returns an input. -/
  currentInputs : List String
  /-- The artefacts for which `build_symbol_embedding_inputs` returns an input. -/
  embeddingInputs : List String
  /-- The artefacts whose historical and current embedding rows are fresh. -/
  freshInputs : List String
  /-- The artefacts whose summary is embedded next. -/
  summaryFollowUps : List String

/-- The artefacts of an item that the batch takes, and those that remain. -/
def splitItem (batchSize : ℕ) (inputs : BatchInputs) (item : SemanticMailboxItem) :
    List String × Option (List String) :=
  match item.itemKind with
  | .artefact => (item.artefactId.toList, none)
  | .repoBackfill =>
    let requested :=
      match item.payload with
      | some payload => payloadArtefactIdsFromValue payload
      | none => inputs.backfillArtefactIds
    (requested.take batchSize,
      if requested.length > batchSize then some (requested.drop batchSize) else none)

/-- `replacement_backfill_item`: the last item with remaining artefacts counts. -/
def replacementBackfillItem (batch : ClaimedMailboxBatch) (inputs : BatchInputs) :
    Option SemanticMailboxItemInsert :=
  batch.items.foldl
    (fun replacement item =>
      match (splitItem (semanticMailboxBatchSize batch.mailbox.store) inputs item).2 with
      | some remaining =>
        some
          { mailbox := batch.mailbox
            initSessionId := item.initSessionId
            itemKind := .repoBackfill
            artefactId := none
            payload := some (.artefactIds remaining)
            dedupeKey := item.dedupeKey }
      | none => replacement)
    none

/-- `expanded_inputs`: the artefacts that the batch takes and that are current. -/
def expandedInputs (batch : ClaimedMailboxBatch) (inputs : BatchInputs) : List String :=
  ((batch.items.flatMap fun item =>
    (splitItem (semanticMailboxBatchSize batch.mailbox.store) inputs item).1).filter
      (· ∈ inputs.currentInputs)).eraseDups

/-- `CommitSummaryBatchRequest` and `CommitEmbeddingBatchRequest`. -/
structure CommitBatchRequest where
  embeddingFollowUps : List SemanticMailboxItemInsert
  replacementBackfillItem : Option SemanticMailboxItemInsert
  cloneRebuildSignal : Bool
  /-- `upserted_any`. -/
  upsertedAny : Bool

/-- `summary_embedding_follow_up_for`: a follow-up belongs to the init session of its items, if
there is exactly one. -/
def summaryEmbeddingFollowUpFor (batch : ClaimedMailboxBatch) (inputs : BatchInputs)
    (artefactId : String) : SemanticMailboxItemInsert :=
  let size := semanticMailboxBatchSize batch.mailbox.store
  let initSessionIds :=
    ((batch.items.filter fun item => artefactId ∈ (splitItem size inputs item).1).filterMap
      (·.initSessionId)).eraseDups
  let initSessionId :=
    match initSessionIds with
    | [initSessionId] => some initSessionId
    | _ => none
  artefactItem { batch.mailbox with store := .embedding .summary } initSessionId artefactId

/-- `prepare_summary_mailbox_batch`; the summaries of the artefacts are embedded next. -/
def prepareSummaryMailboxBatch (batch : ClaimedMailboxBatch) (inputs : BatchInputs) :
    CommitBatchRequest where
  embeddingFollowUps :=
    ((expandedInputs batch inputs).filter (· ∈ inputs.summaryFollowUps)).map
      (summaryEmbeddingFollowUpFor batch inputs)
  replacementBackfillItem := replacementBackfillItem batch inputs
  cloneRebuildSignal := false
  upsertedAny := false

/-- `prepare_embedding_mailbox_batch`.  An inactive representation acknowledges the batch. -/
def prepareEmbeddingMailboxBatch (batch : ClaimedMailboxBatch)
    (representationKind : EmbeddingRepresentationKind) (inputs : BatchInputs) :
    CommitBatchRequest :=
  if inputs.representationActive then
    let replacement := replacementBackfillItem batch inputs
    let expanded := expandedInputs batch inputs
    let upsertedAny :=
      expanded.any fun id => id ∈ inputs.embeddingInputs && id ∉ inputs.freshInputs
    let repairedFeatureProjection := representationKind = .code && !expanded.isEmpty
    let repoBackfillHasRemainingFollowUp :=
      replacement.isSome && batch.items.any (·.itemKind = .repoBackfill)
    { embeddingFollowUps := []
      replacementBackfillItem := replacement
      cloneRebuildSignal :=
        !repoBackfillHasRemainingFollowUp && (upsertedAny || repairedFeatureProjection) &&
          (representationKind = .code || representationKind = .summary)
      upsertedAny }
  else
    { embeddingFollowUps := [], replacementBackfillItem := none, cloneRebuildSignal := false,
      upsertedAny := false }

def prepareMailboxBatch (batch : ClaimedMailboxBatch) (inputs : BatchInputs) :
    CommitBatchRequest :=
  match batch.mailbox.store with
  | .summaryRefresh => prepareSummaryMailboxBatch batch inputs
  | .embedding representationKind => prepareEmbeddingMailboxBatch batch representationKind inputs

/-! ## Workplane jobs -/

inductive WorkplaneJobStatus where
  | pending
  | running
  | completed
  | failed
  deriving DecidableEq, Repr

/-- A row of `capability_workplane_jobs` of the capability `semantic_clones`. -/
structure WorkplaneJob where
  jobId : String
  repoId : String
  mailboxName : String
  initSessionId : Option String
  dedupeKey : Option String
  status : WorkplaneJobStatus
  attempts : ℕ
  availableAtUnix : ℕ
  submittedAtUnix : ℕ
  startedAtUnix : Option ℕ
  updatedAtUnix : ℕ
  completedAtUnix : Option ℕ
  lastError : Option String
  deriving DecidableEq, Repr

abbrev JobTable := UniqueTable WorkplaneJob WorkplaneJob.jobId

def cloneRebuildMailbox : String := "semantic_clones.clone_rebuild"

structure WorkplaneJobInsert where
  repoId : String
  mailboxName : String
  initSessionId : Option String
  dedupeKey : Option String
  deriving DecidableEq, Repr

/-- `ORDER BY CASE status WHEN 'running' THEN 0 ELSE 1 END, submitted_at_unix ASC`. -/
def liveJobOrder (job : WorkplaneJob) : ℕ ×ₗ ℕ :=
  toLex (if job.status = .running then 0 else 1, job.submittedAtUnix)

def WorkplaneJob.isLive (job : WorkplaneJob) : Bool :=
  job.status = .running || job.status = .pending

/-- A pending job is refreshed, a running one is left as it is, and otherwise a job is inserted. -/
def upsertWorkplaneJob (now : ℕ) (jobId : String) (insert : WorkplaneJobInsert)
    (existing : Option WorkplaneJob) (t : JobTable) : Option JobTable :=
  match existing with
  | some existing =>
    if existing.status = .pending then
      some
        (t.modify (fun job => job.jobId = existing.jobId)
          (fun job =>
            { job with updatedAtUnix := now, availableAtUnix := now, lastError := none })
          fun _ => rfl)
    else some t
  | none =>
    t.insert?
      { jobId
        repoId := insert.repoId
        mailboxName := insert.mailboxName
        initSessionId := insert.initSessionId
        dedupeKey := insert.dedupeKey
        status := .pending
        attempts := 0
        availableAtUnix := now
        submittedAtUnix := now
        startedAtUnix := none
        updatedAtUnix := now
        completedAtUnix := none
        lastError := none }

/-- `load_deduped_job` and `enqueue_capability_workplane_jobs`. -/
def enqueueCapabilityWorkplaneJob (now : ℕ) (jobId : String) (insert : WorkplaneJobInsert)
    (t : JobTable) : Option JobTable :=
  let existing :=
    match insert.dedupeKey with
    | none => none
    | some dedupeKey =>
      (orderBy liveJobOrder (t.rows.filter fun job =>
        job.repoId = insert.repoId ∧ job.mailboxName = insert.mailboxName ∧
          job.initSessionId = insert.initSessionId ∧ job.dedupeKey = some dedupeKey ∧
          job.isLive)).head?
  upsertWorkplaneJob now jobId insert existing t

/-- `upsert_runtime_clone_rebuild_signal_in_store`; the lookup does not look at the session. -/
def upsertRuntimeCloneRebuildSignal (now : ℕ) (jobId repoId : String) (t : JobTable) :
    Option JobTable :=
  let existing :=
    (orderBy liveJobOrder (t.rows.filter fun job =>
      job.repoId = repoId ∧ job.mailboxName = cloneRebuildMailbox ∧
        job.dedupeKey = some cloneRebuildMailbox ∧ job.isLive)).head?
  upsertWorkplaneJob now jobId
    { repoId, mailboxName := cloneRebuildMailbox, initSessionId := none,
      dedupeKey := some cloneRebuildMailbox }
    existing t

def isEmbeddingMailbox (mailboxName : String) : Bool :=
  mailboxName ∈ ["semantic_clones.embedding.code", "semantic_clones.embedding.identity",
    "semantic_clones.embedding.architecture", "semantic_clones.embedding.summary"]

/-- `repo_has_active_embedding_work`. -/
def repoHasActiveEmbeddingWork (repoId : String) (items : MailboxTable) (jobs : JobTable) : Bool :=
  (items.rows.any fun item =>
    item.mailbox.repoId = repoId && item.mailbox.store ≠ .summaryRefresh &&
      (item.status = .pending || item.status = .leased)) ||
  jobs.rows.any fun job => job.repoId = repoId && isEmbeddingMailbox job.mailboxName && job.isLive

/-- `claim_pending_workplane_job`. -/
def claimPendingWorkplaneJob (now : ℕ) (job : WorkplaneJob) : WorkplaneJob :=
  { job with
    status := .running
    attempts := job.attempts + 1
    startedAtUnix := some (job.startedAtUnix.getD now)
    updatedAtUnix := now }

/-- `persist_workplane_job_completion`: what the completion of the claimed job writes. -/
def persistWorkplaneJobCompletion (claimed : WorkplaneJob) (error : Option String) (now : ℕ)
    (job : WorkplaneJob) : WorkplaneJob :=
  match error with
  | none =>
    { job with
      status := .completed, updatedAtUnix := now, completedAtUnix := some now, lastError := none }
  | some message =>
    if isEmbeddingMailbox claimed.mailboxName ∧
        claimed.attempts < workplaneTransientEmbeddingRetryLimit ∧
        isRetryableEmbeddingFailure message then
      { job with
        status := .pending
        availableAtUnix := now + transientEmbeddingRetryBackoffSecs claimed.attempts
        startedAtUnix := none
        updatedAtUnix := now
        completedAtUnix := none
        lastError := error }
    else
      { job with
        status := .failed, updatedAtUnix := now, completedAtUnix := some now, lastError := error }

/-- `requeue_running_workplane_jobs` and `retry_failed_workplane_jobs`. -/
def requeueWorkplaneJobs (status : WorkplaneJobStatus) (now : ℕ) (t : JobTable) : JobTable :=
  t.modify (fun job => job.status = status)
    (fun job =>
      { job with
        status := .pending
        startedAtUnix := none
        updatedAtUnix := now
        completedAtUnix := if status = .failed then none else job.completedAtUnix
        lastError := if status = .failed then none else job.lastError })
    fun _ => rfl

/-! ## The world -/

/-- An artefact that a mailbox was asked for. -/
structure MailboxRequest where
  mailbox : SemanticMailbox
  artefactId : String
  deriving DecidableEq, Repr

/-- A committed batch, with what its preparation has read. -/
structure CompletedBatch where
  batch : ClaimedMailboxBatch
  inputs : BatchInputs

/-- A commit that has changed embedding rows; `chain` are the mailboxes and the dedupe keys of
the items of the batch. -/
structure EmbeddingChange where
  repoId : String
  chain : List (SemanticMailbox × Option String)
  deriving DecidableEq, Repr

structure World where
  items : MailboxTable
  jobs : JobTable
  inFlight : List ClaimedMailboxBatch
  /-- The claimed copies of the jobs that are executed. -/
  executing : List WorkplaneJob
  /-- How many lease tokens have been drawn. -/
  leases : ℕ
  requests : List (Accepted MailboxRequest)
  completed : List CompletedBatch
  changes : List (Accepted EmbeddingChange)
  /-- The repositories whose rebuild was started. -/
  rebuilds : List String

def World.empty : World := ⟨.empty, .empty, [], [], 0, [], [], [], []⟩

/-- The artefacts that an insert asks for; `currentIds` are the current artefacts. -/
def SemanticMailboxItemInsert.requests (currentIds : List String)
    (insert : SemanticMailboxItemInsert) : List MailboxRequest :=
  (match insert.itemKind, insert.payload with
    | .artefact, _ => insert.artefactId.toList
    | .repoBackfill, none => currentIds
    | .repoBackfill, some payload => payloadArtefactIdsFromValue payload).map
    (MailboxRequest.mk insert.mailbox)

inductive Action where
  /-- The items, each with the identifier under which it may be inserted. -/
  | enqueue (items : List (String × SemanticMailboxItemInsert)) (currentIds : List String)
      (now : ℕ)
  | leaseBatch (mailbox : SemanticMailbox) (now : ℕ)
  /-- `itemIds` are the identifiers of the follow-ups, by artefact.  Without `finalized`, only
  the relational part of an embedding commit succeeds. -/
  | commitBatch (leaseToken : ℕ) (inputs : BatchInputs) (itemIds : String → String)
      (replacementId jobId : String) (finalized : Bool) (now : ℕ)
  | failBatch (leaseToken : ℕ) (flush : Bool) (error : String) (now : ℕ)
  /-- The worker of the batch ends without a trace. -/
  | loseBatch (leaseToken : ℕ)
  | recoverExpiredLeases (now : ℕ)
  | retryFailed (now : ℕ)
  | enqueueJob (insert : WorkplaneJobInsert) (jobId : String) (now : ℕ)
  | claimJob (jobId : String) (now : ℕ)
  | completeJob (jobId : String) (error : Option String) (now : ℕ)
  | restart (now : ℕ)

/-- The follow-ups with their identifiers. -/
def CommitBatchRequest.followUpItems (request : CommitBatchRequest) (itemIds : String → String) :
    List (String × SemanticMailboxItemInsert) :=
  request.embeddingFollowUps.map fun insert => (itemIds (insert.artefactId.getD ""), insert)

/-- `execute_summary_commit`. -/
def executeSummaryCommit (batch : ClaimedMailboxBatch) (request : CommitBatchRequest)
    (itemIds : String → String) (replacementId : String) (now : ℕ) (t : MailboxTable) :
    Option MailboxTable := do
  let t ← enqueueMailboxItems now (request.followUpItems itemIds) t
  let t ←
    match request.replacementBackfillItem with
    | some insert => t.insert? (newMailboxItem now replacementId insert)
    | none => some t
  some (t.delete batch.holds)

/-- The mailbox part of `execute_embedding_runtime_finalization`. -/
def executeEmbeddingRuntimeFinalization (batch : ClaimedMailboxBatch)
    (request : CommitBatchRequest) (replacementId : String) (now : ℕ) (t : MailboxTable) :
    Option MailboxTable :=
  match request.replacementBackfillItem with
  | some insert => enqueueMailboxItem now replacementId insert (t.delete batch.holds)
  | none => some (t.delete batch.holds)

/-- The change that a commit of code or summary embeddings makes, if it changes rows. -/
def embeddingChange (batch : ClaimedMailboxBatch) (request : CommitBatchRequest) :
    Option EmbeddingChange :=
  if request.upsertedAny ∧ (batch.mailbox.store = .embedding .code ∨
      batch.mailbox.store = .embedding .summary) then
    some
      { repoId := batch.mailbox.repoId
        chain := batch.items.map fun item => (item.mailbox, item.dedupeKey) }
  else none

/-- A batch is prepared and committed. -/
def commitBatch (w : World) (batch : ClaimedMailboxBatch) (inputs : BatchInputs)
    (itemIds : String → String) (replacementId jobId : String) (finalized : Bool) (now : ℕ) :
    Option World :=
  let request := prepareMailboxBatch batch inputs
  let changes :=
    w.changes ++ (embeddingChange batch request).toList.map (⟨·, w.rebuilds.length⟩)
  let completed := w.completed ++ [{ batch, inputs }]
  let inFlight := w.inFlight.filter (·.leaseToken ≠ batch.leaseToken)
  match batch.mailbox.store with
  | .summaryRefresh => do
    let items ← executeSummaryCommit batch request itemIds replacementId now w.items
    some
      { w with
        items, completed, inFlight
        requests :=
          w.requests ++ (request.embeddingFollowUps.flatMap (·.requests [])).map (⟨·, w.leases⟩) }
  | .embedding _ =>
    if finalized then do
      let jobs ←
        if request.cloneRebuildSignal then
          upsertRuntimeCloneRebuildSignal now jobId batch.mailbox.repoId w.jobs
        else some w.jobs
      let items ← executeEmbeddingRuntimeFinalization batch request replacementId now w.items
      some { w with items, jobs, completed, inFlight, changes }
    else some { w with changes }

/-- One operation.  Which mailbox or job a worker tries, and whether it is paused or ready, is
left to the environment; identifiers that are drawn are not in use. -/
def step (w : World) : Action → Option World
  | .enqueue items currentIds now => do
    let table ← enqueueMailboxItems now items w.items
    some
      { w with
        items := table
        requests :=
          w.requests ++ (items.flatMap (·.2.requests currentIds)).map (⟨·, w.leases⟩) }
  | .leaseBatch mailbox now => do
    let (items, batch) ← leaseMailboxBatchForRepo now mailbox w.leases w.items
    some { w with items, inFlight := w.inFlight ++ [batch], leases := w.leases + 1 }
  | .commitBatch leaseToken inputs itemIds replacementId jobId finalized now => do
    let batch ← w.inFlight.find? (·.leaseToken = leaseToken)
    commitBatch w batch inputs itemIds replacementId jobId finalized now
  | .failBatch leaseToken flush error now => do
    let batch ← w.inFlight.find? (·.leaseToken = leaseToken)
    some
      { w with
        items := updateMailboxBatchFailure batch flush error now w.items
        inFlight := w.inFlight.filter (·.leaseToken ≠ leaseToken) }
  | .loseBatch leaseToken =>
    some { w with inFlight := w.inFlight.filter (·.leaseToken ≠ leaseToken) }
  | .recoverExpiredLeases now =>
    some { w with items := recoverExpiredSemanticInboxLeases now w.items }
  | .retryFailed now =>
    some
      { w with
        items := requeueSemanticInboxItems .failed now w.items
        jobs := requeueWorkplaneJobs .failed now w.jobs }
  | .enqueueJob insert jobId now => do
    let jobs ← enqueueCapabilityWorkplaneJob now jobId insert w.jobs
    some { w with jobs }
  | .claimJob jobId now => do
    let job ← w.jobs.rows.find? fun job =>
      job.jobId = jobId && job.status = .pending && job.availableAtUnix ≤ now
    if job.mailboxName = cloneRebuildMailbox ∧
        repoHasActiveEmbeddingWork job.repoId w.items w.jobs then
      none
    else
      some
        { w with
          jobs := w.jobs.modify (fun other => other.jobId = jobId)
            (claimPendingWorkplaneJob now) fun _ => rfl
          executing := w.executing ++ [claimPendingWorkplaneJob now job]
          rebuilds :=
            if job.mailboxName = cloneRebuildMailbox then w.rebuilds ++ [job.repoId]
            else w.rebuilds }
  | .completeJob jobId error now => do
    let job ← w.executing.find? (·.jobId = jobId)
    some
      { w with
        jobs := w.jobs.modify (fun other => other.jobId = job.jobId)
          (persistWorkplaneJobCompletion job error now) fun other => by
            unfold persistWorkplaneJobCompletion
            split
            · rfl
            · split_ifs <;> rfl
        executing := w.executing.filter (·.jobId ≠ jobId) }
  | .restart now =>
    some
      { w with
        items := requeueSemanticInboxItems .leased now w.items
        jobs := requeueWorkplaneJobs .running now w.jobs
        inFlight := []
        executing := [] }

/-- What a claim needs, and what it does. -/
theorem claimJob_cases {w w' : World} {jobId : String} {now : ℕ}
    (h : step w (.claimJob jobId now) = some w') :
    ∃ job ∈ w.jobs.rows, job.jobId = jobId ∧ job.status = .pending ∧
      (job.mailboxName = cloneRebuildMailbox →
        repoHasActiveEmbeddingWork job.repoId w.items w.jobs = false) ∧
      w' =
        { w with
          jobs := w.jobs.modify (fun other => other.jobId = jobId)
            (claimPendingWorkplaneJob now) fun _ => rfl
          executing := w.executing ++ [claimPendingWorkplaneJob now job]
          rebuilds :=
            if job.mailboxName = cloneRebuildMailbox then w.rebuilds ++ [job.repoId]
            else w.rebuilds } := by
  simp only [step, Option.bind_eq_bind, Option.bind_eq_some_iff] at h
  obtain ⟨job, hfind, h⟩ := h
  have hjob := List.find?_some hfind
  simp only [Bool.and_eq_true, decide_eq_true_eq] at hjob
  by_cases hactive : job.mailboxName = cloneRebuildMailbox ∧
      repoHasActiveEmbeddingWork job.repoId w.items w.jobs
  · rw [if_pos hactive] at h
    cases h
  · rw [if_neg hactive] at h
    refine ⟨job, List.mem_of_find?_eq_some hfind, hjob.1.1, hjob.1.2, fun hmailbox => ?_,
      (Option.some.inj h).symm⟩
    simpa [hmailbox] using hactive

end Enrichment
end Bitloops
