import Bitloops.Checkpoints.BlobStore
import Bitloops.Checkpoints.TokenUsage
import Bitloops.Foundation.OrderBy
import Bitloops.Foundation.WriteSequence
import Mathlib

/-!
# Committed checkpoints

A committed checkpoint has a row in `checkpoints`, and for each of its sessions a row in
`checkpoint_sessions`, three blobs, their references and the rows of its provenance.
`write_committed` and `update_committed` make these writes one after the other and stop at the
first that fails.  The row of a session is found by the session; a session without a row gets the
next index.

Hashing, redaction and what a call asks of git and of the clock are parameters.
-/

namespace Bitloops
namespace Checkpoints

/-- What the storage of a repository is set up with. -/
structure CheckpointServices where
  repoId : String
  blobBackend : String
  cliVersion : String
  sha256Hex : List UInt8 → String
  redactJsonlBytesWithFallback : List UInt8 → List UInt8
  redactBytes : List UInt8 → List UInt8
  redactText : String → String
  redactJsonValue : String → String
  redactSummary : String → Option String

/-! ## Rows -/

/-- A row of `checkpoint_sessions`. -/
structure CheckpointSessionRow where
  checkpointId : String
  sessionId : String
  sessionIndex : ℕ
  agent : String
  turnId : String
  checkpointsCount : UInt32
  isTask : Bool
  toolUseId : String
  transcriptIdentifierAtStart : String
  checkpointTranscriptStart : ℤ
  initialAttribution : Option String
  tokenUsage : Option TokenUsageMetadata
  summary : Option String
  authorName : String
  authorEmail : String
  transcriptPath : String
  subagentTranscriptPath : String
  contentHash : String
  createdAt : String
  deriving DecidableEq, Repr

/-- The primary key of a session row. -/
def CheckpointSessionRow.key (r : CheckpointSessionRow) : String × ℕ :=
  (r.checkpointId, r.sessionIndex)

/-- A row of `checkpoints`. -/
structure CheckpointRow where
  checkpointId : String
  repoId : String
  strategy : String
  branch : String
  cliVersion : String
  checkpointsCount : UInt32
  tokenUsage : Option TokenUsageMetadata
  createdAt : String
  updatedAt : String
  deriving DecidableEq, Repr

inductive ProvenanceKind where
  | file
  | artefact
  | lineage
  deriving DecidableEq, Repr

/-- A row of one of the three provenance tables. -/
structure ProvenanceRow where
  kind : ProvenanceKind
  relationId : String
  repoId : String
  checkpointId : String
  sessionId : String
  columns : String
  deriving DecidableEq, Repr

structure Storage where
  sessions : UniqueTable CheckpointSessionRow CheckpointSessionRow.key
  checkpoints : UniqueTable CheckpointRow (·.checkpointId)
  blobs : BlobTable
  references : BlobReferenceTable
  provenance : UniqueTable ProvenanceRow fun r => (r.kind, r.relationId)

def Storage.empty : Storage := ⟨.empty, .empty, .empty, .empty, .empty⟩

/-- One write; `none` when the storage refuses it. -/
abbrev StorageWrite := Storage → Option Storage

/-! ## Queries -/

/-- The session rows of a checkpoint. -/
def Storage.sessionRows (s : Storage) (checkpointId : String) : List CheckpointSessionRow :=
  s.sessions.rows.filter (·.checkpointId = checkpointId)

def findCheckpointSessionIndex (checkpointId sessionId : String) (s : Storage) : Option ℕ :=
  (orderBy (·.sessionIndex)
    ((s.sessionRows checkpointId).filter (·.sessionId = sessionId))).head?.map (·.sessionIndex)

def latestCheckpointSessionIndex (checkpointId : String) (s : Storage) : Option ℕ :=
  (orderBy (·.sessionIndex) (s.sessionRows checkpointId)).getLast?.map (·.sessionIndex)

def resolveCheckpointSessionIndexForWrite (checkpointId sessionId : String) (s : Storage) : ℕ :=
  match findCheckpointSessionIndex checkpointId sessionId s with
  | some existing => existing
  | none => ((latestCheckpointSessionIndex checkpointId s).map (· + 1)).getD 0

def aggregateCheckpointMetadata (checkpointId : String) (s : Storage) :
    UInt32 × Option TokenUsageMetadata :=
  let rows := orderBy (·.sessionIndex) (s.sessionRows checkpointId)
  let checkpointsTotal := (rows.map (·.checkpointsCount.toNat)).sum
  (UInt32.ofNat (min checkpointsTotal (2 ^ 32 - 1)),
    rows.foldl (fun usage row => aggregateTokenUsage usage row.tokenUsage) none)

/-! ## Writes -/

def contentHash (services : CheckpointServices) (payload : List UInt8) : String :=
  "sha256:" ++ services.sha256Hex payload

def blobPath (services : CheckpointServices) (checkpointId : String) (sessionIndex : ℕ)
    (blobType : BlobType) : Option (List Char) :=
  normalizeBlobKey (buildBlobKey services.repoId checkpointId sessionIndex blobType)

def writeBlob (services : CheckpointServices) (checkpointId : String) (sessionIndex : ℕ)
    (blobType : BlobType) (payload : List UInt8) : StorageWrite := fun s => do
  let path ← blobPath services checkpointId sessionIndex blobType
  return { s with blobs := s.blobs.upsert { path, data := payload } }

def upsertCheckpointBlobReference (services : CheckpointServices) (checkpointId : String)
    (sessionIndex : ℕ) (blobType : BlobType) (payload : List UInt8) : StorageWrite := fun s =>
  let key := buildBlobKey services.repoId checkpointId sessionIndex blobType
  let reference := CheckpointBlobReference.new checkpointId sessionIndex blobType
    services.blobBackend key (contentHash services payload) payload.length
  some { s with references := s.references.upsert reference }

/-- The blob, and then its reference. -/
def upsertCheckpointBlob (services : CheckpointServices) (checkpointId : String)
    (sessionIndex : ℕ) (blobType : BlobType) (payload : List UInt8) : List StorageWrite :=
  [writeBlob services checkpointId sessionIndex blobType payload,
    upsertCheckpointBlobReference services checkpointId sessionIndex blobType payload]

/-- The `ON CONFLICT` clause of a session row. -/
def mergeSessionRow (old excluded : CheckpointSessionRow) : CheckpointSessionRow :=
  { excluded with createdAt := old.createdAt }

def upsertCheckpointSessionRow (row : CheckpointSessionRow) : StorageWrite := fun s =>
  some { s with sessions := s.sessions.upsertMerged mergeSessionRow row }

def replaceCheckpointProvenanceRowsForSession (repoId checkpointId sessionId : String)
    (rows : List ProvenanceRow) : StorageWrite := fun s =>
  let kept := s.provenance.delete fun r =>
    r.repoId = repoId ∧ r.checkpointId = checkpointId ∧ r.sessionId = sessionId
  some { s with provenance := rows.foldl (fun table row => table.upsert row) kept }

/-- The `ON CONFLICT` clause of a checkpoint row. -/
def mergeCheckpointRow (old excluded : CheckpointRow) : CheckpointRow :=
  { excluded with createdAt := old.createdAt }

def upsertCheckpointRow (services : CheckpointServices) (checkpointId strategy branch now : String)
    (aggregate : UInt32 × Option TokenUsageMetadata) : StorageWrite := fun s =>
  let row : CheckpointRow :=
    { checkpointId
      repoId := services.repoId
      strategy
      branch
      cliVersion := services.cliVersion
      checkpointsCount := aggregate.1
      tokenUsage := aggregate.2
      createdAt := now
      updatedAt := now }
  some { s with checkpoints := s.checkpoints.upsertMerged mergeCheckpointRow row }

/-! ## Writing a committed checkpoint -/

structure WriteCommittedOptions where
  checkpointId : String
  sessionId : String
  strategy : String := ""
  agent : String := ""
  transcript : List UInt8 := []
  prompts : Option (List String) := none
  context : Option (List UInt8) := none
  checkpointsCount : UInt32 := 0
  filesTouched : List String := []
  tokenUsageInput : Option UInt64 := none
  tokenUsageOutput : Option UInt64 := none
  tokenUsageApiCallCount : Option UInt64 := none
  turnId : String := ""
  transcriptIdentifierAtStart : String := ""
  checkpointTranscriptStart : ℤ := 0
  tokenUsage : Option TokenUsageMetadata := none
  initialAttribution : Option String := none
  authorName : String := ""
  authorEmail : String := ""
  summary : Option String := none
  isTask : Bool := false
  toolUseId : String := ""
  transcriptPath : String := ""
  subagentTranscriptPath : String := ""
  deriving DecidableEq, Repr

/-- What a call finds outside of the storage, and the number of writes it is let through. -/
structure CallContext where
  branch : String := ""
  createdAt : String := ""
  now : String := ""
  authorName : String := ""
  authorEmail : String := ""
  provenance : Option (List ProvenanceRow) := none
  stop : Option ℕ := none
  deriving DecidableEq, Repr

def tokenUsageFromOptions (inputTokens outputTokens apiCallCount : Option UInt64) :
    Option TokenUsageMetadata :=
  if inputTokens.isNone ∧ outputTokens.isNone ∧ apiCallCount.isNone then none
  else
    some (.flat
      { inputTokens := inputTokens.getD 0
        outputTokens := outputTokens.getD 0
        apiCallCount := apiCallCount.getD 0 })

def trimText (text : String) : String :=
  String.ofList
    ((text.toList.dropWhile Daemon.isWhitespace).reverse.dropWhile Daemon.isWhitespace).reverse

def canonicalAgentKey (agent : String) : String :=
  let key := (trimText agent).map Char.toLower
  match key with
  | "copilot-cli" | "github-copilot" => "copilot"
  | "open-code" => "opencode"
  | key => key

def promptSeparator : String := "\n\n---\n\n"

def promptBytes (services : CheckpointServices) (prompts : List String) : List UInt8 :=
  (services.redactText (promptSeparator.intercalate prompts)).toUTF8.toList

/-- The session row of a call. -/
def sessionRowOf (services : CheckpointServices) (ctx : CallContext)
    (opts : WriteCommittedOptions) (sessionIndex : ℕ) : CheckpointSessionRow where
  checkpointId := opts.checkpointId
  sessionId := opts.sessionId
  sessionIndex
  agent := canonicalAgentKey opts.agent
  turnId := opts.turnId
  checkpointsCount := opts.checkpointsCount
  isTask := opts.isTask
  toolUseId := opts.toolUseId
  transcriptIdentifierAtStart := opts.transcriptIdentifierAtStart
  checkpointTranscriptStart := opts.checkpointTranscriptStart
  initialAttribution := opts.initialAttribution.map services.redactJsonValue
  tokenUsage := opts.tokenUsage <|> tokenUsageFromOptions opts.tokenUsageInput
    opts.tokenUsageOutput opts.tokenUsageApiCallCount
  summary := opts.summary.bind services.redactSummary
  authorName := if opts.authorName = "" then ctx.authorName else opts.authorName
  authorEmail := if opts.authorEmail = "" then ctx.authorEmail else opts.authorEmail
  transcriptPath := opts.transcriptPath
  subagentTranscriptPath := opts.subagentTranscriptPath
  contentHash := contentHash services (services.redactJsonlBytesWithFallback opts.transcript)
  createdAt := ctx.createdAt

/-- The blobs of a session and their references. -/
def blobWrites (services : CheckpointServices) (opts : WriteCommittedOptions)
    (sessionIndex : ℕ) : List StorageWrite :=
  upsertCheckpointBlob services opts.checkpointId sessionIndex .transcript
      (services.redactJsonlBytesWithFallback opts.transcript) ++
    upsertCheckpointBlob services opts.checkpointId sessionIndex .prompts
      (promptBytes services (opts.prompts.getD [])) ++
    upsertCheckpointBlob services opts.checkpointId sessionIndex .context
      (services.redactBytes (opts.context.getD []))

/-- The provenance of a session, if there is a commit. -/
def persistCheckpointProvenanceRows (services : CheckpointServices) (ctx : CallContext)
    (opts : WriteCommittedOptions) : StorageWrite := fun s =>
  match ctx.provenance with
  | none => some s
  | some rows => replaceCheckpointProvenanceRowsForSession services.repoId opts.checkpointId
      opts.sessionId rows s

/-- The row of the checkpoint, aggregated over its session rows. -/
def upsertAggregatedCheckpointRow (services : CheckpointServices) (ctx : CallContext)
    (opts : WriteCommittedOptions) : StorageWrite := fun s =>
  upsertCheckpointRow services opts.checkpointId opts.strategy ctx.branch ctx.now
    (aggregateCheckpointMetadata opts.checkpointId s) s

/-- `persist_committed_checkpoint_db_and_blobs`, for the index that was resolved before. -/
def committedWrites (services : CheckpointServices) (ctx : CallContext)
    (opts : WriteCommittedOptions) (sessionIndex : ℕ) : List StorageWrite :=
  blobWrites services opts sessionIndex ++
    [upsertCheckpointSessionRow (sessionRowOf services ctx opts sessionIndex),
      persistCheckpointProvenanceRows services ctx opts,
      upsertAggregatedCheckpointRow services ctx opts]

/-- The storage after the call, and whether it succeeded. -/
def writeCommitted (services : CheckpointServices) (ctx : CallContext)
    (opts : WriteCommittedOptions) (s : Storage) : Storage × Bool :=
  if opts.checkpointId = "" then (s, false)
  else
    let sessionIndex :=
      resolveCheckpointSessionIndexForWrite opts.checkpointId opts.sessionId s
    runWrites ctx.stop (committedWrites services ctx opts sessionIndex) s

/-! ## Updating a committed checkpoint -/

structure UpdateCommittedOptions where
  checkpointId : String
  sessionId : String
  transcript : Option (List UInt8) := none
  prompts : Option (List String) := none
  context : Option (List UInt8) := none
  agent : String := ""
  deriving DecidableEq, Repr

def CheckpointSessionRow.withContentHash (hash : String) (r : CheckpointSessionRow) :
    CheckpointSessionRow := { r with contentHash := hash }

theorem key_withContentHash (hash : String) (r : CheckpointSessionRow) :
    (r.withContentHash hash).key = r.key := rfl

def updateSessionContentHash (checkpointId : String) (sessionIndex : ℕ) (hash : String) :
    StorageWrite := fun s =>
  some { s with
    sessions := s.sessions.modify
      (fun r => r.checkpointId = checkpointId ∧ r.sessionIndex = sessionIndex)
      (CheckpointSessionRow.withContentHash hash) (key_withContentHash hash) }

def touchCheckpointUpdatedAt (checkpointId now : String) : StorageWrite := fun s =>
  some { s with
    checkpoints := s.checkpoints.modify (fun r => r.checkpointId = checkpointId)
      (fun r => { r with updatedAt := now }) fun _ => rfl }

/-- A new transcript and its hash. -/
def transcriptWrites (services : CheckpointServices) (opts : UpdateCommittedOptions)
    (sessionIndex : ℕ) : List StorageWrite :=
  match opts.transcript.filter fun transcript => !transcript.isEmpty with
  | none => []
  | some transcript =>
    let redacted := services.redactJsonlBytesWithFallback transcript
    upsertCheckpointBlob services opts.checkpointId sessionIndex .transcript redacted ++
      [updateSessionContentHash opts.checkpointId sessionIndex (contentHash services redacted)]

def promptsWrites (services : CheckpointServices) (opts : UpdateCommittedOptions)
    (sessionIndex : ℕ) : List StorageWrite :=
  match opts.prompts.filter fun prompts => !prompts.isEmpty with
  | none => []
  | some prompts => upsertCheckpointBlob services opts.checkpointId sessionIndex .prompts
      (promptBytes services prompts)

def contextWrites (services : CheckpointServices) (opts : UpdateCommittedOptions)
    (sessionIndex : ℕ) : List StorageWrite :=
  match opts.context.filter fun context => !context.isEmpty with
  | none => []
  | some context => upsertCheckpointBlob services opts.checkpointId sessionIndex .context
      (services.redactBytes context)

def updatedWrites (services : CheckpointServices) (ctx : CallContext)
    (opts : UpdateCommittedOptions) (sessionIndex : ℕ) : List StorageWrite :=
  let writes := transcriptWrites services opts sessionIndex ++
    promptsWrites services opts sessionIndex ++ contextWrites services opts sessionIndex
  if writes.isEmpty then [] else writes ++ [touchCheckpointUpdatedAt opts.checkpointId ctx.now]

/-- The storage after the call, and whether it succeeded. -/
def updateCommitted (services : CheckpointServices) (ctx : CallContext)
    (opts : UpdateCommittedOptions) (s : Storage) : Storage × Bool :=
  if opts.checkpointId = "" then (s, false)
  else
    match findCheckpointSessionIndex opts.checkpointId opts.sessionId s <|>
        latestCheckpointSessionIndex opts.checkpointId s with
    | none => (s, false)
    | some sessionIndex => runWrites ctx.stop (updatedWrites services ctx opts sessionIndex) s

end Checkpoints
end Bitloops
