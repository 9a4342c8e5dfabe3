import Bitloops.Interactions.SpoolAgreement
import Bitloops.PostCommit.Turns

/-!
# Post-commit derivation

After a commit the turns without a checkpoint that touch committed files are condensed, session
by session, into one checkpoint whose identifier is drawn anew by each attempt.  A session is
written with `write_committed`; then each of its turns gets the checkpoint, or keeps the files
that are left.  The commit is mapped to the checkpoint at the end.  An attempt stops at the first
step that fails, and what it has stored by then stays.

The choices of the environment are fields of an `Attempt`; `condensed` is the history of the
calls of `write_committed` that stored their session row.
-/

namespace Bitloops
namespace PostCommit

open Checkpoints Interactions

/-! ## State -/

/-- A row of `commit_checkpoints`. -/
structure CommitCheckpointRow where
  commitSha : String
  checkpointId : String
  repoId : String
  deriving DecidableEq, Repr

/-- The primary key of a mapping. -/
def CommitCheckpointRow.key (r : CommitCheckpointRow) : String × String :=
  (r.commitSha, r.checkpointId)

/-- The turns of a session have gone into a checkpoint. -/
structure Condensation where
  checkpointId : String
  sessionId : String
  turnIds : List String
  deriving DecidableEq, Repr

structure State where
  world : World
  storage : Storage
  mappings : UniqueTable CommitCheckpointRow CommitCheckpointRow.key
  condensed : List Condensation

def commitHasCheckpointMapping (repoId head : String) (s : State) : Bool :=
  s.mappings.rows.any fun r => r.commitSha = head ∧ r.repoId = repoId

def insertCommitCheckpointMapping (repoId head checkpointId : String) (s : State) : State :=
  { s with mappings := s.mappings.insertOrIgnore { commitSha := head, checkpointId, repoId } }

/-! ## The environment of an attempt -/

/-- What an attempt finds out about a session, and which of its steps fail. -/
structure SessionContext where
  loadFails : Bool := false
  latestTreeHash : Option String := none
  hasLocalState : Bool := false
  stateLoadFails : Bool := false
  stateSaveFails : Bool := false
  authorFails : Bool := false
  authorName : String := ""
  authorEmail : String := ""
  initialAttribution : Option String := none
  summary : Option String := none
  call : CallContext := {}

structure Attempt where
  committedFiles : List String
  isRebaseInProgress : Bool := false
  /-- `generate_checkpoint_id`. -/
  checkpointId : { id : String // isValidCheckpointId id = true }
  assignedAt : String := ""
  git : GitTrees
  promptsOfTranscript : String → List String
  mappingReadFails : Bool := false
  spoolOpens : Bool := true
  repositoryOpens : Bool := true
  deliveries : List WriteBehind.Delivery := []
  flushFails : Bool := false
  listFails : Bool := false
  sessions : String → SessionContext := fun _ => {}
  turnUpsertFails : String → Bool := fun _ => false
  turnRefreshFails : String → Bool := fun _ => false
  mappingInsertFails : Bool := false

/-! ## Sources -/

/-- The event repository, with the spool if that opens; or the spool alone. -/
inductive PostCommitInteractionSources where
  | canonical (hasSpool : Bool)
  | localSpool
  deriving DecidableEq, Repr

/-- `WHERE repo_id AND checkpoint_id = '' ORDER BY session_id, turn_number, started_at`. -/
def uncheckpointedRows (repoId : String) (t : InteractionTables) : List TurnRow :=
  orderBy (fun row => toLex (row.sessionId, toLex (row.turnNumber, row.startedAt)))
    (t.turns.rows.filter fun row => row.repoId = repoId ∧ row.checkpointId = "")

def spoolHasPendingWork (repoId : String) (spool : Spool) : Bool :=
  !spool.queue.isEmpty || !(uncheckpointedRows repoId spool.tables).isEmpty

def Attempt.sources (a : Attempt) (repoId : String) (w : World) :
    Option PostCommitInteractionSources :=
  if a.repositoryOpens then some (.canonical a.spoolOpens)
  else if a.spoolOpens && spoolHasPendingWork repoId w.spool then some .localSpool
  else none

namespace PostCommitInteractionSources

def listUncheckpointedTurns (repoId : String) (w : World) :
    PostCommitInteractionSources → List InteractionTurn
  | .canonical _ => (uncheckpointedRows repoId w.repository).map DuckDb.mapTurnRow
  | .localSpool => (uncheckpointedRows repoId w.spool.tables).map mapTurnRow

def loadSession (sessionId : String) (w : World) :
    PostCommitInteractionSources → Option InteractionSession
  | .canonical _ => (w.repository.session? sessionId).map DuckDb.mapSessionRow
  | .localSpool => (w.spool.tables.session? sessionId).map mapSessionRow

def upsertTurn (repoId : String) (turn : InteractionTurn) (w : World) :
    PostCommitInteractionSources → Option World
  | .canonical _ => (DuckDb.upsertTurn repoId turn w.repository).map
      fun repository => { w with repository }
  | .localSpool => (recordTurn repoId turn w.spool).map fun spool => { w with spool }

/-- The refresh of the spool beside the repository. -/
def refreshTurn (repoId : String) (turn : InteractionTurn) (w : World) :
    PostCommitInteractionSources → Option World
  | .canonical true => (refreshTurnLocalOnly repoId turn w.spool).map fun spool => { w with spool }
  | .canonical false | .localSpool => some w

/-- `flush_interaction_spool_or_fail`: the error only counts if there were changes to flush. -/
def flush (repoId : String) (a : Attempt) (w : World) : PostCommitInteractionSources → World × Bool
  | .canonical true =>
    let flushed := w.flush repoId a.deliveries
    let failed := a.flushFails || !flushed.spool.queue.isEmpty
    (flushed, w.spool.queue.isEmpty || !failed)
  | .canonical false | .localSpool => (w, true)

end PostCommitInteractionSources

/-! ## Condensing a session -/

def aggregatedPrompts (a : Attempt) (session : InteractionSession)
    (turns : List InteractionTurn) : List String :=
  let prompts := aggregateTurnPrompts turns
  let prompts := if prompts.isEmpty then a.promptsOfTranscript (transcriptContent turns) else prompts
  if prompts.isEmpty && !isBlank session.firstPrompt then [session.firstPrompt] else prompts

def resolvedAgent (session : InteractionSession) (turns : List InteractionTurn) : String :=
  if !isBlank session.agentType then canonicalAgentKey session.agentType
  else
    match turns.find? fun turn => !isBlank turn.agentType with
    | some turn => canonicalAgentKey turn.agentType
    | none => "claude-code"

/-- The call of `write_committed` for a session. -/
def writeOptions (a : Attempt) (session : InteractionSession) (turns : List InteractionTurn)
    (committedTouched : List String) : WriteCommittedOptions :=
  let prompts := aggregatedPrompts a session turns
  let ctx := a.sessions session.sessionId
  { checkpointId := a.checkpointId
    sessionId := session.sessionId
    strategy := "manual-commit"
    agent := resolvedAgent session turns
    transcript := (transcriptContent turns).toUTF8.toList
    prompts := some prompts
    context := some (generateContextFromPrompts prompts).toUTF8.toList
    checkpointsCount := UInt32.ofNat (min turns.length (2 ^ 32 - 1))
    filesTouched := committedTouched
    turnId := (turns.getLast?.map (·.turnId)).getD ""
    tokenUsage := aggregateTurnTokenUsage turns
    initialAttribution := ctx.initialAttribution
    authorName := ctx.authorName
    authorEmail := ctx.authorEmail
    summary := ctx.summary
    transcriptPath := session.transcriptPath }

/-- The writes of the call go on until the session row is stored. -/
def storesSessionRow (services : CheckpointServices) (ctx : CallContext)
    (opts : WriteCommittedOptions) (storage : Storage) : Bool :=
  let sessionIndex := resolveCheckpointSessionIndexForWrite opts.checkpointId opts.sessionId storage
  (runWrites ctx.stop (blobWrites services opts sessionIndex ++
    [upsertCheckpointSessionRow (sessionRowOf services ctx opts sessionIndex)]) storage).2

/-- Nothing is missing that the session needs before it is written. -/
def readyToWrite (a : Attempt) (session : InteractionSession) (turns : List InteractionTurn) :
    Bool :=
  let ctx := a.sessions session.sessionId
  !((aggregateTurnFiles turns).filter a.committedFiles.contains).isEmpty &&
    !ctx.stateLoadFails && turns.all (fun turn => !isBlank turn.transcriptFragment) &&
    !ctx.authorFails

def condenseInteractionSession (services : CheckpointServices) (a : Attempt)
    (session : InteractionSession) (turns : List InteractionTurn) (s : State) : State × Bool :=
  if !readyToWrite a session turns then (s, false)
  else
    let ctx := a.sessions session.sessionId
    let opts := writeOptions a session turns
      ((aggregateTurnFiles turns).filter a.committedFiles.contains)
    let (storage, written) := writeCommitted services ctx.call opts s.storage
    let condensed :=
      if storesSessionRow services ctx.call opts s.storage then
        s.condensed ++ [{ checkpointId := a.checkpointId, sessionId := session.sessionId,
                          turnIds := turns.map (·.turnId) }]
      else s.condensed
    ({ s with storage, condensed }, written && !(ctx.hasLocalState && ctx.stateSaveFails))

/-! ## The progress of the turns -/

/-- The turn that an attempt stores. -/
def progressedTurn (a : Attempt) (head sessionId : String) (turn : InteractionTurn) :
    InteractionTurn :=
  updatedTurn turn
    (filesWithRemainingAgentChangesFromTree a.git (a.sessions sessionId).latestTreeHash head
      turn.filesModified a.committedFiles)
    a.checkpointId a.assignedAt

def storeTurnProgress (repoId : String) (a : Attempt) (sources : PostCommitInteractionSources)
    (head sessionId : String) : List InteractionTurn → World → World × Bool
  | [], w => (w, true)
  | turn :: turns, w =>
    let updated := progressedTurn a head sessionId turn
    if a.turnUpsertFails turn.turnId then (w, false)
    else
      match sources.upsertTurn repoId updated w with
      | none => (w, false)
      | some stored =>
        if a.turnRefreshFails turn.turnId then (stored, false)
        else
          match sources.refreshTurn repoId updated stored with
          | none => (stored, false)
          | some refreshed => storeTurnProgress repoId a sources head sessionId turns refreshed

/-! ## Deriving the checkpoint -/

/-- One session with contributing turns. -/
def deriveSession (services : CheckpointServices) (a : Attempt)
    (sources : PostCommitInteractionSources) (head sessionId : String)
    (turns : List InteractionTurn) (s : State) : State × Bool :=
  if (a.sessions sessionId).loadFails then (s, false)
  else
    match sources.loadSession sessionId s.world with
    | none => (s, false)
    | some session =>
      let (s, condensed) := condenseInteractionSession services a session turns s
      if !condensed then (s, false)
      else
        let (world, stored) :=
          storeTurnProgress services.repoId a sources head sessionId turns s.world
        ({ s with world }, stored)

/-- The sessions in their order; the result says whether any was condensed, or that a step
failed. -/
def deriveSessions (services : CheckpointServices) (a : Attempt)
    (sources : PostCommitInteractionSources) (head : String) :
    List (String × List InteractionTurn) → State → State × Option Bool
  | [], s => (s, some false)
  | (sessionId, turns) :: sessions, s =>
    let contributing := contributingTurns a.committedFiles turns
    if contributing.isEmpty then deriveSessions services a sources head sessions s
    else
      let (s, derived) := deriveSession services a sources head sessionId contributing s
      if !derived then (s, none)
      else
        let (s, rest) := deriveSessions services a sources head sessions s
        (s, rest.map fun _ => true)

/-- `derive_post_commit_from_interaction_sources`. -/
def derivePostCommitFromInteractionSources (services : CheckpointServices) (a : Attempt)
    (sources : PostCommitInteractionSources) (head : String) (s : State) : State × Option Bool :=
  let (world, flushed) := sources.flush services.repoId a s.world
  let s := { s with world }
  if !flushed || a.listFails then (s, none)
  else if a.isRebaseInProgress then (s, some false)
  else
    deriveSessions services a sources head
      (turnsBySession (sources.listUncheckpointedTurns services.repoId world)) s

/-- The state after the attempt, and whether it succeeded. -/
def executePostCommitDerivation (services : CheckpointServices) (head : String) (s : State)
    (a : Attempt) : State × Bool :=
  if a.mappingReadFails then (s, false)
  else if commitHasCheckpointMapping services.repoId head s then (s, true)
  else
    match a.sources services.repoId s.world with
    | none => (s, false)
    | some sources =>
      match derivePostCommitFromInteractionSources services a sources head s with
      | (s, none) => (s, false)
      | (s, some false) => (s, true)
      | (s, some true) =>
        if a.mappingInsertFails then (s, false)
        else (insertCommitCheckpointMapping services.repoId head a.checkpointId s, true)

/-- The attempts for a commit, one after the other. -/
def attempts (services : CheckpointServices) (head : String) (as : List Attempt) (s : State) :
    State :=
  as.foldl (fun s a => (executePostCommitDerivation services head s a).1) s

end PostCommit
end Bitloops
