import Bitloops.Checkpoints.Storage
import Bitloops.Interactions.Spool
import Bitloops.Interactions.TranscriptFragment
import Bitloops.SessionLifecycle.Phase
import Bitloops.Sync.WorkspaceState

/-!
# The stored state of one session and the strategies

For each session the host keeps a session row, a pre-prompt row while a turn is open, and the
rows of the interaction spool.  The checkpoint strategies write the session row too: the manual
strategy refreshes it when a turn starts and when a step is saved, and starts it anew as long as
it has no base commit; the automatic one leaves it alone.

An `Environment` holds what an event finds outside these rows: the clock, HEAD, the agent, the
workspace, the transcript files and the identifiers that are drawn.
-/

namespace Bitloops
namespace SessionLifecycle

open Interactions

/-- The repository and the session of a run. -/
structure Workspace where
  repoId : String
  repoRoot : String
  worktreeId : String
  sessionId : String

/-- How a transcript is read. -/
structure TranscriptReaders extends DocumentCodec where
  extractPrompts : String → List String
  extractSummary : String → String

inductive LifecycleEventType where
  | sessionStart
  | turnStart
  | turnEnd
  | compaction
  | sessionEnd
  | toolInvocationObserved
  | toolResultObserved
  | subagentStart
  | subagentEnd
  | todoCheckpoint
  deriving DecidableEq, Repr

structure LifecycleEvent where
  eventType : LifecycleEventType
  sessionRef : String := ""
  source : String := ""
  prompt : String := ""
  toolName : String := ""
  toolUseId : String := ""
  isAuxiliary : Bool := false
  finalizeOpenTurn : Bool := false
  deriving DecidableEq, Repr

/-- `PRE_PROMPT_SOURCE_CURSOR_SHELL`. -/
def prePromptSourceCursorShell : String := "cursor-shell"

structure PrePromptState where
  timestamp : String
  source : String
  prompt : String
  transcriptPath : String
  untrackedFiles : List String
  transcriptOffset : ℕ
  deriving DecidableEq, Repr

inductive CheckpointStrategy where
  | manualCommit
  | autoCommit
  deriving DecidableEq, Repr

structure ActorIdentity where
  actorId : String := ""
  actorName : String := ""
  actorEmail : String := ""
  actorSource : String := ""
  deriving DecidableEq, Repr

/-- Modified, new and deleted files. -/
structure FileChanges where
  modified : List String := []
  newFiles : List String := []
  deleted : List String := []
  deriving DecidableEq, Repr

def FileChanges.all (changes : FileChanges) : List String :=
  changes.modified ++ changes.newFiles ++ changes.deleted

structure Environment where
  now : String
  head : String
  strategy : CheckpointStrategy
  agentName : String
  agentKey : String
  actor : ActorIdentity := {}
  model : String := ""
  /-- The next identifier of `generate_checkpoint_id`. -/
  checkpointId : String
  /-- The next identifier of `generate_lifecycle_turn_id`. -/
  lifecycleTurnId : String
  /-- The offset and the untracked files of the boundary snapshot, if there is one. -/
  boundaryOffset : Option ℤ := none
  boundaryUntracked : Option (List String) := none
  untrackedFiles : List String := []
  /-- `get_transcript_position`, for an agent whose transcripts are analysed. -/
  transcriptPosition : String → Option ℕ := fun _ => none
  /-- `extract_modified_files_from_offset`. -/
  extractModifiedFiles : String → ℕ → Option (List String × ℕ) := fun _ _ => none
  readTranscript : String → Option String := fun _ => none
  filterAndNormalizePaths : List String → List String := id
  /-- The changes of the workspace, given the files that were untracked before. -/
  detectFileChanges : List String → FileChanges := fun _ => {}
  filterToUncommittedFiles : List String → List String := id
  tokenUsage : Option Checkpoints.TokenUsageMetadata := none
  /-- The tree of the step is that of the latest temporary checkpoint. -/
  temporarySkipped : Bool := false
  activePreTask : Bool := false
  onDefaultBranch : Bool := false
  taskChanges : FileChanges := {}

structure Host where
  session : Option SessionState := none
  prePrompt : Option PrePromptState := none
  tables : InteractionTables := .empty

/-! ## Texts -/

/-- `truncate_prompt_for_storage`. -/
def truncatePromptForStorage (prompt : String) : String :=
  String.ofList
    (([' '].intercalate (Sync.splitWhitespace prompt.toList)).take 100)

/-- `request.session.session_ref`. -/
def LifecycleEvent.canonicalSessionRef (event : LifecycleEvent) : Option String :=
  nonBlank (Checkpoints.trimText event.sessionRef)

/-- `request.prompt`. -/
def LifecycleEvent.canonicalPrompt (event : LifecycleEvent) : Option String :=
  nonBlank (Checkpoints.trimText event.prompt)

/-- The value, unless it is blank. -/
def unlessBlank (value fallback : String) : String := if isBlank value then fallback else value

def mergeFilesTouched (existing newFiles : List String) : List String :=
  newFiles.foldl (fun seen file => if file ∈ seen then seen else seen ++ [file]) existing

/-! ## The strategies -/

def agentTypeClaudeCode : String := "claude-code"
def agentTypeUnknown : String := "unknown"

/-- `initialize_or_refresh_session`.  A new state draws a turn id of its own, which the refresh
replaces before anything is saved. -/
def initializeOrRefreshSession (w : Workspace) (env : Environment) (event : LifecycleEvent)
    (session : Option SessionState) : SessionState :=
  let state := (session.filter (·.baseCommit ≠ "")).getD
    { sessionId := w.sessionId
      baseCommit := env.head
      worktreePath := w.repoRoot
      worktreeId := w.worktreeId
      startedAt := env.now
      phase := .active
      agentType := Checkpoints.canonicalAgentKey env.agentName
      transcriptPath := event.sessionRef
      firstPrompt := truncatePromptForStorage event.prompt }
  let agentType :=
    if !isBlank env.agentName && (isBlank state.agentType ||
        state.agentType = Checkpoints.canonicalAgentKey agentTypeUnknown) then
      Checkpoints.canonicalAgentKey env.agentName
    else state.agentType
  { state with
    phase := .active
    lastInteractionTime := some env.now
    turnId := env.checkpointId
    agentType := unlessBlank agentType agentTypeClaudeCode
    firstPrompt :=
      if isBlank state.firstPrompt && !isBlank event.prompt then
        truncatePromptForStorage event.prompt
      else state.firstPrompt
    transcriptPath := unlessBlank event.sessionRef state.transcriptPath }

/-- `strategy.initialize_session`. -/
def initializeSession (w : Workspace) (env : Environment) (event : LifecycleEvent)
    (session : Option SessionState) : Option SessionState :=
  match env.strategy with
  | .manualCommit => some (initializeOrRefreshSession w env event session)
  | .autoCommit => session

/-- The session of a step: the stored one if it has a base commit, and otherwise a new one. -/
def stepSession (w : Workspace) (env : Environment) (transcriptPath : String)
    (session : Option SessionState) : SessionState :=
  (session.filter (·.baseCommit ≠ "")).getD
    { sessionId := w.sessionId
      baseCommit := env.head
      transcriptPath
      startedAt := env.now
      agentType := unlessBlank env.agentName agentTypeClaudeCode
      turnId := env.checkpointId }

/-- `save_step`: what is stored of the session after it. -/
def saveStep (w : Workspace) (env : Environment) (transcriptPath : String)
    (files : List String) (session : Option SessionState) : Option SessionState :=
  match env.strategy with
  | .autoCommit => session
  | .manualCommit =>
    let saved := stepSession w env transcriptPath session
    let state :=
      { saved with
        agentType :=
          unlessBlank saved.agentType (unlessBlank env.agentName agentTypeClaudeCode)
        turnId := unlessBlank saved.turnId env.checkpointId
        transcriptPath := unlessBlank transcriptPath saved.transcriptPath }
    if env.temporarySkipped then
      -- without a token usage only the new session, if there is one, is on disk
      if env.tokenUsage.isSome then some state else some saved
    else
      some
        { state with
          baseCommit := env.head
          pending :=
            { state.pending with
              stepCount := state.pending.stepCount + 1
              filesTouched := mergeFilesTouched state.pending.filesTouched files } }

/-- `save_task_step`. -/
def saveTaskStep (w : Workspace) (env : Environment) (transcriptPath : String)
    (files : List String) (session : Option SessionState) : Option SessionState :=
  match env.strategy with
  | .autoCommit => session
  | .manualCommit =>
    let state := stepSession w env transcriptPath session
    some
      { state with
        pending :=
          { state.pending with
            filesTouched := mergeFilesTouched state.pending.filesTouched files } }

/-! ## Spooling -/

/-- `spool.record_session`; a failure is a warning. -/
def recordSessionRow (w : Workspace) (row : InteractionSession) (t : InteractionTables) :
    InteractionTables :=
  (upsertLocalSession w.repoId row t).getD t

/-- `spool.record_turn`; a failure is a warning. -/
def recordTurnRow (w : Workspace) (row : InteractionTurn) (t : InteractionTables) :
    InteractionTables :=
  (upsertLocalTurn w.repoId row t).getD t

/-- The row of a session that has a stored state. -/
def sessionRow (w : Workspace) (env : Environment) (state : SessionState)
    (endedAt : Option String) (isAuxiliary : Bool) : InteractionSession where
  sessionId := w.sessionId
  repoId := w.repoId
  actorId := env.actor.actorId
  actorName := env.actor.actorName
  actorEmail := env.actor.actorEmail
  actorSource := env.actor.actorSource
  agentType := state.agentType
  model := env.model
  firstPrompt := state.firstPrompt
  transcriptPath := state.transcriptPath
  worktreePath := state.worktreePath
  worktreeId := state.worktreeId
  startedAt := state.startedAt
  endedAt
  lastEventAt := env.now
  updatedAt := env.now
  isAuxiliary

end SessionLifecycle
end Bitloops
