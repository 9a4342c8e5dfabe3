import Bitloops.SessionLifecycle.Host

/-!
# The lifecycle handlers

One handler for each lifecycle event of a session.  A handler that fails does so before it has
written anything, and its result is `none`.
-/

namespace Bitloops
namespace SessionLifecycle

open Interactions

variable (w : Workspace) (readers : TranscriptReaders) (env : Environment)
  (event : LifecycleEvent) (s : Host)

/-! ## Session start -/

/-- The state that `handle_lifecycle_session_start` saves. -/
def startedSession : SessionState :=
  let state := (s.session.getD { sessionId := w.sessionId }).transition env.now .sessionStart {}
  { state with
    startedAt := unlessBlank state.startedAt env.now
    transcriptPath := event.canonicalSessionRef.getD state.transcriptPath
    lastInteractionTime := some env.now
    worktreePath := w.repoRoot
    worktreeId := w.worktreeId
    agentType := unlessBlank state.agentType env.agentKey
    firstPrompt :=
      if state.firstPrompt = "" then
        (event.canonicalPrompt.map truncatePromptForStorage).getD state.firstPrompt
      else state.firstPrompt
    isAuxiliary := state.isAuxiliary || event.isAuxiliary }

/-- `handle_lifecycle_session_start`. -/
def handleSessionStart : Host :=
  let state := startedSession w env event s
  { s with
    session := some state
    tables := recordSessionRow w (sessionRow w env state none state.isAuxiliary) s.tables }

/-! ## Turn start -/

/-- The event repeats the start of an open turn. -/
def skipsTurnStart : Bool :=
  event.source = prePromptSourceCursorShell && s.prePrompt.isSome

def turnPrompt : String := truncatePromptForStorage (event.canonicalPrompt.getD event.prompt)

/-- The start of the turn in the transcript; the offset of the boundary snapshot comes first. -/
def turnStartOffset : ℕ :=
  ((env.boundaryOffset.filter (0 ≤ ·)).map Int.toNat).getD
    ((env.transcriptPosition event.sessionRef).getD 0)

def openedPrePrompt : PrePromptState where
  timestamp := env.now
  source := event.source
  prompt := turnPrompt event
  transcriptPath := event.canonicalSessionRef.getD event.sessionRef
  untrackedFiles := env.boundaryUntracked.getD env.untrackedFiles
  transcriptOffset := turnStartOffset env event

/-- The session as the strategy leaves it at the start of a turn. -/
def initializedSession : SessionState :=
  (initializeSession w env event s.session).getD
    { sessionId := w.sessionId, startedAt := env.now }

/-- The state that `handle_lifecycle_turn_start` saves. -/
def turnStartSession : SessionState :=
  let initialized := initializedSession w env event s
  let replacesPrompt : Bool :=
    initialized.firstPrompt = "" ||
      (initialized.pending.stepCount = 0 && isBlank initialized.turnId &&
        initialized.phase = .idle)
  let state := initialized.transition env.now .turnStart {}
  { state with
    firstPrompt := if replacesPrompt then turnPrompt event else state.firstPrompt
    transcriptPath := event.canonicalSessionRef.getD event.sessionRef
    startedAt := unlessBlank state.startedAt env.now
    lastInteractionTime := some env.now
    turnId := unlessBlank state.turnId env.lifecycleTurnId
    agentType := unlessBlank state.agentType env.agentKey
    isAuxiliary := state.isAuxiliary || event.isAuxiliary }

/-- The row of the turn that starts. -/
def turnStartRow (state : SessionState) : InteractionTurn where
  turnId := state.turnId
  sessionId := w.sessionId
  repoId := w.repoId
  actorId := env.actor.actorId
  actorName := env.actor.actorName
  actorEmail := env.actor.actorEmail
  actorSource := env.actor.actorSource
  turnNumber := UInt32.ofNat (state.pending.stepCount + 1)
  prompt := turnPrompt event
  agentType := state.agentType
  model := env.model
  startedAt := env.now
  promptCount := 1
  updatedAt := env.now

/-- `handle_lifecycle_turn_start`. -/
def handleTurnStart : Host :=
  if skipsTurnStart event s then s
  else
    let state := turnStartSession w env event s
    { session := some state
      prePrompt := some (openedPrePrompt env event)
      tables :=
        recordTurnRow w (turnStartRow w env event state)
          (recordSessionRow w (sessionRow w env state state.endedAt state.isAuxiliary)
            s.tables) }

/-! ## Turn end -/

/-- `resolve_turn_end_transcript_ref`. -/
def resolveTurnEndTranscriptRef (rawPath : String) (prePromptPath sessionPath : Option String) :
    String :=
  (nonBlank rawPath <|> prePromptPath.bind nonBlank <|> sessionPath.bind nonBlank).getD ""

/-- The event ends no turn that a shell command started. -/
def skipsTurnEnd : Bool :=
  event.source = prePromptSourceCursorShell &&
    s.prePrompt.map (·.source) ≠ some prePromptSourceCursorShell

/-- The transcript with its path, if one is given and can be read. -/
def turnEndTranscript : Option (String × String) :=
  let transcriptRef := resolveTurnEndTranscriptRef event.sessionRef
    (s.prePrompt.map (·.transcriptPath)) (s.session.map (·.transcriptPath))
  if transcriptRef = "" then none
  else (env.readTranscript transcriptRef).map (transcriptRef, ·)

/-- `resolve_transcript_offset`. -/
def resolveTranscriptOffset (prePrompt : Option PrePromptState) : ℕ :=
  ((prePrompt.map (·.transcriptOffset)).filter (0 < ·)).getD 0

/-- The end of the turn in the transcript. -/
def turnEndPosition (transcriptRef data : String) (offset : ℕ) : ℕ :=
  let position := ((env.extractModifiedFiles transcriptRef offset).map (·.2)).getD offset
  if position ≤ offset ∧ data ≠ "" then transcriptPosition readers.toDocumentCodec data
  else position

/-- `merge_unique_for_turn_end`. -/
def mergeUniqueForTurnEnd (base extra : List String) : List String := mergeFilesTouched base extra

/-- The files that the turn changed. -/
def turnEndFiles (transcriptRef : String) (offset : ℕ) : List String :=
  let found := ((env.extractModifiedFiles transcriptRef offset).map (·.1)).getD []
  let changes := env.detectFileChanges ((s.prePrompt.map (·.untrackedFiles)).getD [])
  env.filterToUncommittedFiles
      (mergeUniqueForTurnEnd (env.filterAndNormalizePaths found) changes.modified) ++
    changes.newFiles ++ changes.deleted

/-- The turn that ends: the one of the session, or a new one. -/
def endedTurnId : String :=
  ((s.session.map (·.turnId)).bind nonBlank).getD env.lifecycleTurnId

def turnEndAuxiliary : Bool :=
  (s.session.map (·.isAuxiliary)).getD false || event.isAuxiliary

/-- The row of a session without a stored state. -/
def bareSessionRow (transcriptRef lastPrompt : String) (isAuxiliary : Bool) :
    InteractionSession where
  sessionId := w.sessionId
  repoId := w.repoId
  actorId := env.actor.actorId
  actorName := env.actor.actorName
  actorEmail := env.actor.actorEmail
  actorSource := env.actor.actorSource
  agentType := env.agentName
  model := env.model
  firstPrompt := lastPrompt
  transcriptPath := transcriptRef
  worktreePath := w.repoRoot
  worktreeId := w.worktreeId
  startedAt := env.now
  lastEventAt := env.now
  updatedAt := env.now
  isAuxiliary

def turnEndSessionRow (transcriptRef lastPrompt : String) : InteractionSession :=
  match s.session with
  | some state =>
    { sessionRow w env state state.endedAt (turnEndAuxiliary event s) with
      transcriptPath := unlessBlank state.transcriptPath transcriptRef
      startedAt := unlessBlank state.startedAt env.now }
  | none => bareSessionRow w env transcriptRef lastPrompt (turnEndAuxiliary event s)

/-- The row of the turn that ends. -/
def turnEndRow (transcriptRef data : String) : InteractionTurn :=
  let offset := resolveTranscriptOffset s.prePrompt
  let position := turnEndPosition readers env transcriptRef data offset
  let prompts := readers.extractPrompts data
  let lastInteraction := (s.session.bind (·.lastInteractionTime)).filter (· ≠ "")
  { turnId := endedTurnId env s
    sessionId := w.sessionId
    repoId := w.repoId
    actorId := env.actor.actorId
    actorName := env.actor.actorName
    actorEmail := env.actor.actorEmail
    actorSource := env.actor.actorSource
    turnNumber := UInt32.ofNat ((s.session.map (·.pending.stepCount + 1)).getD 1)
    prompt := prompts.getLast?.getD ""
    agentType := env.agentName
    model := env.model
    startedAt := lastInteraction.getD env.now
    endedAt := some env.now
    tokenUsage := env.tokenUsage
    summary := readers.extractSummary data
    promptCount := UInt32.ofNat (min prompts.length (2 ^ 32 - 1))
    transcriptOffsetStart := some offset
    transcriptOffsetEnd := some position
    transcriptFragment :=
      transcriptFragment readers.toDocumentCodec data offset position
    filesModified := turnEndFiles env s transcriptRef offset
    updatedAt := env.now }

/-- The session after the step of the turn, if it changed any files, is saved. -/
def steppedSession (transcriptRef : String) : Option SessionState :=
  let files := turnEndFiles env s transcriptRef (resolveTranscriptOffset s.prePrompt)
  if files = [] then s.session else saveStep w env transcriptRef files s.session

/-- The session after the turn. -/
def turnEndSession (transcriptRef : String) : Option SessionState :=
  (steppedSession w env s transcriptRef).map fun state =>
    { state.transition env.now .turnEnd state.transitionContext with
      isAuxiliary := turnEndAuxiliary event s }

/-- What the end of a turn writes, given its transcript. -/
def recordTurnEnd (transcriptRef data : String) : Host where
  session := turnEndSession w env event s transcriptRef
  prePrompt := none
  tables :=
    recordTurnRow w (turnEndRow w readers env s transcriptRef data)
      (recordSessionRow w
        (turnEndSessionRow w env event s transcriptRef
          ((readers.extractPrompts data).getLast?.getD "")) s.tables)

/-- `handle_lifecycle_turn_end`. -/
def handleTurnEnd : Option Host :=
  if skipsTurnEnd event s then some s
  else
    (turnEndTranscript env event s).map fun transcript =>
      recordTurnEnd w readers env event s transcript.1 transcript.2

/-! ## Compaction and session end -/

/-- `handle_lifecycle_compaction`. -/
def handleCompaction : Host :=
  { s with
    session := s.session.map fun state =>
      let compacted := state.transition env.now .compaction state.transitionContext
      { compacted with pending := { compacted.pending with checkpointTranscriptStart := 0 } } }

/-- A turn is open, or none was recorded yet. -/
def shouldFinalizeTurn : Bool :=
  s.prePrompt.isSome || s.session.isNone ||
    s.session.any fun state =>
      state.phase = .active || (state.phase = .idle && state.pending.stepCount = 0)

/-- The host after the open turn, if there is one to be finalised, has ended. -/
def finalizeOpenTurn : Option Host :=
  if event.finalizeOpenTurn && shouldFinalizeTurn s then handleTurnEnd w readers env event s
  else some s

/-- The row of a session that ends without a stored state. -/
def endedSessionRow (isAuxiliary : Bool) : InteractionSession where
  sessionId := w.sessionId
  repoId := w.repoId
  actorId := env.actor.actorId
  actorName := env.actor.actorName
  actorEmail := env.actor.actorEmail
  actorSource := env.actor.actorSource
  model := env.model
  endedAt := some env.now
  lastEventAt := env.now
  updatedAt := env.now
  isAuxiliary

/-- What the end of a session writes. -/
def stopSession : Host :=
  let isAuxiliary := turnEndAuxiliary event s
  { s with
    session := s.session.map fun state =>
      { state.transition env.now .sessionStop state.transitionContext with
        endedAt := some env.now
        lastInteractionTime := some env.now
        isAuxiliary }
    tables :=
      recordSessionRow w
        (match s.session with
          | some state => sessionRow w env state (some env.now) isAuxiliary
          | none => endedSessionRow w env isAuxiliary) s.tables }

/-- `handle_lifecycle_session_end`. -/
def handleSessionEnd : Option Host :=
  (finalizeOpenTurn w readers env event s).map (stopSession w env event)

/-! ## Tools and subagents -/

/-- The time of the last interaction is the present. -/
def touchSession : Host :=
  { s with session := s.session.map ({ · with lastInteractionTime := some env.now }) }

/-- `handle_lifecycle_tool_event`. -/
def handleToolEvent : Host :=
  if isBlank event.toolName || isBlank event.toolUseId ||
      (Checkpoints.trimText event.toolName).map Char.toLower = "task" then s
  else touchSession env s

/-- `handle_lifecycle_subagent_end`. -/
def handleSubagentEnd : Host :=
  touchSession env
    { s with
      session :=
        if env.taskChanges.all = [] then s.session
        else saveTaskStep w env event.sessionRef env.taskChanges.all s.session }

/-- `handle_lifecycle_todo_checkpoint`. -/
def handleTodoCheckpoint : Host :=
  if !env.activePreTask || env.onDefaultBranch || env.taskChanges.all = [] then s
  else
    touchSession env
      { s with session := saveTaskStep w env event.sessionRef env.taskChanges.all s.session }

/-! ## Dispatch -/

/-- `dispatch_lifecycle_event`. -/
def dispatchLifecycleEvent : Option Host :=
  match event.eventType with
  | .sessionStart => some (handleSessionStart w env event s)
  | .turnStart => some (handleTurnStart w env event s)
  | .turnEnd => handleTurnEnd w readers env event s
  | .compaction => some (handleCompaction env s)
  | .sessionEnd => handleSessionEnd w readers env event s
  | .toolInvocationObserved | .toolResultObserved => some (handleToolEvent env event s)
  | .subagentStart => some (touchSession env s)
  | .subagentEnd => some (handleSubagentEnd w env event s)
  | .todoCheckpoint => some (handleTodoCheckpoint w env event s)

end SessionLifecycle
end Bitloops
