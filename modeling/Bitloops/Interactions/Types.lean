import Mathlib.Data.Int.Notation
import Bitloops.Checkpoints.TokenUsage
import Bitloops.Daemon.SyncMode
import Bitloops.Foundation.UniqueTable

/-!
# Interaction sessions, turns and events

Agent hooks report sessions, turns and events.  The types here are what the hooks hand over and
what a store hands back; a JSON payload is represented by the parts that are read from it.
-/

namespace Bitloops
namespace Interactions

open Checkpoints

/-- `value.trim().is_empty()`. -/
def isBlank (text : String) : Bool := text.toList.all Daemon.isWhitespace

structure InteractionSession where
  sessionId : String
  repoId : String
  branch : String := ""
  actorId : String := ""
  actorName : String := ""
  actorEmail : String := ""
  actorSource : String := ""
  agentType : String := ""
  model : String := ""
  firstPrompt : String := ""
  transcriptPath : String := ""
  worktreePath : String := ""
  worktreeId : String := ""
  startedAt : String := ""
  endedAt : Option String := none
  lastEventAt : String := ""
  updatedAt : String := ""
  isAuxiliary : Bool := false
  deriving DecidableEq, Repr

structure InteractionTurn where
  turnId : String
  sessionId : String
  repoId : String
  branch : String := ""
  actorId : String := ""
  actorName : String := ""
  actorEmail : String := ""
  actorSource : String := ""
  turnNumber : UInt32 := 0
  prompt : String := ""
  agentType : String := ""
  model : String := ""
  startedAt : String := ""
  endedAt : Option String := none
  tokenUsage : Option TokenUsageMetadata := none
  summary : String := ""
  promptCount : UInt32 := 0
  transcriptOffsetStart : Option ℤ := none
  transcriptOffsetEnd : Option ℤ := none
  transcriptFragment : String := ""
  filesModified : List String := []
  checkpointId : Option String := none
  updatedAt : String := ""
  deriving DecidableEq, Repr

inductive InteractionEventType where
  | sessionStart
  | turnStart
  | turnEnd
  | compaction
  | sessionEnd
  | toolInvocationObserved
  | toolResultObserved
  | subagentStart
  | subagentEnd
  deriving DecidableEq, Repr

/-- A member of a payload: a string, an array with its string items, or another value. -/
inductive PayloadValue where
  | string (value : String)
  | array (items : List (Option String))
  | other (json : String)
  deriving DecidableEq, Repr

/-- An object with its members, or another value. -/
inductive Payload where
  | object (members : List (String × PayloadValue))
  | other (json : String)
  deriving DecidableEq, Repr

structure InteractionEvent where
  eventId : String
  sessionId : String
  turnId : Option String := none
  repoId : String
  branch : String := ""
  actorId : String := ""
  actorName : String := ""
  actorEmail : String := ""
  actorSource : String := ""
  eventType : InteractionEventType
  eventTime : String
  source : String := ""
  sequenceNumber : ℤ := 0
  agentType : String := ""
  model : String := ""
  toolUseId : String := ""
  toolKind : String := ""
  taskDescription : String := ""
  subagentId : String := ""
  payload : Payload := .object []
  deriving DecidableEq, Repr

/-- A change on its way to the event repository. -/
inductive InteractionMutation where
  | upsertSession (session : InteractionSession)
  | upsertTurn (turn : InteractionTurn)
  | appendEvent (event : InteractionEvent)
  | assignCheckpoint (turnIds : List String) (checkpointId assignedAt : String)
  deriving DecidableEq, Repr

/-! ## Stored turns -/

/-- A row of `interaction_turns`. -/
structure TurnRow where
  turnId : String
  sessionId : String
  repoId : String
  branch : String
  actorId : String
  actorName : String
  actorEmail : String
  actorSource : String
  turnNumber : ℤ
  prompt : String
  agentType : String
  model : String
  startedAt : String
  endedAt : Option String
  hasTokenUsage : Bool
  inputTokens : ℤ
  cacheCreationTokens : ℤ
  cacheReadTokens : ℤ
  outputTokens : ℤ
  apiCallCount : ℤ
  summary : String
  promptCount : ℤ
  transcriptOffsetStart : Option ℤ
  transcriptOffsetEnd : Option ℤ
  transcriptFragment : String
  filesModified : List String
  checkpointId : String
  updatedAt : String
  deriving DecidableEq, Repr

/-- `u32::try_from(value).unwrap_or_default()`. -/
def toU32OrZero (value : ℤ) : UInt32 :=
  if 0 ≤ value ∧ value < 2 ^ 32 then UInt32.ofNat value.toNat else 0

/-- `value.max(0) as u64`. -/
def toU64Floor (value : ℤ) : UInt64 := UInt64.ofNat (max value 0).toNat

/-- The token usage of a row, if it has one; that of subagents is not stored. -/
def TurnRow.tokenUsage (row : TurnRow) : Option TokenUsageMetadata :=
  if row.hasTokenUsage then
    some (.flat
      { inputTokens := toU64Floor row.inputTokens
        cacheCreationTokens := toU64Floor row.cacheCreationTokens
        cacheReadTokens := toU64Floor row.cacheReadTokens
        outputTokens := toU64Floor row.outputTokens
        apiCallCount := toU64Floor row.apiCallCount })
  else none

/-- `(!checkpoint_id.trim().is_empty()).then_some(checkpoint_id)`. -/
def nonBlank (text : String) : Option String := if isBlank text then none else some text

/-- Read a row with its `ended_at` as given. -/
def TurnRow.toTurn (row : TurnRow) (endedAt : Option String) : InteractionTurn where
  turnId := row.turnId
  sessionId := row.sessionId
  repoId := row.repoId
  branch := row.branch
  actorId := row.actorId
  actorName := row.actorName
  actorEmail := row.actorEmail
  actorSource := row.actorSource
  turnNumber := toU32OrZero row.turnNumber
  prompt := row.prompt
  agentType := row.agentType
  model := row.model
  startedAt := row.startedAt
  endedAt
  tokenUsage := row.tokenUsage
  summary := row.summary
  promptCount := toU32OrZero row.promptCount
  transcriptOffsetStart := row.transcriptOffsetStart
  transcriptOffsetEnd := row.transcriptOffsetEnd
  transcriptFragment := row.transcriptFragment
  filesModified := row.filesModified
  checkpointId := nonBlank row.checkpointId
  updatedAt := row.updatedAt

/-! ## Tables -/

/-- The sessions, turns and events that a store keeps. -/
structure InteractionTables where
  sessions : UniqueTable InteractionSession (·.sessionId)
  turns : UniqueTable TurnRow (·.turnId)
  events : UniqueTable InteractionEvent (·.eventId)

namespace InteractionTables

def empty : InteractionTables := ⟨.empty, .empty, .empty⟩

def session? (t : InteractionTables) (sessionId : String) : Option InteractionSession :=
  findRow (·.sessionId) sessionId t.sessions.rows

def turn? (t : InteractionTables) (turnId : String) : Option TurnRow :=
  findRow (·.turnId) turnId t.turns.rows

def event? (t : InteractionTables) (eventId : String) : Option InteractionEvent :=
  findRow (·.eventId) eventId t.events.rows

end InteractionTables

/-- `SET checkpoint_id, updated_at`. -/
def TurnRow.assign (checkpointId assignedAt : String) (row : TurnRow) : TurnRow :=
  { row with checkpointId, updatedAt := assignedAt }

theorem TurnRow.turnId_assign (checkpointId assignedAt : String) (row : TurnRow) :
    (row.assign checkpointId assignedAt).turnId = row.turnId := rfl

/-- `UPDATE interaction_turns` for the given turns. -/
def assignTurns (turnIds : List String) (checkpointId assignedAt : String)
    (turns : UniqueTable TurnRow (·.turnId)) : UniqueTable TurnRow (·.turnId) :=
  turns.modify (fun row => row.turnId ∈ turnIds) (TurnRow.assign checkpointId assignedAt)
    (TurnRow.turnId_assign checkpointId assignedAt)

theorem assignTurns_assignTurns {turnIds : List String} {checkpointId assignedAt : String}
    {turns : UniqueTable TurnRow (·.turnId)} :
    assignTurns turnIds checkpointId assignedAt (assignTurns turnIds checkpointId assignedAt turns) =
      assignTurns turnIds checkpointId assignedAt turns :=
  UniqueTable.modify_modify (fun _ h => h) fun _ => rfl

theorem findRow_assignTurns {turnIds : List String} {checkpointId assignedAt turnId : String}
    {turns : UniqueTable TurnRow (·.turnId)} :
    findRow (·.turnId) turnId (assignTurns turnIds checkpointId assignedAt turns).rows =
      (findRow (·.turnId) turnId turns.rows).map fun row =>
        if turnId ∈ turnIds then row.assign checkpointId assignedAt else row := by
  rw [assignTurns, UniqueTable.findRow_modify]
  cases hfound : findRow (·.turnId) turnId turns.rows with
  | none => rfl
  | some row =>
    obtain ⟨-, rfl⟩ := UniqueTable.findRow_eq_some.mp hfound
    simp only [Option.map_some, decide_eq_true_eq]

/-- `ensure_repo_id`. -/
def ensureRepoId (expected found : String) : Option Unit :=
  if expected = found then some () else none

end Interactions
end Bitloops
