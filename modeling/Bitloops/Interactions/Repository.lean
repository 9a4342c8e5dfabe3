import Bitloops.Interactions.Types

/-!
# The DuckDB event repository

The repository gets the changes that the spool has queued, as the hooks reported them.  A session
or a turn replaces the stored row; only the mark of an auxiliary session is kept.  An event is
inserted unless its identifier is in use.
-/

namespace Bitloops
namespace Interactions
namespace DuckDb

/-- `quoted_nullable`. -/
def quotedNullable (value : Option String) : Option String :=
  value.filter fun candidate => candidate ≠ ""

/-- A `u32` in an `INTEGER` column, which has no room for its upper half. -/
def toInteger (value : UInt32) : Option ℤ :=
  if value.toNat < 2 ^ 31 then some value.toNat else none

/-- A `u64` in a `BIGINT` column, which has no room for its upper half. -/
def toBigint (value : UInt64) : Option ℤ :=
  if value.toNat < 2 ^ 63 then some value.toNat else none

/-! ## Reading -/

def mapSessionRow (row : InteractionSession) : InteractionSession :=
  { row with endedAt := row.endedAt.filter fun value => !isBlank value }

def mapTurnRow (row : TurnRow) : InteractionTurn :=
  row.toTurn (row.endedAt.filter fun value => !isBlank value)

def mapEventRow (row : InteractionEvent) : InteractionEvent :=
  { row with turnId := nonBlank (row.turnId.getD "") }

/-! ## Writing -/

def upsertSession (repoId : String) (session : InteractionSession) (r : InteractionTables) :
    Option InteractionTables := do
  ensureRepoId repoId session.repoId
  let existingIsAuxiliary := ((r.session? session.sessionId).map (·.isAuxiliary)).getD false
  return { r with sessions := r.sessions.upsert { session with
    endedAt := quotedNullable session.endedAt
    isAuxiliary := session.isAuxiliary || existingIsAuxiliary } }

/-- The row of a turn; `none` when one of its numbers does not fit. -/
def turnRow (repoId : String) (turn : InteractionTurn) : Option TurnRow := do
  let usage := (turn.tokenUsage.map (·.own)).getD {}
  let turnNumber ← toInteger turn.turnNumber
  let inputTokens ← toBigint usage.inputTokens
  let cacheCreationTokens ← toBigint usage.cacheCreationTokens
  let cacheReadTokens ← toBigint usage.cacheReadTokens
  let outputTokens ← toBigint usage.outputTokens
  let apiCallCount ← toBigint usage.apiCallCount
  let promptCount ← toInteger turn.promptCount
  return {
    turnId := turn.turnId
    sessionId := turn.sessionId
    repoId
    branch := turn.branch
    actorId := turn.actorId
    actorName := turn.actorName
    actorEmail := turn.actorEmail
    actorSource := turn.actorSource
    turnNumber
    prompt := turn.prompt
    agentType := turn.agentType
    model := turn.model
    startedAt := turn.startedAt
    endedAt := quotedNullable turn.endedAt
    hasTokenUsage := turn.tokenUsage.isSome
    inputTokens
    cacheCreationTokens
    cacheReadTokens
    outputTokens
    apiCallCount
    summary := turn.summary
    promptCount
    transcriptOffsetStart := turn.transcriptOffsetStart
    transcriptOffsetEnd := turn.transcriptOffsetEnd
    transcriptFragment := turn.transcriptFragment
    filesModified := turn.filesModified
    checkpointId := turn.checkpointId.getD ""
    updatedAt := turn.updatedAt }

def upsertTurn (repoId : String) (turn : InteractionTurn) (r : InteractionTables) :
    Option InteractionTables := do
  ensureRepoId repoId turn.repoId
  let row ← turnRow repoId turn
  return { r with turns := r.turns.upsert row }

def appendEvent (repoId : String) (event : InteractionEvent) (r : InteractionTables) :
    Option InteractionTables := do
  ensureRepoId repoId event.repoId
  return { r with
    events := r.events.insertOrIgnore { event with turnId := some (event.turnId.getD "") } }

def assignCheckpointToTurns (turnIds : List String) (checkpointId assignedAt : String)
    (r : InteractionTables) : InteractionTables :=
  if turnIds.isEmpty then r
  else { r with turns := assignTurns turnIds checkpointId assignedAt r.turns }

/-- What `flush` calls for a queued change. -/
def applyMutation (repoId : String) : InteractionMutation → InteractionTables →
    Option InteractionTables
  | .upsertSession session, r => upsertSession repoId session r
  | .upsertTurn turn, r => upsertTurn repoId turn r
  | .appendEvent event, r => appendEvent repoId event r
  | .assignCheckpoint turnIds checkpointId assignedAt, r =>
    some (assignCheckpointToTurns turnIds checkpointId assignedAt r)

/-! ## What the operations do to a row -/

variable {repoId : String} {r r' : InteractionTables}

/-- The row of a session next to what is stored. -/
def sessionRow (session : InteractionSession) (r : InteractionTables) : InteractionSession :=
  { session with
    endedAt := quotedNullable session.endedAt
    isAuxiliary := session.isAuxiliary ||
      ((r.session? session.sessionId).map (·.isAuxiliary)).getD false }

theorem upsertSession_eq_some {session : InteractionSession} :
    upsertSession repoId session r = some r' ↔ repoId = session.repoId ∧
      r' = { r with sessions := r.sessions.upsert (sessionRow session r) } := by
  by_cases h : repoId = session.repoId
  · simp [upsertSession, sessionRow, ensureRepoId, h, eq_comm]
  · simp [upsertSession, ensureRepoId, h]

theorem upsertTurn_eq_some {turn : InteractionTurn} :
    upsertTurn repoId turn r = some r' ↔ repoId = turn.repoId ∧ ∃ row,
      turnRow repoId turn = some row ∧ r' = { r with turns := r.turns.upsert row } := by
  by_cases h : repoId = turn.repoId
  · cases hrow : turnRow repoId turn <;>
      simp [upsertTurn, ensureRepoId, ← h, hrow, eq_comm]
  · simp [upsertTurn, ensureRepoId, h]

theorem appendEvent_eq_some {event : InteractionEvent} :
    appendEvent repoId event r = some r' ↔ repoId = event.repoId ∧
      r' = { r with events :=
        r.events.insertOrIgnore { event with turnId := some (event.turnId.getD "") } } := by
  by_cases h : repoId = event.repoId
  · simp [appendEvent, ensureRepoId, h, eq_comm]
  · simp [appendEvent, ensureRepoId, h]

end DuckDb
end Interactions
end Bitloops
