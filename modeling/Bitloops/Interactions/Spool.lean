import Bitloops.Foundation.WriteBehind
import Bitloops.Interactions.Types

/-!
# The local interaction spool

The SQLite spool keeps its own sessions, turns and events, and a queue of the changes that the
event repository has yet to get.  An upsert is merged with the stored row column by column: most
columns keep their value when the new one is empty, some of them only give way to a value, and
the agent type of a session, once known, is also that of its turns and events.

The tables hold the rows of one repository; the queue is in the order of its `mutation_id`.
-/

namespace Bitloops
namespace Interactions

/-! ## Reading -/

def mapSessionRow (row : InteractionSession) : InteractionSession := row

def mapTurnRow (row : TurnRow) : InteractionTurn := row.toTurn row.endedAt

def mapEventRow (row : InteractionEvent) : InteractionEvent := row

/-! ## Merging -/

section Columns

variable {α : Type*} [DecidableEq α]

/-- `CASE WHEN excluded.c = empty THEN old.c ELSE excluded.c END`. -/
def keepWhen (empty excluded old : α) : α := if excluded = empty then old else excluded

theorem keepWhen_eq {empty excluded old : α} (h : excluded = empty → old = empty) :
    keepWhen empty excluded old = excluded := by
  unfold keepWhen
  split_ifs with hempty
  · rw [h hempty, hempty]
  · rfl

/-- `COALESCE(excluded.c, old.c)`. -/
def coalesce (excluded old : Option α) : Option α := excluded <|> old

omit [DecidableEq α] in
theorem coalesce_eq {excluded old : Option α} (h : excluded = none → old = none) :
    coalesce excluded old = excluded := by
  cases excluded with
  | none => exact h rfl
  | some value => rfl

end Columns

/-- The `ON CONFLICT` clause of a session; the key columns of the two rows are the same. -/
def mergeSession (old excluded : InteractionSession) : InteractionSession where
  sessionId := excluded.sessionId
  repoId := excluded.repoId
  branch := keepWhen "" excluded.branch old.branch
  actorId := keepWhen "" excluded.actorId old.actorId
  actorName := keepWhen "" excluded.actorName old.actorName
  actorEmail := keepWhen "" excluded.actorEmail old.actorEmail
  actorSource := keepWhen "" excluded.actorSource old.actorSource
  agentType :=
    if old.agentType ≠ "" then old.agentType
    else if excluded.agentType ≠ "" then excluded.agentType
    else old.agentType
  model := keepWhen "" excluded.model old.model
  firstPrompt := keepWhen "" excluded.firstPrompt old.firstPrompt
  transcriptPath := keepWhen "" excluded.transcriptPath old.transcriptPath
  worktreePath := keepWhen "" excluded.worktreePath old.worktreePath
  worktreeId := keepWhen "" excluded.worktreeId old.worktreeId
  startedAt := keepWhen "" excluded.startedAt old.startedAt
  endedAt := coalesce excluded.endedAt old.endedAt
  lastEventAt := keepWhen "" excluded.lastEventAt old.lastEventAt
  updatedAt := keepWhen "" excluded.updatedAt old.updatedAt
  isAuxiliary := if excluded.isAuxiliary then true else old.isAuxiliary

/-- `value as i64`. -/
def asI64 (value : UInt64) : ℤ := value.toInt64.toInt

/-- The values of the `INSERT` of a turn. -/
def excludedTurn (repoId canonicalAgentType : String) (turn : InteractionTurn) : TurnRow :=
  let usage := (turn.tokenUsage.map (·.own)).getD {}
  { turnId := turn.turnId
    sessionId := turn.sessionId
    repoId
    branch := turn.branch
    actorId := turn.actorId
    actorName := turn.actorName
    actorEmail := turn.actorEmail
    actorSource := turn.actorSource
    turnNumber := turn.turnNumber.toNat
    prompt := turn.prompt
    agentType := canonicalAgentType
    model := turn.model
    startedAt := turn.startedAt
    endedAt := turn.endedAt
    hasTokenUsage := turn.tokenUsage.isSome
    inputTokens := asI64 usage.inputTokens
    cacheCreationTokens := asI64 usage.cacheCreationTokens
    cacheReadTokens := asI64 usage.cacheReadTokens
    outputTokens := asI64 usage.outputTokens
    apiCallCount := asI64 usage.apiCallCount
    summary := turn.summary
    promptCount := turn.promptCount.toNat
    transcriptOffsetStart := turn.transcriptOffsetStart
    transcriptOffsetEnd := turn.transcriptOffsetEnd
    transcriptFragment := turn.transcriptFragment
    filesModified := turn.filesModified
    checkpointId := turn.checkpointId.getD ""
    updatedAt := turn.updatedAt }

/-- The `ON CONFLICT` clause of a turn; the key columns of the two rows are the same. -/
def mergeTurn (old excluded : TurnRow) : TurnRow where
  turnId := excluded.turnId
  sessionId := excluded.sessionId
  repoId := excluded.repoId
  branch := keepWhen "" excluded.branch old.branch
  actorId := keepWhen "" excluded.actorId old.actorId
  actorName := keepWhen "" excluded.actorName old.actorName
  actorEmail := keepWhen "" excluded.actorEmail old.actorEmail
  actorSource := keepWhen "" excluded.actorSource old.actorSource
  turnNumber := keepWhen 0 excluded.turnNumber old.turnNumber
  prompt := keepWhen "" excluded.prompt old.prompt
  agentType := keepWhen "" excluded.agentType old.agentType
  model := keepWhen "" excluded.model old.model
  startedAt := keepWhen "" excluded.startedAt old.startedAt
  endedAt := coalesce excluded.endedAt old.endedAt
  hasTokenUsage := if excluded.hasTokenUsage then true else old.hasTokenUsage
  inputTokens := if excluded.hasTokenUsage then excluded.inputTokens else old.inputTokens
  cacheCreationTokens :=
    if excluded.hasTokenUsage then excluded.cacheCreationTokens else old.cacheCreationTokens
  cacheReadTokens :=
    if excluded.hasTokenUsage then excluded.cacheReadTokens else old.cacheReadTokens
  outputTokens := if excluded.hasTokenUsage then excluded.outputTokens else old.outputTokens
  apiCallCount := if excluded.hasTokenUsage then excluded.apiCallCount else old.apiCallCount
  summary := keepWhen "" excluded.summary old.summary
  promptCount := keepWhen 0 excluded.promptCount old.promptCount
  transcriptOffsetStart := coalesce excluded.transcriptOffsetStart old.transcriptOffsetStart
  transcriptOffsetEnd := coalesce excluded.transcriptOffsetEnd old.transcriptOffsetEnd
  transcriptFragment := keepWhen "" excluded.transcriptFragment old.transcriptFragment
  filesModified :=
    if excluded.filesModified = [] ∧ old.filesModified ≠ [] then old.filesModified
    else excluded.filesModified
  checkpointId := keepWhen "" excluded.checkpointId old.checkpointId
  updatedAt := keepWhen "" excluded.updatedAt old.updatedAt

/-! ## The local tables -/

/-- The agent type of the session, where that is set, and otherwise the inbound one. -/
def canonicalAgentTypeForSession (t : InteractionTables) (sessionId inboundAgentType : String) :
    String :=
  (((t.session? sessionId).map (·.agentType)).filter fun value => !isBlank value).getD
    inboundAgentType

def upsertLocalSession (repoId : String) (session : InteractionSession) (t : InteractionTables) :
    Option InteractionTables := do
  ensureRepoId repoId session.repoId
  return { t with sessions := t.sessions.upsertMerged mergeSession session }

/-- The values of the `INSERT` of a turn, under the agent type of its session. -/
def canonicalTurn (repoId : String) (turn : InteractionTurn) (t : InteractionTables) : TurnRow :=
  excludedTurn repoId (canonicalAgentTypeForSession t turn.sessionId turn.agentType) turn

def upsertLocalTurn (repoId : String) (turn : InteractionTurn) (t : InteractionTables) :
    Option InteractionTables := do
  ensureRepoId repoId turn.repoId
  return { t with turns := t.turns.upsertMerged mergeTurn (canonicalTurn repoId turn t) }

/-- The event under the agent type of its session. -/
def canonicalEvent (event : InteractionEvent) (t : InteractionTables) : InteractionEvent :=
  { event with agentType := canonicalAgentTypeForSession t event.sessionId event.agentType }

def insertLocalEvent (repoId : String) (event : InteractionEvent) (t : InteractionTables) :
    Option InteractionTables := do
  ensureRepoId repoId event.repoId
  return { t with events := t.events.insertOrIgnore (canonicalEvent event t) }

/-! ## The spool -/

structure Spool where
  tables : InteractionTables
  queue : List InteractionMutation

def Spool.empty : Spool := ⟨.empty, []⟩

def recordSession (repoId : String) (session : InteractionSession) (s : Spool) : Option Spool := do
  let tables ← upsertLocalSession repoId session s.tables
  return { tables, queue := s.queue ++ [.upsertSession session] }

def recordTurn (repoId : String) (turn : InteractionTurn) (s : Spool) : Option Spool := do
  let tables ← upsertLocalTurn repoId turn s.tables
  return { tables, queue := s.queue ++ [.upsertTurn turn] }

def recordEvent (repoId : String) (event : InteractionEvent) (s : Spool) : Option Spool := do
  let tables ← insertLocalEvent repoId event s.tables
  return { tables, queue := s.queue ++ [.appendEvent event] }

def refreshTurnLocalOnly (repoId : String) (turn : InteractionTurn) (s : Spool) :
    Option Spool := do
  let tables ← upsertLocalTurn repoId turn s.tables
  return { s with tables }

def assignCheckpointToTurns (turnIds : List String) (checkpointId assignedAt : String)
    (s : Spool) : Spool :=
  if turnIds.isEmpty then s
  else
    { tables :=
        { s.tables with turns := assignTurns turnIds checkpointId assignedAt s.tables.turns }
      queue := s.queue ++ [.assignCheckpoint turnIds checkpointId assignedAt] }

/-- Apply the queued changes to a repository, and delete each one that was applied. -/
def Spool.flush {ρ : Type*} (apply : InteractionMutation → ρ → Option ρ)
    (deliveries : List WriteBehind.Delivery) (s : Spool) (repository : ρ) : Spool × ρ :=
  let (queue, repository) := WriteBehind.drain apply deliveries s.queue repository
  ({ s with queue }, repository)

/-! ## What the operations do to a row -/

variable {t t' : InteractionTables} {repoId : String}

theorem upsertLocalSession_eq_some {session : InteractionSession} :
    upsertLocalSession repoId session t = some t' ↔ repoId = session.repoId ∧
      t' = { t with sessions := t.sessions.upsertMerged mergeSession session } := by
  by_cases h : repoId = session.repoId
  · simp [upsertLocalSession, ensureRepoId, h, eq_comm]
  · simp [upsertLocalSession, ensureRepoId, h]

theorem upsertLocalTurn_eq_some {turn : InteractionTurn} :
    upsertLocalTurn repoId turn t = some t' ↔ repoId = turn.repoId ∧
      t' = { t with turns := t.turns.upsertMerged mergeTurn (canonicalTurn repoId turn t) } := by
  by_cases h : repoId = turn.repoId
  · simp [upsertLocalTurn, ensureRepoId, h, eq_comm]
  · simp [upsertLocalTurn, ensureRepoId, h]

theorem insertLocalEvent_eq_some {event : InteractionEvent} :
    insertLocalEvent repoId event t = some t' ↔ repoId = event.repoId ∧
      t' = { t with events := t.events.insertOrIgnore (canonicalEvent event t) } := by
  by_cases h : repoId = event.repoId
  · simp [insertLocalEvent, ensureRepoId, h, eq_comm]
  · simp [insertLocalEvent, ensureRepoId, h]

end Interactions
end Bitloops
