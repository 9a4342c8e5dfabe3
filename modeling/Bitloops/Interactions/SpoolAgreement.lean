import Bitloops.Foundation.Run
import Bitloops.Interactions.Repository
import Bitloops.Interactions.Spool

/-!
# The event repository agrees with the spool

Sessions, turns and events are recorded in the spool, a flush carries them to the repository, and
a commit updates turns in both.  The spool merges what it is given with what it has, and the
repository does not: the two agree whenever the queue is empty, provided that no upsert leaves
out what is stored already and that a commit updates no turn with a change still queued.
-/

namespace Bitloops
namespace Interactions

/-! ## The operations -/

structure World where
  spool : Spool
  repository : InteractionTables

def World.empty : World := ⟨.empty, .empty⟩

/-- The turn that a commit stores: with the checkpoint, or with the files that remain. -/
def updatedTurn (turn : InteractionTurn) (remainingFiles : List String)
    (checkpointId assignedAt : String) : InteractionTurn :=
  let updated := { turn with updatedAt := assignedAt }
  if remainingFiles.isEmpty then { updated with checkpointId := some checkpointId }
  else { updated with filesModified := remainingFiles, checkpointId := none }

/-- The turn goes to the repository, and then to the tables of the spool. -/
def postCommitUpdate (repoId : String) (turn : InteractionTurn) (w : World) : Option World := do
  let repository ← DuckDb.upsertTurn repoId turn w.repository
  let spool ← refreshTurnLocalOnly repoId turn w.spool
  return { spool, repository }

def World.flush (repoId : String) (deliveries : List WriteBehind.Delivery) (w : World) : World :=
  let (spool, repository) :=
    w.spool.flush (DuckDb.applyMutation repoId) deliveries w.repository
  { spool, repository }

inductive InteractionOp where
  | recordSession (session : InteractionSession)
  | recordTurn (turn : InteractionTurn)
  | recordEvent (event : InteractionEvent)
  | assignCheckpointToTurns (turnIds : List String) (checkpointId assignedAt : String)
  | postCommitUpdate (turn : InteractionTurn) (remainingFiles : List String)
      (checkpointId assignedAt : String)
  | flush (deliveries : List WriteBehind.Delivery)
  deriving Repr

/-- An operation that fails leaves everything as it is. -/
def step (repoId : String) (w : World) : InteractionOp → Option World
  | .recordSession session => some { w with
      spool := (recordSession repoId session w.spool).getD w.spool }
  | .recordTurn turn => some { w with spool := (recordTurn repoId turn w.spool).getD w.spool }
  | .recordEvent event => some { w with spool := (recordEvent repoId event w.spool).getD w.spool }
  | .assignCheckpointToTurns turnIds checkpointId assignedAt => some { w with
      spool := assignCheckpointToTurns turnIds checkpointId assignedAt w.spool }
  | .postCommitUpdate turn remainingFiles checkpointId assignedAt =>
    some ((postCommitUpdate repoId
      (updatedTurn turn remainingFiles checkpointId assignedAt) w).getD w)
  | .flush deliveries => some (w.flush repoId deliveries)

/-! ## Agreement -/

/-- The two stores hand back the same sessions, turns and events. -/
structure Agree (spool repository : InteractionTables) : Prop where
  sessions : ∀ sessionId, (spool.session? sessionId).map mapSessionRow =
    (repository.session? sessionId).map DuckDb.mapSessionRow
  turns : ∀ turnId, (spool.turn? turnId).map mapTurnRow =
    (repository.turn? turnId).map DuckDb.mapTurnRow
  events : ∀ eventId, (spool.event? eventId).map mapEventRow =
    (repository.event? eventId).map DuckDb.mapEventRow

/-- The turn is stored with a checkpoint. -/
def HasCheckpoint (t : InteractionTables) (turnId : String) : Prop :=
  ∃ row, t.turn? turnId = some row ∧ isBlank row.checkpointId = false

/-- No turn loses its checkpoint. -/
def KeepsCheckpoints (before after : InteractionTables) : Prop :=
  ∀ turnId, HasCheckpoint before turnId → HasCheckpoint after turnId

/-- Whenever the queue is empty after a part of the operations the two stores agree, and from
there on no turn loses its checkpoint in either of them. -/
def RepositoryFollowsSpool (repoId : String) (ops : List InteractionOp) : Prop :=
  ∀ front back w w', ops = front ++ back → Run.exec (step repoId) .empty front = some w →
    Run.exec (step repoId) w back = some w' →
    (w.spool.queue = [] → Agree w.spool.tables w.repository) ∧
      KeepsCheckpoints w.spool.tables w'.spool.tables ∧ KeepsCheckpoints w.repository w'.repository

/-! ## Complete upserts -/

/-- The columns of a session that keep their text when the new one is empty. -/
def keptSessionTexts : List (InteractionSession → String) :=
  [(·.branch), (·.actorId), (·.actorName), (·.actorEmail), (·.actorSource), (·.model),
    (·.firstPrompt), (·.transcriptPath), (·.worktreePath), (·.worktreeId), (·.startedAt),
    (·.lastEventAt), (·.updatedAt)]

/-- The session leaves nothing out that is stored, and names the stored agent. -/
def SessionComplete (old new : InteractionSession) : Prop :=
  (∀ column ∈ keptSessionTexts, column new = "" → column old = "") ∧
    (old.agentType ≠ "" → new.agentType = old.agentType) ∧
    (new.endedAt = none → old.endedAt = none)

/-- The columns of a turn that keep their text when the new one is empty. -/
def keptTurnTexts : List (TurnRow → String) :=
  [(·.branch), (·.actorId), (·.actorName), (·.actorEmail), (·.actorSource), (·.prompt),
    (·.agentType), (·.model), (·.startedAt), (·.summary), (·.transcriptFragment), (·.updatedAt)]

/-- The turn leaves nothing out that is stored. -/
def TurnComplete (old new : TurnRow) : Prop :=
  (∀ column ∈ keptTurnTexts, column new = "" → column old = "") ∧
    (new.turnNumber = 0 → old.turnNumber = 0) ∧
    (new.promptCount = 0 → old.promptCount = 0) ∧
    (new.endedAt = none → old.endedAt = none) ∧
    (new.transcriptOffsetStart = none → old.transcriptOffsetStart = none) ∧
    (new.transcriptOffsetEnd = none → old.transcriptOffsetEnd = none) ∧
    (new.hasTokenUsage = false → old.hasTokenUsage = false) ∧
    (new.filesModified = [] → old.filesModified = []) ∧
    (isBlank new.checkpointId = true → isBlank old.checkpointId = true)

instance (old new : InteractionSession) : Decidable (SessionComplete old new) :=
  inferInstanceAs (Decidable (_ ∧ _))

instance (old new : TurnRow) : Decidable (TurnComplete old new) :=
  inferInstanceAs (Decidable (_ ∧ _))

/-- The agent type is that of the session, if the session has one. -/
def NamesAgent (t : InteractionTables) (sessionId agentType : String) : Prop :=
  ∀ session ∈ t.session? sessionId, isBlank session.agentType = false →
    agentType = session.agentType

/-- A value that is given is not blank. -/
def NotBlank (given : Option String) : Prop := ∀ value ∈ given, isBlank value = false

/-- The turn comes with everything that the tables have of it. -/
def TurnUpsertComplete (repoId : String) (t : InteractionTables) (turn : InteractionTurn) : Prop :=
  NamesAgent t turn.sessionId turn.agentType ∧ NotBlank turn.endedAt ∧
    ∀ old ∈ t.turn? turn.turnId, TurnComplete old (excludedTurn repoId turn.agentType turn)

/-- The queued change is about the turn. -/
def Concerns (turnId : String) : InteractionMutation → Prop
  | .upsertTurn turn => turn.turnId = turnId
  | .assignCheckpoint turnIds _ _ => turnId ∈ turnIds
  | _ => False

/-- What the operation has to come with. -/
def Complete (repoId : String) (w : World) : InteractionOp → Prop
  | .recordSession session => session.repoId = repoId →
      NotBlank session.endedAt ∧
        ∀ old ∈ w.spool.tables.session? session.sessionId, SessionComplete old session
  | .recordTurn turn => turn.repoId = repoId → TurnUpsertComplete repoId w.spool.tables turn
  | .recordEvent event => event.repoId = repoId →
      (w.spool.tables.event? event.eventId).isSome ∨
        (NamesAgent w.spool.tables event.sessionId event.agentType ∧ NotBlank event.turnId)
  | .assignCheckpointToTurns turnIds checkpointId _ => isBlank checkpointId = true →
      ∀ turnId ∈ turnIds, ∀ old ∈ w.spool.tables.turn? turnId, isBlank old.checkpointId = true
  | .postCommitUpdate turn remainingFiles checkpointId assignedAt => turn.repoId = repoId →
      (∀ m ∈ w.spool.queue, ¬ Concerns turn.turnId m) ∧
        TurnUpsertComplete repoId w.spool.tables
          (updatedTurn turn remainingFiles checkpointId assignedAt)
  | .flush _ => True

section Decidable

variable {repoId : String} {t : InteractionTables}

instance (sessionId agentType : String) : Decidable (NamesAgent t sessionId agentType) :=
  inferInstanceAs (Decidable (∀ session ∈ t.session? sessionId, _))

instance (given : Option String) : Decidable (NotBlank given) :=
  inferInstanceAs (Decidable (∀ value ∈ given, _))

instance (turn : InteractionTurn) : Decidable (TurnUpsertComplete repoId t turn) :=
  inferInstanceAs (Decidable (_ ∧ _ ∧ ∀ old ∈ t.turn? turn.turnId, _))

instance (turnId : String) : (m : InteractionMutation) → Decidable (Concerns turnId m)
  | .upsertSession _ | .appendEvent _ => isFalse id
  | .upsertTurn turn => inferInstanceAs (Decidable (turn.turnId = turnId))
  | .assignCheckpoint turnIds _ _ => inferInstanceAs (Decidable (turnId ∈ turnIds))

instance (w : World) : (op : InteractionOp) → Decidable (Complete repoId w op)
  | .recordSession _ | .recordTurn _ | .recordEvent _ => inferInstanceAs (Decidable (_ → _))
  | .assignCheckpointToTurns _ _ _ | .postCommitUpdate _ _ _ _ =>
    inferInstanceAs (Decidable (_ → _))
  | .flush _ => isTrue trivial

end Decidable

/-! ## The effect of a change on the repository -/

/-- The row that replaces what the repository has of the turn. -/
def replacedTurn (repoId : String) (turn : InteractionTurn) : TurnRow :=
  { excludedTurn repoId turn.agentType turn with endedAt := DuckDb.quotedNullable turn.endedAt }

def effect (repoId : String) : InteractionMutation → InteractionTables → InteractionTables
  | .upsertSession session, r =>
    { r with sessions := r.sessions.upsert (DuckDb.sessionRow session r) }
  | .upsertTurn turn, r => { r with turns := r.turns.upsert (replacedTurn repoId turn) }
  | .appendEvent event, r => { r with
      events := r.events.insertOrIgnore { event with turnId := some (event.turnId.getD "") } }
  | .assignCheckpoint turnIds checkpointId assignedAt, r =>
    DuckDb.assignCheckpointToTurns turnIds checkpointId assignedAt r

variable {repoId : String} {t t' r r' : InteractionTables}

theorem toInteger_eq_some {value : UInt32} {n : ℤ} (h : DuckDb.toInteger value = some n) :
    n = value.toNat := by
  unfold DuckDb.toInteger at h
  split_ifs at h
  exact (Option.some.inj h).symm

theorem toBigint_eq_some {value : UInt64} {n : ℤ} (h : DuckDb.toBigint value = some n) :
    n = asI64 value := by
  unfold DuckDb.toBigint at h
  split_ifs at h with hfits
  have hsigned : asI64 value = value.toNat := by
    calc value.toInt64.toInt = (UInt64.ofNat value.toNat).toInt64.toInt := by
          rw [UInt64.ofNat_toNat]
      _ = (Int64.ofNat value.toNat).toInt := by rw [UInt64.toInt64_ofNat']
      _ = value.toNat := Int64.toInt_ofNat_of_lt hfits
  rw [hsigned]
  exact (Option.some.inj h).symm

theorem turnRow_eq_some {turn : InteractionTurn} {row : TurnRow}
    (h : DuckDb.turnRow repoId turn = some row) : row = replacedTurn repoId turn := by
  simp only [DuckDb.turnRow, Option.bind_eq_bind, Option.bind_eq_some_iff] at h
  obtain ⟨turnNumber, hnumber, input, hinput, creation, hcreation, read, hread, output, houtput,
    calls, hcalls, count, hcount, h⟩ := h
  cases h
  rw [toInteger_eq_some hnumber, toBigint_eq_some hinput, toBigint_eq_some hcreation,
    toBigint_eq_some hread, toBigint_eq_some houtput, toBigint_eq_some hcalls,
    toInteger_eq_some hcount]
  rfl

theorem sessionRow_sessionRow (session : InteractionSession) :
    DuckDb.sessionRow session
      { r with sessions := r.sessions.upsert (DuckDb.sessionRow session r) } =
        DuckDb.sessionRow session r := by
  have hfound : InteractionTables.session?
      { r with sessions := r.sessions.upsert (DuckDb.sessionRow session r) } session.sessionId =
        some (DuckDb.sessionRow session r) := by
    rw [InteractionTables.session?, UniqueTable.findRow_upsert]
    exact if_pos rfl
  rw [DuckDb.sessionRow, hfound, DuckDb.sessionRow, Option.map_some, Option.getD_some,
    ← Bool.or_assoc, Bool.or_self]

/-- The repository takes a change as a whole, and a repeated change makes no difference. -/
theorem faithful_applyMutation :
    WriteBehind.Faithful (DuckDb.applyMutation repoId) (effect repoId) where
  eq_effect {m r r'} happly := by
    cases m with
    | upsertSession session => exact (DuckDb.upsertSession_eq_some.mp happly).2
    | upsertTurn turn =>
      obtain ⟨-, row, hrow, rfl⟩ := DuckDb.upsertTurn_eq_some.mp happly
      rw [turnRow_eq_some hrow]
      rfl
    | appendEvent event => exact (DuckDb.appendEvent_eq_some.mp happly).2
    | assignCheckpoint turnIds checkpointId assignedAt => exact (Option.some.inj happly).symm
  idempotent m r := by
    cases m with
    | upsertSession session =>
      simp only [effect]
      rw [sessionRow_sessionRow, UniqueTable.upsert_upsert]
    | upsertTurn turn =>
      simp only [effect]
      rw [UniqueTable.upsert_upsert]
    | appendEvent event =>
      simp only [effect]
      rw [UniqueTable.insertOrIgnore_insertOrIgnore]
    | assignCheckpoint turnIds checkpointId assignedAt =>
      simp only [effect, DuckDb.assignCheckpointToTurns]
      split_ifs
      · rfl
      · rw [assignTurns_assignTurns]

/-! ## Checkpoints -/

instance : Std.Refl KeepsCheckpoints := ⟨fun _ _ h => h⟩

instance : IsTrans InteractionTables KeepsCheckpoints :=
  ⟨fun _ _ _ h h' turnId hturn => h' turnId (h turnId hturn)⟩

theorem hasCheckpoint_iff {turnId : String} : HasCheckpoint t turnId ↔
    (((t.turn? turnId).map mapTurnRow).bind (·.checkpointId)).isSome := by
  unfold HasCheckpoint
  cases hrow : t.turn? turnId with
  | none => simp
  | some row => cases hblank : isBlank row.checkpointId <;>
      simp [mapTurnRow, TurnRow.toTurn, nonBlank, hblank]

/-- Stores that agree have the same turns with a checkpoint. -/
theorem Agree.hasCheckpoint_iff (h : Agree t r) {turnId : String} :
    HasCheckpoint t turnId ↔ HasCheckpoint r turnId := by
  have hcheckpoint : ∀ row : TurnRow,
      (mapTurnRow row).checkpointId = (DuckDb.mapTurnRow row).checkpointId := fun _ => rfl
  rw [Interactions.hasCheckpoint_iff, Interactions.hasCheckpoint_iff, h.turns turnId]
  cases r.turn? turnId with
  | none => rfl
  | some row => rw [Option.map_some, Option.map_some, Option.bind_some, Option.bind_some, hcheckpoint]

theorem keepsCheckpoints_of_agree (h : Agree t r) (h' : Agree t' r') (hkeeps : KeepsCheckpoints t t') :
    KeepsCheckpoints r r' := fun turnId hturn =>
  h'.hasCheckpoint_iff.mp (hkeeps turnId (h.hasCheckpoint_iff.mpr hturn))

/-- A step that leaves the turns alone keeps their checkpoints. -/
theorem keepsCheckpoints_of_turns (h : ∀ turnId, t'.turn? turnId = t.turn? turnId) :
    KeepsCheckpoints t t' := by
  rintro turnId ⟨row, hrow, hblank⟩
  exact ⟨row, (h turnId).trans hrow, hblank⟩

/-! ## Complete upserts of a session -/

theorem mergeSession_of_complete {old new : InteractionSession} (h : SessionComplete old new) :
    mergeSession old new = { new with isAuxiliary := new.isAuxiliary || old.isAuxiliary } := by
  obtain ⟨htexts, hagent, hended⟩ := h
  have hkeep : ∀ column ∈ keptSessionTexts,
      keepWhen "" (column new) (column old) = column new :=
    fun column hcolumn => keepWhen_eq (htexts column hcolumn)
  have hagentType : (if old.agentType ≠ "" then old.agentType
      else if new.agentType ≠ "" then new.agentType else old.agentType) = new.agentType := by
    by_cases hold : old.agentType = ""
    · by_cases hnew : new.agentType = "" <;> simp [hold, hnew]
    · rw [if_pos hold, hagent hold]
  have hauxiliary : (if new.isAuxiliary then true else old.isAuxiliary) =
      (new.isAuxiliary || old.isAuxiliary) := by
    cases new.isAuxiliary <;> rfl
  simp only [keptSessionTexts, List.forall_mem_cons] at hkeep
  simp only [mergeSession, hkeep, hagentType, hauxiliary, coalesce_eq hended]

theorem quotedNullable_filter {given : Option String} (h : NotBlank given) :
    (DuckDb.quotedNullable given).filter (fun value => !isBlank value) = given := by
  cases given with
  | none => rfl
  | some value =>
    have hblank : isBlank value = false := h value rfl
    have hempty : value ≠ "" := by
      rintro rfl
      exact absurd hblank (by decide)
    simp [DuckDb.quotedNullable, hempty, hblank]

theorem agree_upsertSession {session : InteractionSession} (h : Agree t r)
    (hended : NotBlank session.endedAt)
    (hcomplete : ∀ old ∈ t.session? session.sessionId, SessionComplete old session) :
    Agree { t with sessions := t.sessions.upsertMerged mergeSession session }
      (effect repoId (.upsertSession session) r) where
  turns := h.turns
  events := h.events
  sessions sessionId := by
    have hrow : DuckDb.mapSessionRow (DuckDb.sessionRow session r) =
        { session with
          isAuxiliary := session.isAuxiliary ||
            ((t.session? session.sessionId).map (·.isAuxiliary)).getD false } := by
      have hold : ((r.session? session.sessionId).map (·.isAuxiliary)) =
          ((t.session? session.sessionId).map (·.isAuxiliary)) := by
        have := congrArg (Option.map fun s : InteractionSession => s.isAuxiliary)
          (h.sessions session.sessionId)
        rw [Option.map_map, Option.map_map] at this
        exact this.symm
      rw [DuckDb.mapSessionRow, DuckDb.sessionRow, hold, quotedNullable_filter hended]
    have hnew : ((t.session? session.sessionId).map fun old => mergeSession old session).getD
        session = DuckDb.mapSessionRow (DuckDb.sessionRow session r) := by
      rw [hrow]
      cases hfound : t.session? session.sessionId with
      | none => simp
      | some old => exact mergeSession_of_complete (hcomplete old hfound)
    show (findRow _ sessionId (t.sessions.upsertMerged mergeSession session).rows).map _ =
      (findRow _ sessionId (r.sessions.upsert (DuckDb.sessionRow session r)).rows).map _
    rw [UniqueTable.findRow_upsertMerged fun _ => rfl, UniqueTable.findRow_upsert]
    by_cases hid : sessionId = session.sessionId
    · rw [if_pos hid, if_pos (show sessionId = (DuckDb.sessionRow session r).sessionId from hid),
        hid, Option.map_some, Option.map_some]
      exact congrArg some hnew
    · rw [if_neg hid, if_neg (show sessionId ≠ (DuckDb.sessionRow session r).sessionId from hid)]
      exact h.sessions sessionId

/-! ## Complete upserts of a turn -/

theorem nonBlank_keepWhen {new old : String} (h : isBlank new = true → isBlank old = true) :
    nonBlank (keepWhen "" new old) = nonBlank new := by
  unfold keepWhen
  split_ifs with hempty
  · have hnew : isBlank new = true := hempty ▸ rfl
    rw [nonBlank, nonBlank, if_pos hnew, if_pos (h hnew)]
  · rfl

theorem mapTurnRow_mergeTurn {old new : TurnRow} (h : TurnComplete old new) :
    mapTurnRow (mergeTurn old new) = mapTurnRow new := by
  obtain ⟨htexts, hnumber, hcount, hended, hstart, hend, husage, hfiles, hcheckpoint⟩ := h
  have hkeep : ∀ column ∈ keptTurnTexts,
      keepWhen "" (column new) (column old) = column new :=
    fun column hcolumn => keepWhen_eq (htexts column hcolumn)
  have hmodified : (if new.filesModified = [] ∧ old.filesModified ≠ [] then old.filesModified
      else new.filesModified) = new.filesModified :=
    if_neg fun hboth => hboth.2 (hfiles hboth.1)
  have htokens : (mergeTurn old new).tokenUsage = new.tokenUsage := by
    cases hnew : new.hasTokenUsage with
    | true => simp [mergeTurn, TurnRow.tokenUsage, hnew]
    | false => simp [mergeTurn, TurnRow.tokenUsage, hnew, husage hnew]
  simp only [keptTurnTexts, List.forall_mem_cons] at hkeep
  simp only [mapTurnRow, TurnRow.toTurn, htokens]
  simp only [mergeTurn, hkeep, hmodified, nonBlank_keepWhen hcheckpoint, keepWhen_eq hnumber,
    keepWhen_eq hcount, coalesce_eq hended, coalesce_eq hstart, coalesce_eq hend]

/-- A session with an agent type gives that type to its turns. -/
theorem canonicalAgentType_of_namesAgent {sessionId agentType : String}
    (h : NamesAgent t sessionId agentType) :
    canonicalAgentTypeForSession t sessionId agentType = agentType := by
  unfold canonicalAgentTypeForSession
  cases hsession : t.session? sessionId with
  | none => rfl
  | some session =>
    cases hblank : isBlank session.agentType with
    | true => simp [Option.filter, hblank]
    | false => simp [Option.filter, hblank, h session hsession hblank]

theorem mapTurnRow_replacedTurn {turn : InteractionTurn} (hended : NotBlank turn.endedAt) :
    DuckDb.mapTurnRow (replacedTurn repoId turn) =
      mapTurnRow (excludedTurn repoId turn.agentType turn) := by
  have htime : (replacedTurn repoId turn).endedAt.filter (fun value => !isBlank value) =
      turn.endedAt := quotedNullable_filter hended
  rw [DuckDb.mapTurnRow, htime]
  rfl

/-- The tables of the spool after the turn. -/
def withTurn (repoId : String) (turn : InteractionTurn) (t : InteractionTables) :
    InteractionTables :=
  { t with turns := t.turns.upsertMerged mergeTurn (canonicalTurn repoId turn t) }

theorem turn?_withTurn {turn : InteractionTurn} {turnId : String}
    (h : NamesAgent t turn.sessionId turn.agentType) :
    (withTurn repoId turn t).turn? turnId =
      if turnId = turn.turnId then
        some (((t.turn? turnId).map fun old =>
          mergeTurn old (excludedTurn repoId turn.agentType turn)).getD
            (excludedTurn repoId turn.agentType turn))
      else t.turn? turnId := by
  have hcanonical : canonicalTurn repoId turn t = excludedTurn repoId turn.agentType turn := by
    rw [canonicalTurn, canonicalAgentType_of_namesAgent h]
  show findRow _ turnId (t.turns.upsertMerged mergeTurn (canonicalTurn repoId turn t)).rows = _
  rw [hcanonical, UniqueTable.findRow_upsertMerged fun _ => rfl]
  rfl

theorem agree_upsertTurn {turn : InteractionTurn} (h : Agree t r)
    (hcomplete : TurnUpsertComplete repoId t turn) :
    Agree (withTurn repoId turn t) (effect repoId (.upsertTurn turn) r) where
  sessions := h.sessions
  events := h.events
  turns turnId := by
    obtain ⟨hagent, hended, hold⟩ := hcomplete
    rw [turn?_withTurn hagent]
    show _ = (findRow _ turnId (r.turns.upsert (replacedTurn repoId turn)).rows).map _
    rw [UniqueTable.findRow_upsert]
    by_cases hid : turnId = turn.turnId
    · have hid' : turnId = (replacedTurn repoId turn).turnId := hid
      rw [if_pos hid, if_pos hid', hid, Option.map_some, Option.map_some,
        mapTurnRow_replacedTurn hended]
      refine congrArg some ?_
      cases hfound : t.turn? turn.turnId with
      | none => rfl
      | some old => exact mapTurnRow_mergeTurn (hold old hfound)
    · have hid' : turnId ≠ (replacedTurn repoId turn).turnId := hid
      rw [if_neg hid, if_neg hid']
      exact h.turns turnId

/-- A complete turn has a checkpoint if the stored one has. -/
theorem keepsCheckpoints_withTurn {turn : InteractionTurn}
    (hcomplete : TurnUpsertComplete repoId t turn) :
    KeepsCheckpoints t (withTurn repoId turn t) := by
  obtain ⟨hagent, -, hold⟩ := hcomplete
  rintro turnId ⟨row, hrow, hblank⟩
  by_cases hid : turnId = turn.turnId
  · subst hid
    have hmerged : (withTurn repoId turn t).turn? turn.turnId = _ := turn?_withTurn hagent
    rw [if_pos rfl, hrow, Option.map_some, Option.getD_some] at hmerged
    refine ⟨_, hmerged, ?_⟩
    have hnew : isBlank (turn.checkpointId.getD "") = false := by
      cases hnew : isBlank (turn.checkpointId.getD "") with
      | false => rfl
      | true => exact absurd ((hold row hrow).2.2.2.2.2.2.2.2 hnew) (by rw [hblank]; decide)
    have hne : turn.checkpointId.getD "" ≠ "" := by
      intro hempty
      rw [hempty] at hnew
      exact absurd hnew (by decide)
    have hkept : keepWhen "" (turn.checkpointId.getD "") row.checkpointId =
        turn.checkpointId.getD "" := if_neg hne
    show isBlank (keepWhen "" (turn.checkpointId.getD "") row.checkpointId) = false
    rw [hkept, hnew]
  · exact ⟨row, by rw [turn?_withTurn hagent, if_neg hid, hrow], hblank⟩

/-! ## Events and assignments -/

theorem agree_appendEvent {event : InteractionEvent} (h : Agree t r)
    (hcomplete : (t.event? event.eventId).isSome ∨
      (NamesAgent t event.sessionId event.agentType ∧ NotBlank event.turnId)) :
    Agree { t with events := t.events.insertOrIgnore (canonicalEvent event t) }
      (effect repoId (.appendEvent event) r) where
  sessions := h.sessions
  turns := h.turns
  events eventId := by
    show (findRow _ eventId (t.events.insertOrIgnore (canonicalEvent event t)).rows).map _ =
      (findRow _ eventId (r.events.insertOrIgnore
        { event with turnId := some (event.turnId.getD "") }).rows).map _
    rw [UniqueTable.findRow_insertOrIgnore, UniqueTable.findRow_insertOrIgnore]
    have hevents := h.events eventId
    by_cases hid : eventId = event.eventId
    · rw [if_pos (show eventId = (canonicalEvent event t).eventId from hid), if_pos hid]
      simp only [InteractionTables.event?] at hevents hcomplete
      cases hspool : findRow (·.eventId) eventId t.events.rows with
      | some old =>
        cases hrepository : findRow (·.eventId) eventId r.events.rows with
        | some row => rwa [hspool, hrepository] at hevents
        | none => rw [hspool, hrepository] at hevents; exact absurd hevents (by simp)
      | none =>
        cases hrepository : findRow (·.eventId) eventId r.events.rows with
        | some row => rw [hspool, hrepository] at hevents; exact absurd hevents (by simp)
        | none =>
          subst hid
          rw [hspool] at hcomplete
          obtain hknown | ⟨hagent, hturn⟩ := hcomplete
          · exact absurd hknown (by simp)
          · have hevent : canonicalEvent event t = event := by
              rw [canonicalEvent, canonicalAgentType_of_namesAgent hagent]
            have hturnId : nonBlank (event.turnId.getD "") = event.turnId := by
              cases hgiven : event.turnId with
              | none => rfl
              | some value => exact if_neg (by rw [Option.getD_some, hturn value hgiven]; decide)
            rw [Option.getD_none, Option.getD_none, hevent, Option.map_some, Option.map_some,
              DuckDb.mapEventRow, Option.getD_some, hturnId]
            rfl
    · rw [if_neg (show eventId ≠ (canonicalEvent event t).eventId from hid), if_neg hid]
      exact hevents

theorem agree_assign {turnIds : List String} {checkpointId assignedAt : String} (h : Agree t r) :
    Agree { t with turns := assignTurns turnIds checkpointId assignedAt t.turns }
      { r with turns := assignTurns turnIds checkpointId assignedAt r.turns } where
  sessions := h.sessions
  events := h.events
  turns turnId := by
    show (findRow _ turnId (assignTurns turnIds checkpointId assignedAt t.turns).rows).map _ =
      (findRow _ turnId (assignTurns turnIds checkpointId assignedAt r.turns).rows).map _
    have hturns : (t.turn? turnId).map mapTurnRow = (r.turn? turnId).map DuckDb.mapTurnRow :=
      h.turns turnId
    have hcommutes : ∀ (read : TurnRow → InteractionTurn),
        (∀ row, read (row.assign checkpointId assignedAt) =
          { read row with checkpointId := nonBlank checkpointId, updatedAt := assignedAt }) →
        ∀ found : Option TurnRow, (found.map fun row =>
            if turnId ∈ turnIds then row.assign checkpointId assignedAt else row).map read =
          (found.map read).map fun turn =>
            if turnId ∈ turnIds then
              { turn with checkpointId := nonBlank checkpointId, updatedAt := assignedAt }
            else turn := by
      intro read hread found
      rw [Option.map_map, Option.map_map]
      refine congrFun (congrArg Option.map (funext fun row => ?_)) found
      simp only [Function.comp_apply]
      split_ifs
      · exact hread row
      · rfl
    rw [findRow_assignTurns, findRow_assignTurns, hcommutes mapTurnRow fun _ => rfl,
      hcommutes DuckDb.mapTurnRow fun _ => rfl]
    exact congrArg _ hturns

theorem keepsCheckpoints_assign {turnIds : List String} {checkpointId assignedAt : String}
    (h : isBlank checkpointId = true → ∀ turnId ∈ turnIds, ∀ old ∈ t.turn? turnId,
      isBlank old.checkpointId = true) :
    KeepsCheckpoints t
      { t with turns := assignTurns turnIds checkpointId assignedAt t.turns } := by
  rintro turnId ⟨row, hrow, hblank⟩
  refine ⟨if turnId ∈ turnIds then row.assign checkpointId assignedAt else row, ?_, ?_⟩
  · show findRow _ turnId (assignTurns turnIds checkpointId assignedAt t.turns).rows = _
    rw [findRow_assignTurns]
    exact congrArg (Option.map _) hrow
  · split_ifs with hmem
    · cases hgiven : isBlank checkpointId with
      | false => exact hgiven
      | true => exact absurd (h hgiven turnId hmem row hrow) (by rw [hblank]; decide)
    · exact hblank

/-! ## A turn that no queued change concerns -/

/-- The first store is the second one with the given row for its turn. -/
structure WithRow (row : TurnRow) (a b : InteractionTables) : Prop where
  sessions : ∀ sessionId, a.session? sessionId = b.session? sessionId
  turns : ∀ turnId, a.turn? turnId = if turnId = row.turnId then some row else b.turn? turnId
  events : ∀ eventId, a.event? eventId = b.event? eventId

theorem withRow_upsert {row : TurnRow} :
    WithRow row { r with turns := r.turns.upsert row } r where
  sessions _ := rfl
  turns _ := UniqueTable.findRow_upsert
  events _ := rfl

theorem Agree.withRow {row : TurnRow} {a b : InteractionTables} (hrow : WithRow row a b)
    (h : Agree t { b with turns := b.turns.upsert row }) : Agree t a where
  sessions sessionId := by
    rw [hrow.sessions]
    exact h.sessions sessionId
  turns turnId := by
    rw [hrow.turns, h.turns turnId]
    exact congrArg (Option.map _) UniqueTable.findRow_upsert
  events eventId := by
    rw [hrow.events]
    exact h.events eventId

/-- A change that does not concern the turn acts on the rest only. -/
theorem WithRow.effect {row : TurnRow} {a b : InteractionTables} {m : InteractionMutation}
    (hm : ¬ Concerns row.turnId m) (h : WithRow row a b) :
    WithRow row (effect repoId m a) (effect repoId m b) := by
  cases m with
  | upsertSession session =>
    have hsame : DuckDb.sessionRow session a = DuckDb.sessionRow session b := by
      rw [DuckDb.sessionRow, DuckDb.sessionRow, h.sessions]
    refine ⟨fun sessionId => ?_, h.turns, h.events⟩
    show findRow _ sessionId (a.sessions.upsert (DuckDb.sessionRow session a)).rows =
      findRow _ sessionId (b.sessions.upsert (DuckDb.sessionRow session b)).rows
    rw [UniqueTable.findRow_upsert, UniqueTable.findRow_upsert, hsame]
    exact if_congr Iff.rfl rfl (h.sessions sessionId)
  | upsertTurn turn =>
    have hother : (replacedTurn repoId turn).turnId ≠ row.turnId := hm
    refine ⟨h.sessions, fun turnId => ?_, h.events⟩
    show findRow _ turnId (a.turns.upsert (replacedTurn repoId turn)).rows =
      if turnId = row.turnId then some row
      else findRow _ turnId (b.turns.upsert (replacedTurn repoId turn)).rows
    rw [UniqueTable.findRow_upsert, UniqueTable.findRow_upsert]
    have hturn := h.turns turnId
    simp only [InteractionTables.turn?] at hturn
    rw [hturn]
    by_cases hnew : turnId = (replacedTurn repoId turn).turnId
    · rw [if_pos hnew, if_pos hnew, if_neg (hnew ▸ hother)]
    · rw [if_neg hnew, if_neg hnew]
  | appendEvent event =>
    refine ⟨h.sessions, h.turns, fun eventId => ?_⟩
    show findRow _ eventId (a.events.insertOrIgnore _).rows =
      findRow _ eventId (b.events.insertOrIgnore _).rows
    have hevent := h.events eventId
    simp only [InteractionTables.event?] at hevent
    rw [UniqueTable.findRow_insertOrIgnore, UniqueTable.findRow_insertOrIgnore, hevent]
  | assignCheckpoint turnIds checkpointId assignedAt =>
    simp only [Interactions.effect, DuckDb.assignCheckpointToTurns]
    split_ifs with hempty
    · exact h
    · refine ⟨h.sessions, fun turnId => ?_, h.events⟩
      show findRow _ turnId (assignTurns turnIds checkpointId assignedAt a.turns).rows =
        if turnId = row.turnId then some row
        else findRow _ turnId (assignTurns turnIds checkpointId assignedAt b.turns).rows
      rw [findRow_assignTurns, findRow_assignTurns]
      have hturn := h.turns turnId
      simp only [InteractionTables.turn?] at hturn
      rw [hturn]
      by_cases hid : turnId = row.turnId
      · have hnotMem : turnId ∉ turnIds := hid ▸ hm
        rw [if_pos hid, if_pos hid, Option.map_some, if_neg hnotMem]
      · rw [if_neg hid, if_neg hid]

theorem WithRow.keepsCheckpoints {row : TurnRow} {a b a' b' : InteractionTables}
    (h : WithRow row a b) (h' : WithRow row a' b') (hkeeps : KeepsCheckpoints b b') :
    KeepsCheckpoints a a' := by
  rintro turnId ⟨found, hfound, hblank⟩
  rw [h.turns] at hfound
  unfold HasCheckpoint
  rw [h'.turns]
  split_ifs at hfound ⊢ with hid
  · exact ⟨found, hfound, hblank⟩
  · exact hkeeps turnId ⟨found, hfound, hblank⟩

/-- A change that does not concern the turn leaves its row alone. -/
theorem turn?_effect {turnId : String} {m : InteractionMutation} (hm : ¬ Concerns turnId m) :
    (effect repoId m r).turn? turnId = r.turn? turnId := by
  cases m with
  | upsertSession session => rfl
  | appendEvent event => rfl
  | upsertTurn turn =>
    show findRow _ turnId (r.turns.upsert (replacedTurn repoId turn)).rows = _
    rw [UniqueTable.findRow_upsert]
    exact if_neg fun h => hm h.symm
  | assignCheckpoint turnIds checkpointId assignedAt =>
    have hnotMem : turnId ∉ turnIds := hm
    simp only [effect, DuckDb.assignCheckpointToTurns]
    split_ifs with hempty
    · rfl
    · show findRow _ turnId (assignTurns turnIds checkpointId assignedAt r.turns).rows = _
      rw [findRow_assignTurns]
      simp only [if_neg hnotMem, Option.map_id']
      rfl

/-! ## The invariant -/

/-- With its queue applied, the repository agrees with the spool, and no queued change takes a
checkpoint away. -/
structure Follows (repoId : String) (w : World) : Prop where
  agree : Agree w.spool.tables (WriteBehind.replay (effect repoId) w.spool.queue w.repository)
  along : WriteBehind.Along (effect repoId) KeepsCheckpoints w.spool.queue w.repository

/-- A change that both stores make, one now and the other from the queue, keeps the invariant. -/
theorem Follows.enqueue {w : World} {m : InteractionMutation} (h : Follows repoId w)
    (hagree : ∀ r, Agree w.spool.tables r → Agree t' (effect repoId m r))
    (hkeeps : KeepsCheckpoints w.spool.tables t') :
    Follows repoId ⟨⟨t', w.spool.queue ++ [m]⟩, w.repository⟩ where
  agree := by
    rw [WriteBehind.replay_append]
    exact hagree _ h.agree
  along := h.along.append (keepsCheckpoints_of_agree h.agree (hagree _ h.agree) hkeeps)

theorem Follows.flush {w : World} (h : Follows repoId w)
    (deliveries : List WriteBehind.Delivery) : Follows repoId (w.flush repoId deliveries) where
  agree := by
    have hreplay : WriteBehind.replay (effect repoId) _ _ =
        WriteBehind.replay (effect repoId) w.spool.queue w.repository :=
      WriteBehind.replay_drain faithful_applyMutation deliveries
    show Agree w.spool.tables (WriteBehind.replay (effect repoId) _ _)
    rw [World.flush, Spool.flush, hreplay]
    exact h.agree
  along := h.along.drain faithful_applyMutation deliveries

/-- A commit may update a turn of which nothing is queued. -/
theorem Follows.postCommitUpdate {w : World} {turn : InteractionTurn} (h : Follows repoId w)
    (hqueue : ∀ m ∈ w.spool.queue, ¬ Concerns turn.turnId m)
    (hcomplete : TurnUpsertComplete repoId w.spool.tables turn) :
    Follows repoId ⟨⟨withTurn repoId turn w.spool.tables, w.spool.queue⟩,
      effect repoId (.upsertTurn turn) w.repository⟩ := by
  have hsim : ∀ m ∈ w.spool.queue, ∀ a b, WithRow (replacedTurn repoId turn) a b →
      WithRow (replacedTurn repoId turn) (effect repoId m a) (effect repoId m b) :=
    fun m hm a b hab => hab.effect (hqueue m hm)
  have hstart : WithRow (replacedTurn repoId turn)
      (effect repoId (.upsertTurn turn) w.repository) w.repository := withRow_upsert
  constructor
  · exact (agree_upsertTurn h.agree hcomplete).withRow (WriteBehind.replay_related hsim hstart)
  · exact WriteBehind.along_related hsim
      (fun a b a' b' hab hab' => hab.keepsCheckpoints hab') hstart h.along

/-- The checkpoint of a turn of which nothing is queued is the same in both stores. -/
theorem Follows.keepsCheckpoints_postCommitUpdate {w : World} {turn : InteractionTurn}
    (h : Follows repoId w) (hqueue : ∀ m ∈ w.spool.queue, ¬ Concerns turn.turnId m)
    (hcomplete : TurnUpsertComplete repoId w.spool.tables turn) :
    KeepsCheckpoints w.repository (effect repoId (.upsertTurn turn) w.repository) := by
  intro turnId hturn
  by_cases hid : turnId = turn.turnId
  · subst hid
    have hsame : (WriteBehind.replay (effect repoId) w.spool.queue w.repository).turn?
        turn.turnId = w.repository.turn? turn.turnId :=
      WriteBehind.replay_unchanged (f := fun r : InteractionTables => r.turn? turn.turnId)
        fun m hm _ => turn?_effect (hqueue m hm)
    have hreplayed : HasCheckpoint
        (WriteBehind.replay (effect repoId) w.spool.queue w.repository) turn.turnId := by
      unfold HasCheckpoint
      rw [hsame]
      exact hturn
    have hupdated : HasCheckpoint (effect repoId (.upsertTurn turn)
        (WriteBehind.replay (effect repoId) w.spool.queue w.repository)) turn.turnId :=
      keepsCheckpoints_of_agree h.agree (agree_upsertTurn h.agree hcomplete)
        (keepsCheckpoints_withTurn hcomplete) _ hreplayed
    obtain ⟨row, hrow, hblank⟩ := hupdated
    refine ⟨row, ?_, hblank⟩
    rw [← hrow]
    show findRow _ turn.turnId (w.repository.turns.upsert _).rows =
      findRow _ turn.turnId (InteractionTables.turns _ |>.upsert _).rows
    rw [UniqueTable.findRow_upsert, UniqueTable.findRow_upsert]
    have hself : turn.turnId = (replacedTurn repoId turn).turnId := rfl
    rw [if_pos hself, if_pos hself]
  · obtain ⟨row, hrow, hblank⟩ := hturn
    have hother : ¬ Concerns turnId (.upsertTurn turn) := fun h => hid (Eq.symm h)
    exact ⟨row, by rw [turn?_effect hother, hrow], hblank⟩

/-! ## Steps and runs -/

/-- The invariant holds again, and no turn has lost its checkpoint. -/
structure FollowsOn (repoId : String) (w w' : World) : Prop where
  follows : Follows repoId w'
  spool : KeepsCheckpoints w.spool.tables w'.spool.tables
  repository : KeepsCheckpoints w.repository w'.repository

theorem Follows.unchanged {w : World} (h : Follows repoId w) : FollowsOn repoId w w :=
  ⟨h, fun _ h => h, fun _ h => h⟩

/-- A recorded change: the tables of the spool have it, and the queue has it. -/
theorem Follows.record {w : World} {m : InteractionMutation} (h : Follows repoId w)
    (hagree : ∀ r, Agree w.spool.tables r → Agree t' (effect repoId m r))
    (hkeeps : KeepsCheckpoints w.spool.tables t') :
    FollowsOn repoId w ⟨⟨t', w.spool.queue ++ [m]⟩, w.repository⟩ :=
  ⟨h.enqueue hagree hkeeps, hkeeps, fun _ h => h⟩

theorem recordSession_followsOn {w : World} {session : InteractionSession}
    (h : Follows repoId w) (hcomplete : Complete repoId w (.recordSession session)) :
    FollowsOn repoId w
      { w with spool := (recordSession repoId session w.spool).getD w.spool } := by
  by_cases hrepo : repoId = session.repoId
  · have hlocal := upsertLocalSession_eq_some (t := w.spool.tables).mpr ⟨hrepo, rfl⟩
    obtain ⟨hended, hold⟩ := hcomplete hrepo.symm
    simp only [recordSession, hlocal, Option.bind_eq_bind, Option.bind_some, Option.pure_def,
      Option.getD_some]
    exact h.record (fun r hr => agree_upsertSession hr hended hold)
      (keepsCheckpoints_of_turns fun _ => rfl)
  · have hrefused : upsertLocalSession repoId session w.spool.tables = none := by
      simp [upsertLocalSession, ensureRepoId, hrepo]
    simpa only [recordSession, hrefused, Option.bind_eq_bind, Option.bind_none,
      Option.getD_none] using h.unchanged

theorem recordTurn_followsOn {w : World} {turn : InteractionTurn} (h : Follows repoId w)
    (hcomplete : Complete repoId w (.recordTurn turn)) :
    FollowsOn repoId w { w with spool := (recordTurn repoId turn w.spool).getD w.spool } := by
  by_cases hrepo : repoId = turn.repoId
  · have hlocal : upsertLocalTurn repoId turn w.spool.tables =
        some (withTurn repoId turn w.spool.tables) :=
      upsertLocalTurn_eq_some.mpr ⟨hrepo, rfl⟩
    have hturn := hcomplete hrepo.symm
    simp only [recordTurn, hlocal, Option.bind_eq_bind, Option.bind_some, Option.pure_def,
      Option.getD_some]
    exact h.record (fun r hr => agree_upsertTurn hr hturn) (keepsCheckpoints_withTurn hturn)
  · have hrefused : upsertLocalTurn repoId turn w.spool.tables = none := by
      simp [upsertLocalTurn, ensureRepoId, hrepo]
    simpa only [recordTurn, hrefused, Option.bind_eq_bind, Option.bind_none,
      Option.getD_none] using h.unchanged

theorem recordEvent_followsOn {w : World} {event : InteractionEvent} (h : Follows repoId w)
    (hcomplete : Complete repoId w (.recordEvent event)) :
    FollowsOn repoId w { w with spool := (recordEvent repoId event w.spool).getD w.spool } := by
  by_cases hrepo : repoId = event.repoId
  · have hlocal := insertLocalEvent_eq_some (t := w.spool.tables).mpr ⟨hrepo, rfl⟩
    have hevent := hcomplete hrepo.symm
    simp only [recordEvent, hlocal, Option.bind_eq_bind, Option.bind_some, Option.pure_def,
      Option.getD_some]
    exact h.record (fun r hr => agree_appendEvent hr hevent)
      (keepsCheckpoints_of_turns fun _ => rfl)
  · have hrefused : insertLocalEvent repoId event w.spool.tables = none := by
      simp [insertLocalEvent, ensureRepoId, hrepo]
    simpa only [recordEvent, hrefused, Option.bind_eq_bind, Option.bind_none,
      Option.getD_none] using h.unchanged

theorem assignCheckpointToTurns_followsOn {w : World} {turnIds : List String}
    {checkpointId assignedAt : String} (h : Follows repoId w)
    (hcomplete : Complete repoId w (.assignCheckpointToTurns turnIds checkpointId assignedAt)) :
    FollowsOn repoId w
      { w with spool := assignCheckpointToTurns turnIds checkpointId assignedAt w.spool } := by
  by_cases hempty : turnIds.isEmpty = true
  · simpa only [assignCheckpointToTurns, if_pos hempty] using h.unchanged
  · simp only [assignCheckpointToTurns, if_neg hempty]
    refine h.record (fun r hr => ?_) (keepsCheckpoints_assign hcomplete)
    simp only [effect, DuckDb.assignCheckpointToTurns, if_neg hempty]
    exact agree_assign hr

theorem postCommitUpdate_followsOn {w : World} {turn : InteractionTurn} (h : Follows repoId w)
    (hqueue : turn.repoId = repoId → ∀ m ∈ w.spool.queue, ¬ Concerns turn.turnId m)
    (hcomplete : turn.repoId = repoId → TurnUpsertComplete repoId w.spool.tables turn) :
    FollowsOn repoId w ((postCommitUpdate repoId turn w).getD w) := by
  cases hupsert : DuckDb.upsertTurn repoId turn w.repository with
  | none =>
    simpa only [postCommitUpdate, hupsert, Option.bind_eq_bind, Option.bind_none,
      Option.getD_none] using h.unchanged
  | some repository =>
    obtain ⟨hrepo, row, hrow, rfl⟩ := DuckDb.upsertTurn_eq_some.mp hupsert
    have hlocal : upsertLocalTurn repoId turn w.spool.tables =
        some (withTurn repoId turn w.spool.tables) :=
      upsertLocalTurn_eq_some.mpr ⟨hrepo, rfl⟩
    simp only [postCommitUpdate, hupsert, refreshTurnLocalOnly, hlocal, Option.bind_eq_bind,
      Option.bind_some, Option.pure_def, Option.getD_some]
    rw [turnRow_eq_some hrow]
    have hnotQueued := hqueue hrepo.symm
    have hturn := hcomplete hrepo.symm
    exact ⟨h.postCommitUpdate hnotQueued hturn, keepsCheckpoints_withTurn hturn,
      h.keepsCheckpoints_postCommitUpdate hnotQueued hturn⟩

theorem updatedTurn_keys (turn : InteractionTurn) (remainingFiles : List String)
    (checkpointId assignedAt : String) :
    (updatedTurn turn remainingFiles checkpointId assignedAt).turnId = turn.turnId ∧
      (updatedTurn turn remainingFiles checkpointId assignedAt).repoId = turn.repoId := by
  unfold updatedTurn
  split_ifs <;> exact ⟨rfl, rfl⟩

/-- **One step.**  A complete operation keeps the invariant, and no turn loses its checkpoint. -/
theorem step_followsOn {w w' : World} {op : InteractionOp} (h : Follows repoId w)
    (hcomplete : Complete repoId w op) (hstep : step repoId w op = some w') :
    FollowsOn repoId w w' := by
  cases op with
  | recordSession session =>
    obtain rfl := Option.some.inj hstep
    exact recordSession_followsOn h hcomplete
  | recordTurn turn =>
    obtain rfl := Option.some.inj hstep
    exact recordTurn_followsOn h hcomplete
  | recordEvent event =>
    obtain rfl := Option.some.inj hstep
    exact recordEvent_followsOn h hcomplete
  | assignCheckpointToTurns turnIds checkpointId assignedAt =>
    obtain rfl := Option.some.inj hstep
    exact assignCheckpointToTurns_followsOn h hcomplete
  | postCommitUpdate turn remainingFiles checkpointId assignedAt =>
    obtain rfl := Option.some.inj hstep
    obtain ⟨hid, hrepo⟩ := updatedTurn_keys turn remainingFiles checkpointId assignedAt
    refine postCommitUpdate_followsOn h (fun hsame => ?_) fun hsame => ?_
    · rw [hid]
      exact (hcomplete (hrepo.symm.trans hsame)).1
    · exact (hcomplete (hrepo.symm.trans hsame)).2
  | flush deliveries =>
    obtain rfl := Option.some.inj hstep
    exact ⟨h.flush deliveries, fun _ h => h,
      h.along.related_drain faithful_applyMutation deliveries⟩

theorem follows_empty : Follows repoId .empty :=
  ⟨⟨fun _ => rfl, fun _ => rfl, fun _ => rfl⟩, trivial⟩

/-- The checkpoints that both stores had are still there. -/
def KeepsOn (w w' : World) : Prop :=
  KeepsCheckpoints w.spool.tables w'.spool.tables ∧ KeepsCheckpoints w.repository w'.repository

instance : Std.Refl KeepsOn := ⟨fun _ => ⟨fun _ h => h, fun _ h => h⟩⟩

instance : IsTrans World KeepsOn :=
  ⟨fun _ _ _ h h' => ⟨fun id hid => h'.1 id (h.1 id hid), fun id hid => h'.2 id (h.2 id hid)⟩⟩

/-- **Complete operations keep the repository in step with the spool.** -/
theorem repositoryFollowsSpool_of_complete {ops : List InteractionOp}
    (hcomplete : Run.Meets (step repoId) (Complete repoId) .empty ops) :
    RepositoryFollowsSpool repoId ops := by
  rintro front back w w' rfl hfront hback
  obtain ⟨hmeets, hrest⟩ := Run.meets_append.mp hcomplete
  have hw : Follows repoId w :=
    Run.exec_invariant_of_meets (Follows repoId)
      (fun _ _ _ h hok hstep => (step_followsOn h hok hstep).follows) follows_empty hmeets hfront
  refine ⟨fun hempty => ?_, ?_⟩
  · have hagree := hw.agree
    rwa [hempty, WriteBehind.replay_nil] at hagree
  · exact Run.exec_monotone_of_meets (Follows repoId) KeepsOn
      (fun _ _ _ h hok hstep => (step_followsOn h hok hstep).follows)
      (fun _ _ _ h hok hstep =>
        ⟨(step_followsOn h hok hstep).spool, (step_followsOn h hok hstep).repository⟩)
      hw (hrest w hfront) hback

/-- The turn as it is recorded at its start. -/
def startedTurn : InteractionTurn where
  turnId := "turn-1"
  sessionId := "session-1"
  repoId := "repo-1"
  prompt := "Fix the parser"
  filesModified := ["src/parser.rs"]

/-- A session with an agent, one of its turns and a flush that is interrupted and retried, and
then a commit. -/
def completeOps : List InteractionOp :=
  [.recordSession
      { sessionId := "session-1", repoId := "repo-1", agentType := "codex", model := "m" },
    .recordTurn { startedTurn with agentType := "codex" },
    .flush [.done, .unacknowledged], .flush [.done],
    .postCommitUpdate { startedTurn with agentType := "codex" } [] "checkpoint-1" "later"]

theorem repositoryFollowsSpool_completeOps : RepositoryFollowsSpool "repo-1" completeOps :=
  repositoryFollowsSpool_of_complete (by decide)

/-- What the hook reports that ends the turn. -/
def endedTurn : InteractionTurn where
  turnId := "turn-1"
  sessionId := "session-1"
  repoId := "repo-1"
  summary := "Parser fixed"

/-- The turn is recorded and flushed and gets its checkpoint; then its end is recorded. -/
def partialOps : List InteractionOp :=
  [.recordTurn startedTurn, .flush [.done],
    .postCommitUpdate startedTurn [] "checkpoint-1" "later", .recordTurn endedTurn,
    .flush [.done]]

/-- **A partial upsert erases the checkpoint.**  The spool keeps the prompt, the files and the
checkpoint of the turn; the repository has lost them. -/
theorem partialOps_not_followed : ¬ RepositoryFollowsSpool "repo-1" partialOps := by
  intro h
  have hagree := (h partialOps [] _ _ (List.append_nil _).symm rfl rfl).1 (by decide)
  have hturn := hagree.turns "turn-1"
  exact absurd hturn (by decide)

end Interactions
end Bitloops
