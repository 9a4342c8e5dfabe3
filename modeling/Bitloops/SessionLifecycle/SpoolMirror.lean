import Bitloops.SessionLifecycle.Coherence
import Mathlib

/-!
# The spooled rows of a session

`Mirrors` says of a step that the spooled session row has an end time just when the session ended
and was not taken up again, that a turn row has one just when the end of the turn was handled, and
that a compaction or a session end leaves the record of a turn that ended as it is.  The spool
never takes an end time back, and the end of a session may end its last turn once more:
`Mirrorable` excludes the two.
-/

namespace Bitloops
namespace SessionLifecycle

open Interactions

/-- The transcript window and the files of a turn. -/
def recordOf (row : TurnRow) : Option ℤ × Option ℤ × String × List String :=
  (row.transcriptOffsetStart, row.transcriptOffsetEnd, row.transcriptFragment, row.filesModified)

def sessionRowEnded (w : Workspace) (t : InteractionTables) : Bool :=
  ((t.session? w.sessionId).bind (·.endedAt)).isSome

def turnRowEnded (t : InteractionTables) (turnId : String) : Bool :=
  ((t.turn? turnId).bind (·.endedAt)).isSome

/-- What a step keeps of the spooled rows. -/
structure Mirrors (w : Workspace) (s : World) (d : Dispatch) (s' : World) : Prop where
  sessionRow : sessionRowEnded w s'.host.tables = s'.sessionEnded
  turnRows : ∀ row ∈ s'.host.tables.turns.rows,
    row.endedAt.isSome ↔ row.turnId ∈ s'.closedTurns
  records : d.event.eventType = .compaction ∨ d.event.eventType = .sessionEnd →
    ∀ turnId ∈ s.closedTurns,
      (s'.host.tables.turn? turnId).map recordOf = (s.host.tables.turn? turnId).map recordOf

instance (w : Workspace) (s : World) (d : Dispatch) (s' : World) : Decidable (Mirrors w s d s') :=
  decidable_of_iff
    (sessionRowEnded w s'.host.tables = s'.sessionEnded ∧
      (∀ row ∈ s'.host.tables.turns.rows, row.endedAt.isSome ↔ row.turnId ∈ s'.closedTurns) ∧
      (d.event.eventType = .compaction ∨ d.event.eventType = .sessionEnd →
        ∀ turnId ∈ s.closedTurns,
          (s'.host.tables.turn? turnId).map recordOf = (s.host.tables.turn? turnId).map recordOf))
    ⟨fun ⟨h₁, h₂, h₃⟩ => ⟨h₁, h₂, h₃⟩, fun ⟨h₁, h₂, h₃⟩ => ⟨h₁, h₂, h₃⟩⟩

/-- The session is not taken up after its end, and its end does not end a turn once more. -/
structure Mirrorable (s : World) (d : Dispatch) : Prop where
  notResumed : s.sessionEnded = true →
    d.event.eventType ≠ .sessionStart ∧ d.event.eventType ≠ .turnStart
  notEndedAgain : d.event.eventType = .sessionEnd →
    ∀ turnId ∈ closedTurn d.env d.event s.host, turnId ∉ s.closedTurns

instance (s : World) (d : Dispatch) : Decidable (Mirrorable s d) :=
  decidable_of_iff
    ((s.sessionEnded = true →
        d.event.eventType ≠ .sessionStart ∧ d.event.eventType ≠ .turnStart) ∧
      (d.event.eventType = .sessionEnd →
        ∀ turnId ∈ closedTurn d.env d.event s.host, turnId ∉ s.closedTurns))
    ⟨fun ⟨h₁, h₂⟩ => ⟨h₁, h₂⟩, fun ⟨h₁, h₂⟩ => ⟨h₁, h₂⟩⟩

/-! ## What is recorded -/

section Rows

variable {w : Workspace} {t : InteractionTables}

theorem recordSessionRow_eq {row : InteractionSession} (h : row.repoId = w.repoId) :
    recordSessionRow w row t = { t with sessions := t.sessions.upsertMerged mergeSession row } := by
  rw [recordSessionRow, upsertLocalSession_eq_some.mpr ⟨h.symm, rfl⟩]
  rfl

theorem recordTurnRow_eq {row : InteractionTurn} (h : row.repoId = w.repoId) :
    recordTurnRow w row t =
      { t with turns := t.turns.upsertMerged mergeTurn (canonicalTurn w.repoId row t) } := by
  rw [recordTurnRow, upsertLocalTurn_eq_some.mpr ⟨h.symm, rfl⟩]
  rfl

/-- Once the row of a session has an end time it keeps one. -/
theorem sessionRowEnded_recordSessionRow {row : InteractionSession}
    (hrepo : row.repoId = w.repoId) (hid : row.sessionId = w.sessionId) :
    sessionRowEnded w (recordSessionRow w row t) =
      (row.endedAt.isSome || sessionRowEnded w t) := by
  rw [recordSessionRow_eq hrepo]
  unfold sessionRowEnded InteractionTables.session?
  rw [UniqueTable.findRow_upsertMerged (fun _ => rfl), if_pos hid.symm]
  cases hold : findRow (·.sessionId) w.sessionId t.sessions.rows with
  | none =>
    show row.endedAt.isSome = (row.endedAt.isSome || false)
    rw [Bool.or_false]
  | some old =>
    show (mergeSession old row).endedAt.isSome = (row.endedAt.isSome || old.endedAt.isSome)
    unfold mergeSession coalesce
    cases row.endedAt <;> rfl

theorem turns_recordSessionRow {row : InteractionSession} :
    (recordSessionRow w row t).turns = t.turns := by
  unfold recordSessionRow
  cases h : upsertLocalSession w.repoId row t with
  | none => rfl
  | some t' =>
    obtain ⟨-, rfl⟩ := upsertLocalSession_eq_some.mp h
    rfl

theorem turn?_recordSessionRow {row : InteractionSession} (turnId : String) :
    (recordSessionRow w row t).turn? turnId = t.turn? turnId := by
  unfold InteractionTables.turn?
  rw [turns_recordSessionRow]

theorem turnRowEnded_recordSessionRow {row : InteractionSession} (turnId : String) :
    turnRowEnded (recordSessionRow w row t) turnId = turnRowEnded t turnId := by
  rw [turnRowEnded, turn?_recordSessionRow, turnRowEnded]

theorem sessionRowEnded_recordTurnRow {row : InteractionTurn} :
    sessionRowEnded w (recordTurnRow w row t) = sessionRowEnded w t := by
  unfold recordTurnRow
  cases h : upsertLocalTurn w.repoId row t with
  | none => rfl
  | some t' =>
    obtain ⟨-, rfl⟩ := upsertLocalTurn_eq_some.mp h
    rfl

theorem turn?_recordTurnRow {row : InteractionTurn} (hrepo : row.repoId = w.repoId)
    (turnId : String) :
    (recordTurnRow w row t).turn? turnId =
      if turnId = row.turnId then
        some (((t.turn? turnId).map fun old =>
          mergeTurn old (canonicalTurn w.repoId row t)).getD (canonicalTurn w.repoId row t))
      else t.turn? turnId := by
  rw [recordTurnRow_eq hrepo]
  exact UniqueTable.findRow_upsertMerged fun _ => rfl

/-- Once the row of a turn has an end time it keeps one. -/
theorem turnRowEnded_recordTurnRow {row : InteractionTurn} (hrepo : row.repoId = w.repoId)
    (turnId : String) :
    turnRowEnded (recordTurnRow w row t) turnId =
      (decide (turnId = row.turnId) && row.endedAt.isSome || turnRowEnded t turnId) := by
  unfold turnRowEnded
  rw [turn?_recordTurnRow hrepo]
  by_cases hid : turnId = row.turnId
  · rw [if_pos hid, decide_eq_true hid, Bool.true_and]
    cases hold : t.turn? turnId with
    | none =>
      show row.endedAt.isSome = (row.endedAt.isSome || false)
      rw [Bool.or_false]
    | some old =>
      show (coalesce row.endedAt old.endedAt).isSome =
        (row.endedAt.isSome || old.endedAt.isSome)
      unfold coalesce
      cases row.endedAt <;> rfl
  · rw [if_neg hid, decide_eq_false hid, Bool.false_and, Bool.false_or]

end Rows

/-! ## The end time of the stored state -/

section EndTimes

variable {w : Workspace} {readers : TranscriptReaders} {env : Environment}
  {event : LifecycleEvent} {s host : Host} {path : String} {files : List String}

/-- A stored state has an end time. -/
def SessionHasEnd (session : Option SessionState) : Prop :=
  ∃ state ∈ session, state.endedAt.isSome

theorem SessionHasEnd.of_getD {session : Option SessionState} {keep : SessionState → Bool}
    {fresh : SessionState} (hfresh : fresh.endedAt = none)
    (h : ((session.filter keep).getD fresh).endedAt.isSome) : SessionHasEnd session := by
  cases hsession : session.filter keep with
  | none =>
    rw [hsession, Option.getD_none, hfresh] at h
    exact nomatch h
  | some state =>
    rw [hsession] at h
    exact ⟨state, (Option.filter_eq_some_iff.mp hsession).1, h⟩

/-- The strategies set no end time. -/
theorem SavesStep.sessionHasEnd {save : Option SessionState → Option SessionState}
    {session : Option SessionState} (hsave : SavesStep w env path save)
    (h : SessionHasEnd (save session)) : SessionHasEnd session := by
  obtain ⟨saved, hsaved, hended⟩ := h
  cases hstrategy : env.strategy with
  | manualCommit =>
    obtain ⟨saved', hsaved', hsame⟩ := hsave.manual hstrategy session
    obtain rfl := Option.some.inj (hsaved'.symm.trans hsaved)
    rw [hsame.endedAt] at hended
    exact .of_getD rfl hended
  | autoCommit =>
    rw [hsave.auto hstrategy] at hsaved
    exact ⟨saved, hsaved, hended⟩

theorem sessionHasEnd_of_initializedSession
    (h : (initializedSession w env event s).endedAt.isSome) : SessionHasEnd s.session := by
  unfold initializedSession initializeSession at h
  cases hstrategy : env.strategy with
  | manualCommit =>
    rw [hstrategy] at h
    exact .of_getD rfl h
  | autoCommit =>
    rw [hstrategy] at h
    cases hsession : s.session with
    | none =>
      rw [hsession] at h
      exact nomatch h
    | some state =>
      rw [hsession] at h
      exact ⟨state, rfl, h⟩

theorem sessionHasEnd_of_turnEndSession (h : SessionHasEnd (turnEndSession w env event s path)) :
    SessionHasEnd s.session := by
  obtain ⟨after, hafter, hended⟩ := h
  obtain ⟨stepped, hstepped, rfl⟩ := Option.map_eq_some_iff.mp hafter
  have hstep : SessionHasEnd (steppedSession w env s path) :=
    ⟨stepped, hstepped, SessionState.isSome_endedAt_of_transition hended⟩
  unfold steppedSession at hstep
  dsimp only at hstep
  split_ifs at hstep
  · exact hstep
  · exact (savesStep_saveStep w env path _).sessionHasEnd hstep

theorem sessionHasEnd_of_touchSession (h : SessionHasEnd (touchSession env s).session) :
    SessionHasEnd s.session := by
  obtain ⟨after, hafter, hended⟩ := h
  obtain ⟨state, hstate, rfl⟩ := Option.map_eq_some_iff.mp hafter
  exact ⟨state, hstate, hended⟩

end EndTimes

/-! ## What the events do to the rows -/

section Events

variable {w : Workspace} {readers : TranscriptReaders} {env : Environment}
  {event : LifecycleEvent} {s host : Host} {transcriptRef data : String}

theorem endedAt_turnEndSessionRow {lastPrompt : String}
    (h : (turnEndSessionRow w env event s transcriptRef lastPrompt).endedAt.isSome) :
    SessionHasEnd s.session := by
  unfold turnEndSessionRow at h
  cases hsession : s.session with
  | none =>
    rw [hsession] at h
    exact nomatch h
  | some state =>
    rw [hsession] at h
    exact ⟨state, rfl, h⟩

theorem repoId_turnEndSessionRow {lastPrompt : String} :
    (turnEndSessionRow w env event s transcriptRef lastPrompt).repoId = w.repoId := by
  unfold turnEndSessionRow
  cases s.session <;> rfl

theorem sessionId_turnEndSessionRow {lastPrompt : String} :
    (turnEndSessionRow w env event s transcriptRef lastPrompt).sessionId = w.sessionId := by
  unfold turnEndSessionRow
  cases s.session <;> rfl

theorem sessionRowEnded_recordTurnEnd {ended : Bool}
    (hrow : sessionRowEnded w s.tables = ended)
    (hend : SessionHasEnd s.session → ended = true) :
    sessionRowEnded w (recordTurnEnd w readers env event s transcriptRef data).tables =
      ended := by
  show sessionRowEnded w (recordTurnRow w _ (recordSessionRow w _ s.tables)) = ended
  rw [sessionRowEnded_recordTurnRow, sessionRowEnded_recordSessionRow repoId_turnEndSessionRow
    sessionId_turnEndSessionRow, hrow, Bool.or_eq_right_iff_imp]
  exact fun h => hend (endedAt_turnEndSessionRow h)

theorem turnRowEnded_recordTurnEnd (turnId : String) :
    turnRowEnded (recordTurnEnd w readers env event s transcriptRef data).tables turnId =
      (decide (turnId = endedTurnId env s) || turnRowEnded s.tables turnId) := by
  have hrepo : (turnEndRow w readers env s transcriptRef data).repoId = w.repoId := rfl
  show turnRowEnded (recordTurnRow w _ (recordSessionRow w _ s.tables)) turnId = _
  rw [turnRowEnded_recordTurnRow hrepo, turnRowEnded_recordSessionRow]
  show (decide (turnId = endedTurnId env s) && true || turnRowEnded s.tables turnId) = _
  rw [Bool.and_true]

/-- The end of a turn leaves the rows of the other turns alone. -/
theorem turn?_recordTurnEnd {turnId : String} (h : turnId ≠ endedTurnId env s) :
    (recordTurnEnd w readers env event s transcriptRef data).tables.turn? turnId =
      s.tables.turn? turnId := by
  have hrepo : (turnEndRow w readers env s transcriptRef data).repoId = w.repoId := rfl
  show (recordTurnRow w _ (recordSessionRow w _ s.tables)).turn? turnId = _
  rw [turn?_recordTurnRow hrepo, turn?_recordSessionRow]
  exact if_neg h

/-- What an event that may have ended a turn does to the rows. -/
theorem rows_of_endedTurn (h : EndedTurn w readers env event s host) {ended : Bool}
    (hrow : sessionRowEnded w s.tables = ended)
    (hend : SessionHasEnd s.session → ended = true) :
    sessionRowEnded w host.tables = ended ∧
      (SessionHasEnd host.session → ended = true) ∧
      ∀ turnId,
        turnRowEnded host.tables turnId =
            (decide (turnId ∈ closedTurn env event s) || turnRowEnded s.tables turnId) ∧
          (turnId ∉ closedTurn env event s → host.tables.turn? turnId = s.tables.turn? turnId) := by
  rcases h with ⟨hends, rfl⟩ | ⟨transcriptRef, data, hends, htranscript, rfl⟩
  · have hclosed : closedTurn env event host = none := by simp [closedTurn, hends]
    exact ⟨hrow, hend, fun turnId => ⟨by simp [hclosed], fun _ => rfl⟩⟩
  · have hclosed : closedTurn env event s = some (endedTurnId env s) := by
      simp [closedTurn, hends, htranscript]
    refine ⟨sessionRowEnded_recordTurnEnd hrow hend, ?_, fun turnId => ⟨?_, ?_⟩⟩
    · exact fun h => hend (sessionHasEnd_of_turnEndSession h)
    · rw [turnRowEnded_recordTurnEnd, hclosed]
      simp only [Option.mem_some_iff, eq_comm]
    · intro hne
      refine turn?_recordTurnEnd fun heq => hne ?_
      rw [hclosed, heq]
      rfl

theorem rows_stopSession (w : Workspace) (env : Environment) (event : LifecycleEvent) (s : Host)
    (turnId : String) :
    sessionRowEnded w (stopSession w env event s).tables = true ∧
      (stopSession w env event s).tables.turn? turnId = s.tables.turn? turnId := by
  refine ⟨?_, turn?_recordSessionRow turnId⟩
  unfold stopSession
  dsimp only
  cases s.session with
  | none => rw [sessionRowEnded_recordSessionRow (by rfl) (by rfl)]; rfl
  | some state => rw [sessionRowEnded_recordSessionRow (by rfl) (by rfl)]; rfl

end Events

/-! ## Runs -/

section Run

variable {w : Workspace} {readers : TranscriptReaders} {d : Dispatch} {s s' : World}
  {host : Host}

/-- The rows describe what happened, and a session whose stored state has an end time ended. -/
structure Mirrored (w : Workspace) (s : World) : Prop where
  sessionRow : sessionRowEnded w s.host.tables = s.sessionEnded
  turnRows : ∀ turnId, turnRowEnded s.host.tables turnId = decide (turnId ∈ s.closedTurns)
  sessionEnd : SessionHasEnd s.host.session → s.sessionEnded = true

theorem mirrored_empty : Mirrored w {} where
  sessionRow := rfl
  turnRows _ := rfl
  sessionEnd := by
    rintro ⟨state, hstate, -⟩
    exact nomatch hstate

/-- What an event has to do to the rows. -/
structure RowsFollow (w : Workspace) (d : Dispatch) (s : World) (host : Host) : Prop where
  sessionRow : sessionRowEnded w host.tables = endedAfter d.event s.sessionEnded
  sessionEnd : SessionHasEnd host.session → endedAfter d.event s.sessionEnded = true
  turnRows : ∀ turnId, turnRowEnded host.tables turnId =
    (decide (turnId ∈ closedTurn d.env d.event s.host) || turnRowEnded s.host.tables turnId)
  otherRows : d.event.eventType = .compaction ∨ d.event.eventType = .sessionEnd →
    ∀ turnId ∉ closedTurn d.env d.event s.host,
      host.tables.turn? turnId = s.host.tables.turn? turnId

/-- An event that ends nothing and leaves the tables alone. -/
theorem RowsFollow.of_tables (h : Mirrored w s) (hclosed : closedTurn d.env d.event s.host = none)
    (hended : endedAfter d.event s.sessionEnded = s.sessionEnded)
    (htables : host.tables = s.host.tables)
    (hend : SessionHasEnd host.session → SessionHasEnd s.host.session) :
    RowsFollow w d s host where
  sessionRow := by rw [htables, hended, h.sessionRow]
  sessionEnd hhost := by rw [hended]; exact h.sessionEnd (hend hhost)
  turnRows _ := by simp [hclosed, htables]
  otherRows _ _ _ := by rw [htables]

theorem closedTurn_of_not_endsTurn {env : Environment} {event : LifecycleEvent} {s : Host}
    (h : event.eventType ≠ .turnEnd) (h' : event.eventType ≠ .sessionEnd) :
    closedTurn env event s = none := by
  have hends : endsTurn event s = false := by
    unfold endsTurn
    cases htype : event.eventType <;> simp_all
  rw [closedTurn, hends, if_neg Bool.false_ne_true]

theorem rowsFollow_sessionStart (h : Mirrored w s) (htype : d.event.eventType = .sessionStart)
    (hended : s.sessionEnded = false) :
    RowsFollow w d s (handleSessionStart w d.env d.event s.host) := by
  have hclosed : closedTurn d.env d.event s.host = none :=
    closedTurn_of_not_endsTurn (by simp [htype]) (by simp [htype])
  have hafter : ∀ ended, endedAfter d.event ended = false := fun _ => by rw [endedAfter, htype]
  refine ⟨?_, ?_, fun turnId => ?_, fun _ turnId _ => turn?_recordSessionRow turnId⟩
  · show sessionRowEnded w (recordSessionRow w _ s.host.tables) = _
    rw [sessionRowEnded_recordSessionRow (by rfl) (by rfl), h.sessionRow, hended, hafter]
    rfl
  · rintro ⟨after, hstate, hend⟩
    obtain rfl := Option.some.inj hstate
    have hstored : (s.host.session.getD { sessionId := w.sessionId }).endedAt.isSome :=
      SessionState.isSome_endedAt_of_transition hend
    cases hsession : s.host.session with
    | none =>
      rw [hsession] at hstored
      exact nomatch hstored
    | some state =>
      rw [hsession] at hstored
      rw [h.sessionEnd ⟨state, hsession, hstored⟩] at hended
      exact nomatch hended
  · rw [hclosed]
    show turnRowEnded (recordSessionRow w _ s.host.tables) turnId = _
    rw [turnRowEnded_recordSessionRow]
    simp

theorem rowsFollow_turnStart (h : Mirrored w s) (htype : d.event.eventType = .turnStart)
    (hended : s.sessionEnded = false) :
    RowsFollow w d s (handleTurnStart w d.env d.event s.host) := by
  have hclosed : closedTurn d.env d.event s.host = none :=
    closedTurn_of_not_endsTurn (by simp [htype]) (by simp [htype])
  have hafter : ∀ ended, endedAfter d.event ended = false := fun _ => by rw [endedAfter, htype]
  have hnone : ¬ SessionHasEnd s.host.session := fun hhas => by
    rw [h.sessionEnd hhas] at hended
    exact nomatch hended
  have hother : ¬ (d.event.eventType = .compaction ∨ d.event.eventType = .sessionEnd) := by
    simp [htype]
  unfold handleTurnStart
  split_ifs
  · refine ⟨?_, fun hhas => absurd hhas hnone, ?_, fun h => absurd h hother⟩
    · rw [h.sessionRow, hended, hafter]
    · simp [hclosed]
  · have hstate : (turnStartSession w d.env d.event s.host).endedAt.isSome = false := by
      refine Bool.eq_false_iff.mpr fun hend => hnone ?_
      exact sessionHasEnd_of_initializedSession (SessionState.isSome_endedAt_of_transition hend)
    refine ⟨?_, ?_, fun turnId => ?_, fun h => absurd h hother⟩
    · show sessionRowEnded w (recordTurnRow w _ (recordSessionRow w _ s.host.tables)) = _
      rw [sessionRowEnded_recordTurnRow, sessionRowEnded_recordSessionRow (by rfl) (by rfl),
        h.sessionRow, hended, hafter, Bool.or_false]
      exact hstate
    · rintro ⟨after, hafter', hend⟩
      obtain rfl := Option.some.inj hafter'
      exact absurd hend (by simp [hstate])
    · show turnRowEnded (recordTurnRow w _ (recordSessionRow w _ s.host.tables)) turnId = _
      rw [turnRowEnded_recordTurnRow (by rfl), turnRowEnded_recordSessionRow, hclosed]
      show (decide (turnId = _) && false || turnRowEnded s.host.tables turnId) = _
      simp

theorem rowsFollow_sessionEnd (h : Mirrored w s) (htype : d.event.eventType = .sessionEnd)
    (hhost : handleSessionEnd w readers d.env d.event s.host = some host) :
    RowsFollow w d s host := by
  obtain ⟨finalized, hfinalized, rfl⟩ := Option.map_eq_some_iff.mp hhost
  obtain ⟨-, -, hrows⟩ := rows_of_endedTurn (endedTurn_finalizeOpenTurn htype hfinalized)
    h.sessionRow h.sessionEnd
  have hafter : endedAfter d.event s.sessionEnded = true := by rw [endedAfter, htype]
  have hstop := rows_stopSession w d.env d.event finalized
  refine ⟨by rw [(hstop "").1, hafter], fun _ => hafter, fun turnId => ?_,
    fun _ turnId hturn => ?_⟩
  · rw [turnRowEnded, (hstop turnId).2]
    exact (hrows turnId).1
  · rw [(hstop turnId).2]
    exact (hrows turnId).2 hturn

theorem rowsFollow_turnEnd (h : Mirrored w s) (htype : d.event.eventType = .turnEnd)
    (hhost : handleTurnEnd w readers d.env d.event s.host = some host) :
    RowsFollow w d s host := by
  have hafter : endedAfter d.event s.sessionEnded = s.sessionEnded := by rw [endedAfter, htype]
  obtain ⟨hrow, hend, hrows⟩ := rows_of_endedTurn (endedTurn_turnEnd htype hhost) h.sessionRow
    h.sessionEnd
  refine ⟨by rw [hrow, hafter], by rw [hafter]; exact hend, fun turnId => (hrows turnId).1, ?_⟩
  simp [htype]

/-- **One event.**  The rows follow every event that does not take up a session that ended. -/
theorem rowsFollow_of_dispatch (h : Mirrored w s)
    (hhost : dispatchLifecycleEvent w readers d.env d.event s.host = some host)
    (hresumed : s.sessionEnded = true →
      d.event.eventType ≠ .sessionStart ∧ d.event.eventType ≠ .turnStart) :
    RowsFollow w d s host := by
  have hquiet : d.event.eventType ≠ .turnEnd → d.event.eventType ≠ .sessionEnd →
      endedAfter d.event s.sessionEnded = s.sessionEnded → host.tables = s.host.tables →
      (SessionHasEnd host.session → SessionHasEnd s.host.session) → RowsFollow w d s host :=
    fun hturn hsession hended htables hend =>
      .of_tables h (closedTurn_of_not_endsTurn hturn hsession) hended htables hend
  have htouched : ∀ path files,
      SessionHasEnd (touchSession d.env
        { s.host with session := saveTaskStep w d.env path files s.host.session }).session →
      SessionHasEnd s.host.session := fun path files hend =>
    (savesStep_saveTaskStep w d.env path files).sessionHasEnd
      (sessionHasEnd_of_touchSession hend)
  unfold dispatchLifecycleEvent at hhost
  cases htype : d.event.eventType with
  | sessionStart =>
    rw [htype] at hhost
    obtain rfl := Option.some.inj hhost
    have hnotEnded := Bool.eq_false_iff.mpr fun hend => (hresumed hend).1 htype
    exact rowsFollow_sessionStart h htype hnotEnded
  | turnStart =>
    rw [htype] at hhost
    obtain rfl := Option.some.inj hhost
    have hnotEnded := Bool.eq_false_iff.mpr fun hend => (hresumed hend).2 htype
    exact rowsFollow_turnStart h htype hnotEnded
  | turnEnd =>
    rw [htype] at hhost
    exact rowsFollow_turnEnd h htype hhost
  | sessionEnd =>
    rw [htype] at hhost
    exact rowsFollow_sessionEnd h htype hhost
  | compaction =>
    rw [htype] at hhost
    obtain rfl := Option.some.inj hhost
    refine hquiet (by simp [htype]) (by simp [htype]) (by rw [endedAfter, htype]) rfl ?_
    rintro ⟨after, hafter, hend⟩
    obtain ⟨state, hstate, rfl⟩ := Option.map_eq_some_iff.mp hafter
    exact ⟨state, hstate, SessionState.isSome_endedAt_of_transition hend⟩
  | toolInvocationObserved | toolResultObserved =>
    rw [htype] at hhost
    obtain rfl := Option.some.inj hhost
    refine hquiet (by simp [htype]) (by simp [htype]) (by rw [endedAfter, htype]) ?_ ?_
    · unfold handleToolEvent
      split_ifs <;> rfl
    · unfold handleToolEvent
      split_ifs
      · exact fun hend => hend
      · exact sessionHasEnd_of_touchSession
  | subagentStart =>
    rw [htype] at hhost
    obtain rfl := Option.some.inj hhost
    exact hquiet (by simp [htype]) (by simp [htype]) (by rw [endedAfter, htype]) rfl
      sessionHasEnd_of_touchSession
  | subagentEnd =>
    rw [htype] at hhost
    obtain rfl := Option.some.inj hhost
    refine hquiet (by simp [htype]) (by simp [htype]) (by rw [endedAfter, htype]) rfl ?_
    unfold handleSubagentEnd
    split_ifs
    · exact sessionHasEnd_of_touchSession
    · exact htouched _ _
  | todoCheckpoint =>
    rw [htype] at hhost
    obtain rfl := Option.some.inj hhost
    refine hquiet (by simp [htype]) (by simp [htype]) (by rw [endedAfter, htype]) ?_ ?_
    · unfold handleTodoCheckpoint
      split_ifs <;> rfl
    · unfold handleTodoCheckpoint
      split_ifs
      · exact fun hend => hend
      · exact htouched _ _

theorem mirrored_handled (h : Mirrored w s) (hrows : RowsFollow w d s host) :
    Mirrored w (s.handled d host) where
  sessionRow := hrows.sessionRow
  sessionEnd := hrows.sessionEnd
  turnRows turnId := by
    show turnRowEnded host.tables turnId =
      decide (turnId ∈ s.closedTurns ++ (closedTurn d.env d.event s.host).toList)
    rw [hrows.turnRows, h.turnRows]
    simp [Option.mem_toList, Bool.or_comm]

theorem mirrored_step (h : Mirrored w s) (hok : Mirrorable s d)
    (hstep : step w readers s d = some s') : Mirrored w s' := by
  obtain ⟨-, ⟨-, rfl⟩ | ⟨host, hhost, rfl⟩⟩ := step_cases hstep
  · exact h
  · exact mirrored_handled h (rowsFollow_of_dispatch h hhost hok.notResumed)

theorem turnRow_ended_iff (h : Mirrored w s) {row : TurnRow}
    (hrow : row ∈ s.host.tables.turns.rows) :
    row.endedAt.isSome ↔ row.turnId ∈ s.closedTurns := by
  have hfound : s.host.tables.turn? row.turnId = some row :=
    UniqueTable.findRow_eq_some.mpr ⟨hrow, rfl⟩
  have hended := h.turnRows row.turnId
  rw [turnRowEnded, hfound] at hended
  show row.endedAt.isSome = true ↔ _
  rw [show row.endedAt.isSome = decide (row.turnId ∈ s.closedTurns) from hended,
    decide_eq_true_iff]

theorem mirrors_step (h : Mirrored w s) (hok : Mirrorable s d)
    (hstep : step w readers s d = some s') : Mirrors w s d s' := by
  have hafter := mirrored_step h hok hstep
  refine ⟨hafter.sessionRow, fun row hrow => turnRow_ended_iff hafter hrow, ?_⟩
  intro htype turnId hclosed
  obtain ⟨-, ⟨-, rfl⟩ | ⟨host, hhost, rfl⟩⟩ := step_cases hstep
  · rfl
  · have hrows := rowsFollow_of_dispatch h hhost hok.notResumed
    have hother : turnId ∉ closedTurn d.env d.event s.host := by
      intro hmem
      rcases htype with htype | htype
      · rw [closedTurn_of_not_endsTurn (by simp [htype]) (by simp [htype])] at hmem
        exact nomatch hmem
      · exact hok.notEndedAgain htype turnId hmem hclosed
    rw [show (s.handled d host).host = host from rfl, hrows.otherRows htype turnId hother]

/-- **The spooled rows mirror the session.**  In every run of lifecycle events of one session in
which no ended session is taken up and no session end ends a turn once more, every step keeps the
spooled rows in line with what happened. -/
theorem mirrors_of_meets_mirrorable {events : List Dispatch}
    (h : Run.Meets (step w readers) Mirrorable {} events) :
    Run.EachStep (step w readers) (Mirrors w) {} events :=
  Run.eachStep_of_meets (Mirrored w) (fun _ _ _ hs hok hstep => mirrored_step hs hok hstep)
    (fun _ _ _ hs hok hstep => mirrors_step hs hok hstep) mirrored_empty h

end Run

/-- A turn starts after the first line of the transcript and ends after the second one. -/
def secondLine : List Dispatch :=
  [{ demoDispatch .turnStart "t1" "a1" "" with
      env := { (demoDispatch .turnStart "t1" "a1" "").env with boundaryOffset := some 1 } },
    demoDispatch .turnEnd "t2" "a2" "one\ntwo\n"]

/-- The session ends after a compaction. -/
def endedSession : List Dispatch :=
  secondLine ++ [demoDispatch .compaction "t3" "a3" "", demoDispatch .sessionEnd "t4" "a4" ""]

theorem endedSession_mirrors :
    (Run.exec (step demoWorkspace lineReaders) {} endedSession).isSome = true ∧
      Run.EachStep (step demoWorkspace lineReaders) (Mirrors demoWorkspace) {} endedSession :=
  ⟨by decide, mirrors_of_meets_mirrorable (by decide)⟩

/-- A turn starts after the end of the session. -/
def resumedSession : List Dispatch :=
  endedSession ++ [demoDispatch .turnStart "t5" "a5" ""]

/-- The end of the session finalises its last turn, which ended before. -/
def finalizedSession : List Dispatch :=
  secondLine ++
    [{ demoDispatch .sessionEnd "t3" "a3" "one\ntwo\n" with
        event := { eventType := .sessionEnd, finalizeOpenTurn := true } }]

theorem resumedSession_finalizedSession_not_mirrors :
    ((Run.exec (step demoWorkspace lineReaders) {} resumedSession).isSome = true ∧
        ¬ Run.EachStep (step demoWorkspace lineReaders) (Mirrors demoWorkspace) {}
          resumedSession) ∧
      (Run.exec (step demoWorkspace lineReaders) {} finalizedSession).isSome = true ∧
        ¬ Run.EachStep (step demoWorkspace lineReaders) (Mirrors demoWorkspace) {}
          finalizedSession :=
  ⟨⟨by decide, by decide⟩, by decide, by decide⟩

end SessionLifecycle
end Bitloops
