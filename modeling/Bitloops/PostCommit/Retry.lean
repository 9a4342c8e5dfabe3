import Bitloops.Checkpoints.StorageConsistency
import Bitloops.PostCommit.Derivation

/-!
# Attempts that fail and are made again

Each attempt draws an identifier of its own, and the commit is mapped only at the end of the
attempt.  An attempt that fails before it has stored a session row leaves nothing behind, and the
next one starts over; an attempt that fails later leaves a checkpoint that is never mapped, and
turns that the next attempt condenses again.
-/

namespace Bitloops
namespace PostCommit

open Checkpoints Interactions

/-! ## What the attempts should leave -/

/-- The checkpoint has a row. -/
def Written (s : Storage) (id : String) : Prop :=
  (∃ r ∈ s.sessions.rows, r.checkpointId = id) ∨ ∃ r ∈ s.checkpoints.rows, r.checkpointId = id

/-- The queued change brings the checkpoint to a turn. -/
def Carries (id : String) : InteractionMutation → Prop
  | .upsertTurn turn => turn.checkpointId.getD "" = id
  | .assignCheckpoint _ checkpointId _ => checkpointId = id
  | _ => False

/-- The checkpoint is stored in a turn, or on its way there. -/
def InTurn (w : World) (id : String) : Prop :=
  id ≠ "" ∧ ((∃ row ∈ w.repository.turns.rows, row.checkpointId = id) ∨
    (∃ row ∈ w.spool.tables.turns.rows, row.checkpointId = id) ∨
      ∃ m ∈ w.spool.queue, Carries id m)

/-- The commit is mapped to the checkpoint. -/
def Mapped (repoId head : String) (s : State) (id : String) : Prop :=
  ∃ r ∈ s.mappings.rows, r.commitSha = head ∧ r.repoId = repoId ∧ r.checkpointId = id

/-- Every checkpoint that was written or stored in a turn is mapped to the commit, and no turn
went into two checkpoints. -/
structure Settled (repoId head : String) (s₀ s : State) : Prop where
  written : ∀ id, Written s.storage id → Written s₀.storage id ∨ Mapped repoId head s id
  inTurn : ∀ id, InTurn s.world id → InTurn s₀.world id ∨ Mapped repoId head s id
  once : ∀ e ∈ s.condensed, ∀ e' ∈ s.condensed, ∀ turnId ∈ e.turnIds, turnId ∈ e'.turnIds →
    e.checkpointId = e'.checkpointId

/-! ## When an attempt leaves nothing half done -/

/-- The session is missing something, or its write stops before its row. -/
def BlockedBeforeRow (services : CheckpointServices) (a : Attempt)
    (sources : PostCommitInteractionSources) (sessionId : String) (turns : List InteractionTurn)
    (w : World) : Prop :=
  (a.sessions sessionId).loadFails = true ∨ ∀ session ∈ sources.loadSession sessionId w,
    readyToWrite a session turns = false ∨
      (∃ n ∈ (a.sessions session.sessionId).call.stop, n ≤ 6) ∨
      blobPath services a.checkpointId 0 .transcript = none

/-- The sources take the turn. -/
def Accepts (repoId : String) (sources : PostCommitInteractionSources) (turn : InteractionTurn) :
    Prop :=
  repoId = turn.repoId ∧ (sources = .localSpool ∨ (DuckDb.turnRow repoId turn).isSome)

/-- Nothing fails for the session. -/
def NothingFails (services : CheckpointServices) (a : Attempt)
    (sources : PostCommitInteractionSources) (head sessionId : String)
    (turns : List InteractionTurn) (w : World) : Prop :=
  (a.sessions sessionId).loadFails = false ∧
    (∃ session ∈ sources.loadSession sessionId w, readyToWrite a session turns = true ∧
      (a.sessions session.sessionId).call.stop = none ∧
      ((a.sessions session.sessionId).hasLocalState = false ∨
        (a.sessions session.sessionId).stateSaveFails = false)) ∧
    (blobPath services a.checkpointId 0 .transcript).isSome ∧
    ∀ turn ∈ turns, a.turnUpsertFails turn.turnId = false ∧ a.turnRefreshFails turn.turnId = false ∧
      Accepts services.repoId sources (progressedTurn a head sessionId turn)

/-- The session has turns that touch committed files. -/
def Contributes (a : Attempt) (session : String × List InteractionTurn) : Prop :=
  contributingTurns a.committedFiles session.2 ≠ []

/-- The first session that contributes is blocked. -/
def FirstBlocked (services : CheckpointServices) (a : Attempt)
    (sources : PostCommitInteractionSources) (w : World)
    (sessions : List (String × List InteractionTurn)) : Prop :=
  ∃ session ∈ sessions.find? fun session =>
      !(contributingTurns a.committedFiles session.2).isEmpty,
    BlockedBeforeRow services a sources session.1 (contributingTurns a.committedFiles session.2) w

/-- Nothing fails for any session that contributes, nor for the mapping. -/
def AllSucceed (services : CheckpointServices) (a : Attempt)
    (sources : PostCommitInteractionSources) (head : String) (w : World)
    (mappings : List CommitCheckpointRow) (sessions : List (String × List InteractionTurn)) :
    Prop :=
  ∀ session ∈ sessions, Contributes a session →
    NothingFails services a sources head session.1
        (contributingTurns a.committedFiles session.2) w ∧
      a.mappingInsertFails = false ∧
      ∀ r ∈ mappings, r.key = (head, a.checkpointId.val) → r.repoId = services.repoId

/-- The attempt fails before it has stored a session row, if it fails at all. -/
def Attempt.Clean (services : CheckpointServices) (head : String) (s : State) (a : Attempt) :
    Prop :=
  a.mappingReadFails = true ∨ commitHasCheckpointMapping services.repoId head s = true ∨
    ∀ sources ∈ a.sources services.repoId s.world,
      let world := (sources.flush services.repoId a s.world).1
      let sessions := turnsBySession (sources.listUncheckpointedTurns services.repoId world)
      (sources.flush services.repoId a s.world).2 = false ∨ a.listFails = true ∨
        a.isRebaseInProgress = true ∨ FirstBlocked services a sources world sessions ∨
        AllSucceed services a sources head world s.mappings.rows sessions

section Decidable

variable {services : CheckpointServices} {a : Attempt} {sources : PostCommitInteractionSources}
  {repoId head sessionId : String} {turns : List InteractionTurn} {w : World} {s : State}

instance (turn : InteractionTurn) : Decidable (Accepts repoId sources turn) :=
  inferInstanceAs (Decidable (_ ∧ _))

instance : Decidable (BlockedBeforeRow services a sources sessionId turns w) :=
  inferInstanceAs (Decidable (_ ∨ ∀ session ∈ sources.loadSession sessionId w,
    _ ∨ (∃ n ∈ (a.sessions session.sessionId).call.stop, n ≤ 6) ∨ _))

instance : Decidable (NothingFails services a sources head sessionId turns w) :=
  inferInstanceAs (Decidable (_ ∧ (∃ session ∈ sources.loadSession sessionId w, _) ∧ _))

instance (session : String × List InteractionTurn) : Decidable (Contributes a session) :=
  inferInstanceAs (Decidable (_ ≠ _))

instance (sessions : List (String × List InteractionTurn)) :
    Decidable (FirstBlocked services a sources w sessions) :=
  inferInstanceAs (Decidable (∃ session ∈ sessions.find? _, _))

instance (mappings : List CommitCheckpointRow)
    (sessions : List (String × List InteractionTurn)) :
    Decidable (AllSucceed services a sources head w mappings sessions) :=
  inferInstanceAs (Decidable (∀ session ∈ sessions, _))

instance : Decidable (a.Clean services head s) :=
  inferInstanceAs (Decidable (_ ∨ _ ∨ ∀ sources ∈ a.sources services.repoId s.world, _))

end Decidable

/-! ## Where checkpoints get into turns -/

variable {services : CheckpointServices} {a : Attempt} {sources : PostCommitInteractionSources}
  {head sessionId repoId id : String} {turn : InteractionTurn} {turns : List InteractionTurn}
  {w w' : World} {s s' : State}

theorem checkpointId_of_turnRow {row : TurnRow} (h : DuckDb.turnRow repoId turn = some row) :
    row.checkpointId = turn.checkpointId.getD "" := by
  rw [turnRow_eq_some h]
  rfl

theorem turns_of_applyMutation {m : InteractionMutation} {r r' : InteractionTables}
    (h : DuckDb.applyMutation repoId m r = some r') :
    ∀ row ∈ r'.turns.rows, (∃ old ∈ r.turns.rows, old.checkpointId = row.checkpointId) ∨
      Carries row.checkpointId m := by
  intro row hrow
  cases m with
  | upsertSession session =>
    obtain ⟨-, rfl⟩ := DuckDb.upsertSession_eq_some.mp h
    exact .inl ⟨row, hrow, rfl⟩
  | upsertTurn turn =>
    obtain ⟨-, stored, hstored, rfl⟩ := DuckDb.upsertTurn_eq_some.mp h
    rcases UniqueTable.mem_upsert.mp hrow with rfl | ⟨hold, -⟩
    · exact .inr (checkpointId_of_turnRow hstored).symm
    · exact .inl ⟨row, hold, rfl⟩
  | appendEvent event =>
    obtain ⟨-, rfl⟩ := DuckDb.appendEvent_eq_some.mp h
    exact .inl ⟨row, hrow, rfl⟩
  | assignCheckpoint turnIds checkpointId assignedAt =>
    obtain rfl := Option.some.inj h
    simp only [DuckDb.assignCheckpointToTurns] at hrow
    split_ifs at hrow
    · exact .inl ⟨row, hrow, rfl⟩
    · rw [assignTurns, UniqueTable.mem_modify] at hrow
      rcases hrow with ⟨hold, -⟩ | ⟨old, -, -, rfl⟩
      · exact .inl ⟨row, hold, rfl⟩
      · exact .inr rfl

/-- A flush brings no new checkpoint. -/
theorem inTurn_of_flush {deliveries : List WriteBehind.Delivery}
    (h : InTurn (w.flush repoId deliveries) id) : InTurn w id := by
  obtain ⟨hne, h⟩ := h
  have hrepository : ∀ row ∈ (w.flush repoId deliveries).repository.turns.rows,
      row.checkpointId ≠ "" → InTurn w row.checkpointId := by
    refine WriteBehind.drain_invariant
      (fun r : InteractionTables => ∀ row ∈ r.turns.rows, row.checkpointId ≠ "" →
        InTurn w row.checkpointId) ?_ ?_
    · intro m hm r r' hr happly row hrow hblank
      rcases turns_of_applyMutation happly row hrow with ⟨old, hold, hsame⟩ | hcarries
      · exact hsame ▸ hr old hold (hsame ▸ hblank)
      · exact ⟨hblank, .inr (.inr ⟨m, hm, hcarries⟩)⟩
    · exact fun row hrow hblank => ⟨hblank, .inl ⟨row, hrow, rfl⟩⟩
  rcases h with ⟨row, hrow, rfl⟩ | ⟨row, hrow, rfl⟩ | ⟨m, hm, hcarries⟩
  · exact hrepository row hrow hne
  · exact ⟨hne, .inr (.inl ⟨row, hrow, rfl⟩)⟩
  · exact ⟨hne, .inr (.inr ⟨m, WriteBehind.mem_drain hm, hcarries⟩)⟩

theorem inTurn_of_sourceFlush (h : InTurn (sources.flush repoId a w).1 id) : InTurn w id := by
  cases sources with
  | canonical hasSpool =>
    cases hasSpool with
    | false => exact h
    | true => exact inTurn_of_flush h
  | localSpool => exact h

/-- A merged turn has the checkpoint that it comes with, or the one that it had. -/
theorem turns_of_upsertLocalTurn {t t' : InteractionTables}
    (h : upsertLocalTurn repoId turn t = some t') :
    ∀ row ∈ t'.turns.rows, (∃ old ∈ t.turns.rows, old.checkpointId = row.checkpointId) ∨
      turn.checkpointId.getD "" = row.checkpointId := by
  intro row hrow
  obtain ⟨-, rfl⟩ := upsertLocalTurn_eq_some.mp h
  rcases UniqueTable.mem_upsert.mp hrow with rfl | ⟨hold, -⟩
  · cases hfound : findRow (·.turnId) (canonicalTurn repoId turn t).turnId t.turns.rows with
    | none => exact .inr rfl
    | some old =>
      have hold := (UniqueTable.findRow_eq_some.mp hfound).1
      show (∃ x ∈ t.turns.rows, _ = keepWhen "" _ old.checkpointId) ∨
        _ = keepWhen "" _ old.checkpointId
      unfold keepWhen
      split_ifs
      · exact .inl ⟨old, hold, rfl⟩
      · exact .inr rfl
  · exact .inl ⟨row, hold, rfl⟩

theorem inTurn_of_upsertTurn (hupsert : sources.upsertTurn repoId turn w = some w')
    (h : InTurn w' id) : InTurn w id ∨ turn.checkpointId.getD "" = id := by
  obtain ⟨hne, h⟩ := h
  cases sources with
  | canonical hasSpool =>
    obtain ⟨repository, hstored, rfl⟩ := Option.map_eq_some_iff.mp hupsert
    obtain ⟨-, stored, hrow, rfl⟩ := DuckDb.upsertTurn_eq_some.mp hstored
    rcases h with ⟨row, hmem, rfl⟩ | h
    · rcases UniqueTable.mem_upsert.mp hmem with rfl | ⟨hold, -⟩
      · exact .inr (checkpointId_of_turnRow hrow).symm
      · exact .inl ⟨hne, .inl ⟨row, hold, rfl⟩⟩
    · exact .inl ⟨hne, .inr h⟩
  | localSpool =>
    obtain ⟨spool, hrecorded, rfl⟩ := Option.map_eq_some_iff.mp hupsert
    obtain ⟨tables, hlocal, hspool⟩ := Option.bind_eq_some_iff.mp hrecorded
    obtain rfl := Option.some.inj hspool
    rcases h with h | ⟨row, hmem, rfl⟩ | ⟨m, hm, hcarries⟩
    · exact .inl ⟨hne, .inl h⟩
    · rcases turns_of_upsertLocalTurn hlocal row hmem with ⟨old, hold, hsame⟩ | hsame
      · exact .inl ⟨hne, .inr (.inl ⟨old, hold, hsame⟩)⟩
      · exact .inr hsame
    · rcases List.mem_append.mp hm with hm | hm
      · exact .inl ⟨hne, .inr (.inr ⟨m, hm, hcarries⟩)⟩
      · rw [List.mem_singleton.mp hm] at hcarries
        exact .inr hcarries

theorem inTurn_of_refreshTurn (hrefresh : sources.refreshTurn repoId turn w = some w')
    (h : InTurn w' id) : InTurn w id ∨ turn.checkpointId.getD "" = id := by
  cases sources with
  | canonical hasSpool =>
    cases hasSpool with
    | false =>
      obtain rfl := Option.some.inj hrefresh
      exact .inl h
    | true =>
      obtain ⟨hne, h⟩ := h
      obtain ⟨spool, hrefreshed, rfl⟩ := Option.map_eq_some_iff.mp hrefresh
      obtain ⟨tables, hlocal, hspool⟩ := Option.bind_eq_some_iff.mp hrefreshed
      obtain rfl := Option.some.inj hspool
      rcases h with h | ⟨row, hmem, rfl⟩ | h
      · exact .inl ⟨hne, .inl h⟩
      · rcases turns_of_upsertLocalTurn hlocal row hmem with ⟨old, hold, hsame⟩ | hsame
        · exact .inl ⟨hne, .inr (.inl ⟨old, hold, hsame⟩)⟩
        · exact .inr hsame
      · exact .inl ⟨hne, .inr (.inr h)⟩
  | localSpool =>
    obtain rfl := Option.some.inj hrefresh
    exact .inl h

theorem checkpointId_progressedTurn (h : (progressedTurn a head sessionId turn).checkpointId.getD
    "" = id) (hne : id ≠ "") : id = a.checkpointId := by
  unfold progressedTurn updatedTurn at h
  split_ifs at h
  · exact h.symm
  · exact absurd h.symm hne

/-- **What storing the progress of a turn can do**: stop, or go on after both updates. -/
theorem storeTurnProgress_cases (repoId : String) (a : Attempt)
    (sources : PostCommitInteractionSources) (head sessionId : String) (turn : InteractionTurn)
    (turns : List InteractionTurn) (w : World) :
    storeTurnProgress repoId a sources head sessionId (turn :: turns) w = (w, false) ∨
      ∃ stored, sources.upsertTurn repoId (progressedTurn a head sessionId turn) w = some stored ∧
        (storeTurnProgress repoId a sources head sessionId (turn :: turns) w = (stored, false) ∨
          ∃ refreshed, sources.refreshTurn repoId (progressedTurn a head sessionId turn) stored =
              some refreshed ∧
            storeTurnProgress repoId a sources head sessionId (turn :: turns) w =
              storeTurnProgress repoId a sources head sessionId turns refreshed) := by
  rw [storeTurnProgress]
  by_cases hfails : a.turnUpsertFails turn.turnId = true
  · exact .inl (if_pos hfails)
  · rw [if_neg hfails]
    cases hupsert : sources.upsertTurn repoId (progressedTurn a head sessionId turn) w with
    | none => exact .inl rfl
    | some stored =>
      refine .inr ⟨stored, rfl, ?_⟩
      dsimp only
      by_cases hrefreshFails : a.turnRefreshFails turn.turnId = true
      · exact .inl (if_pos hrefreshFails)
      · rw [if_neg hrefreshFails]
        cases hrefresh : sources.refreshTurn repoId (progressedTurn a head sessionId turn)
          stored with
        | none => exact .inl rfl
        | some refreshed => exact .inr ⟨refreshed, rfl, rfl⟩

theorem inTurn_of_storeTurnProgress
    (h : InTurn (storeTurnProgress repoId a sources head sessionId turns w).1 id) :
    InTurn w id ∨ id = a.checkpointId := by
  induction turns generalizing w with
  | nil => exact .inl h
  | cons turn turns ih =>
    have hne := h.1
    rcases storeTurnProgress_cases repoId a sources head sessionId turn turns w with
      hresult | ⟨stored, hupsert, hresult⟩
    · rw [hresult] at h
      exact .inl h
    · have hstored : InTurn stored id → InTurn w id ∨ id = a.checkpointId := fun h =>
        (inTurn_of_upsertTurn hupsert h).imp_right fun h => checkpointId_progressedTurn h hne
      rcases hresult with hresult | ⟨refreshed, hrefresh, hresult⟩
      · rw [hresult] at h
        exact hstored h
      · rw [hresult] at h
        rcases ih h with h | rfl
        · rcases inTurn_of_refreshTurn hrefresh h with h | h
          · exact hstored h
          · exact .inr (checkpointId_progressedTurn h hne)
        · exact .inr rfl

/-! ## Sessions stay where they are -/

theorem loadSession_of_upsertTurn (h : sources.upsertTurn repoId turn w = some w') :
    sources.loadSession sessionId w' = sources.loadSession sessionId w := by
  cases sources with
  | canonical hasSpool =>
    obtain ⟨repository, hstored, rfl⟩ := Option.map_eq_some_iff.mp h
    obtain ⟨-, row, -, rfl⟩ := DuckDb.upsertTurn_eq_some.mp hstored
    rfl
  | localSpool =>
    obtain ⟨spool, hrecorded, rfl⟩ := Option.map_eq_some_iff.mp h
    obtain ⟨tables, hlocal, hspool⟩ := Option.bind_eq_some_iff.mp hrecorded
    obtain rfl := Option.some.inj hspool
    obtain ⟨-, rfl⟩ := upsertLocalTurn_eq_some.mp hlocal
    rfl

theorem loadSession_of_refreshTurn (h : sources.refreshTurn repoId turn w = some w') :
    sources.loadSession sessionId w' = sources.loadSession sessionId w := by
  cases sources with
  | canonical hasSpool =>
    cases hasSpool with
    | false =>
      obtain rfl := Option.some.inj h
      rfl
    | true =>
      obtain ⟨spool, hrefreshed, rfl⟩ := Option.map_eq_some_iff.mp h
      rfl
  | localSpool =>
    obtain rfl := Option.some.inj h
    rfl

theorem loadSession_of_storeTurnProgress {otherId : String} :
    sources.loadSession otherId
        (storeTurnProgress repoId a sources head sessionId turns w).1 =
      sources.loadSession otherId w := by
  induction turns generalizing w with
  | nil => rfl
  | cons turn turns ih =>
    rcases storeTurnProgress_cases repoId a sources head sessionId turn turns w with
      hresult | ⟨stored, hupsert, hresult⟩
    · rw [hresult]
    · rcases hresult with hresult | ⟨refreshed, hrefresh, hresult⟩
      · rw [hresult]
        exact loadSession_of_upsertTurn hupsert
      · rw [hresult, ih, loadSession_of_refreshTurn hrefresh, loadSession_of_upsertTurn hupsert]

/-! ## What the writes of a checkpoint leave -/

/-- A call writes no other checkpoint. -/
theorem written_of_writeCommitted {ctx : CallContext} {opts : WriteCommittedOptions}
    {storage : Storage} (h : Written (writeCommitted services ctx opts storage).1 id) :
    Written storage id ∨ id = opts.checkpointId := by
  simp only [writeCommitted] at h
  split_ifs at h
  · exact .inl h
  · refine runWrites_invariant
      (fun s => Written s id → Written storage id ∨ id = opts.checkpointId) ?_ .inl h
    intro write hwrite s s' hs hstep hwritten
    rcases List.mem_append.mp hwrite with hwrite | hwrite
    · have hrows := keepsRows_blobWrites write hwrite s s' hstep
      have hcheckpoints := checkpoints_of_blobWrites write hwrite s s' hstep
      unfold Written at hwritten
      rw [hrows, hcheckpoints] at hwritten
      exact hs hwritten
    · simp only [List.mem_cons, List.not_mem_nil, or_false] at hwrite
      rcases hwrite with rfl | rfl | rfl
      · obtain rfl := Option.some.inj hstep
        rcases hwritten with ⟨r, hr, rfl⟩ | hwritten
        · rcases mem_upsertMerged.mp hr with rfl | ⟨hold, -⟩
          · exact .inr (storedRow_columns _ s).1
          · exact hs (.inl ⟨r, hold, rfl⟩)
        · exact hs (.inr hwritten)
      · have hrows := keepsRows_provenance s s' hstep
        have hcheckpoints := checkpoints_of_provenance hstep
        unfold Written at hwritten
        rw [hrows, hcheckpoints] at hwritten
        exact hs hwritten
      · obtain rfl := Option.some.inj hstep
        rcases hwritten with hwritten | ⟨r, hr, rfl⟩
        · exact hs (.inl hwritten)
        · rcases UniqueTable.mem_upsert.mp hr with rfl | ⟨hold, -⟩
          · refine .inr ?_
            cases findRow (·.checkpointId) opts.checkpointId s.checkpoints.rows with
            | none => rfl
            | some old => rfl
          · exact hs (.inr ⟨r, hold, rfl⟩)

/-- The identifier that an attempt draws is plain and not empty. -/
theorem plain_checkpointId (a : Attempt) :
    PlainSegment a.checkpointId.val.toList ∧ a.checkpointId.val ≠ "" := by
  have hplain := plainSegment_of_isValidCheckpointId a.checkpointId.property
  refine ⟨hplain, fun hempty => hplain.1 ?_⟩
  rw [hempty]
  rfl

/-- A write that stops before its session row leaves the rows alone. -/
theorem writeCommitted_blocked {ctx : CallContext} (opts : WriteCommittedOptions)
    (storage : Storage) (hplain : PlainSegment opts.checkpointId.toList)
    (hempty : opts.checkpointId ≠ "")
    (hblocked : (∃ n ∈ ctx.stop, n ≤ 6) ∨ blobPath services opts.checkpointId 0 .transcript = none) :
    (writeCommitted services ctx opts storage).1.sessions = storage.sessions ∧
      (writeCommitted services ctx opts storage).1.checkpoints = storage.checkpoints ∧
      (writeCommitted services ctx opts storage).2 = false ∧
      storesSessionRow services ctx opts storage = false := by
  simp only [writeCommitted, storesSessionRow]
  rw [if_neg hempty]
  generalize resolveCheckpointSessionIndexForWrite opts.checkpointId opts.sessionId storage = i
  rcases hblocked with ⟨n, hstop, hn⟩ | hpath
  · have hstop : ctx.stop = some n := hstop
    have hrow : (runWrites ctx.stop (blobWrites services opts i ++
        [upsertCheckpointSessionRow (sessionRowOf services ctx opts i)]) storage).2 = false := by
      refine Bool.eq_false_iff.mpr fun hdone => ?_
      rw [hstop] at hdone
      have hlength : 7 ≤ n := length_le_of_runWrites hdone
      omega
    have hall : (runWrites ctx.stop (committedWrites services ctx opts i) storage).2 = false := by
      refine Bool.eq_false_iff.mpr fun hdone => ?_
      rw [hstop] at hdone
      have hlength : 9 ≤ n := length_le_of_runWrites hdone
      omega
    have hwithin : (runWrites ctx.stop (committedWrites services ctx opts i) storage).1 =
        (runWrites ctx.stop (blobWrites services opts i) storage).1 := by
      rw [hstop]
      exact runWrites_within hn
    have hkept : (runWrites ctx.stop (blobWrites services opts i) storage).1.sessions =
          storage.sessions ∧
        (runWrites ctx.stop (blobWrites services opts i) storage).1.checkpoints =
          storage.checkpoints := runWrites_invariant
      (fun s : Storage => s.sessions = storage.sessions ∧ s.checkpoints = storage.checkpoints)
      (fun write hwrite s s' hs hstep =>
        ⟨(keepsRows_blobWrites write hwrite s s' hstep).trans hs.1,
          (checkpoints_of_blobWrites write hwrite s s' hstep).trans hs.2⟩) ⟨rfl, rfl⟩
    rw [hwithin]
    exact ⟨hkept.1, hkept.2, hall, hrow⟩
  · have hrefused : writeBlob services opts.checkpointId i .transcript
        (services.redactJsonlBytesWithFallback opts.transcript) storage = none := by
      refine Option.eq_none_iff_forall_ne_some.mpr fun s' hs' => ?_
      obtain ⟨path, hsome, -⟩ := writeBlob_eq_some.mp hs'
      have hstorable := storable_of_blobPath hplain (Option.isSome_iff_exists.mpr ⟨path, hsome⟩)
      have hzero := hstorable 0 .transcript
      rw [hpath] at hzero
      exact absurd hzero (by decide)
    have hfailed : ∀ writes, runWrites ctx.stop (writeBlob services opts.checkpointId i .transcript
        (services.redactJsonlBytesWithFallback opts.transcript) :: writes) storage =
          (storage, false) := fun _ => runWrites_failed hrefused
    have hall : runWrites ctx.stop (committedWrites services ctx opts i) storage =
        (storage, false) := hfailed _
    have hrow : runWrites ctx.stop (blobWrites services opts i ++
        [upsertCheckpointSessionRow (sessionRowOf services ctx opts i)]) storage =
          (storage, false) := hfailed _
    rw [hall, hrow]
    exact ⟨rfl, rfl, rfl, rfl⟩

/-- A write that nothing stops succeeds. -/
theorem writeCommitted_succeeds {ctx : CallContext} (opts : WriteCommittedOptions)
    (storage : Storage) (hplain : PlainSegment opts.checkpointId.toList)
    (hempty : opts.checkpointId ≠ "") (hstop : ctx.stop = none)
    (hpath : (blobPath services opts.checkpointId 0 .transcript).isSome) :
    (writeCommitted services ctx opts storage).2 = true := by
  simp only [writeCommitted]
  rw [if_neg hempty, hstop]
  refine runWrites_of_isSome fun write hwrite s => ?_
  rcases List.mem_append.mp hwrite with hwrite | hwrite
  · exact isSome_blobWrites (storable_of_blobPath hplain hpath) write hwrite s
  · simp only [List.mem_cons, List.not_mem_nil, or_false] at hwrite
    rcases hwrite with rfl | rfl | rfl
    · rfl
    · unfold persistCheckpointProvenanceRows
      split <;> rfl
    · rfl

/-! ## One attempt -/

/-- What comes up new is the checkpoint `id`, and the commit is not mapped yet. -/
structure Progress (id : String) (s s' : State) : Prop where
  written : ∀ other, Written s'.storage other → Written s.storage other ∨ other = id
  inTurn : ∀ other, InTurn s'.world other → InTurn s.world other ∨ other = id
  condensed : ∃ new, s'.condensed = s.condensed ++ new ∧ ∀ e ∈ new, e.checkpointId = id
  mappings : s'.mappings = s.mappings

/-- Nothing comes up new. -/
structure Untouched (s s' : State) : Prop where
  written : ∀ other, Written s'.storage other → Written s.storage other
  inTurn : ∀ other, InTurn s'.world other → InTurn s.world other
  condensed : s'.condensed = s.condensed
  mappings : s'.mappings = s.mappings

theorem Progress.refl (id : String) (s : State) : Progress id s s :=
  ⟨fun _ h => .inl h, fun _ h => .inl h, ⟨[], (List.append_nil _).symm, nofun⟩, rfl⟩

theorem Progress.trans {s'' : State} (h : Progress id s s') (h' : Progress id s' s'') :
    Progress id s s'' where
  written other hother := (h'.written other hother).elim (h.written other) .inr
  inTurn other hother := (h'.inTurn other hother).elim (h.inTurn other) .inr
  condensed := by
    obtain ⟨new, hnew, hid⟩ := h.condensed
    obtain ⟨new', hnew', hid'⟩ := h'.condensed
    refine ⟨new ++ new', by rw [hnew', hnew, List.append_assoc], fun e he => ?_⟩
    exact (List.mem_append.mp he).elim (hid e) (hid' e)
  mappings := h'.mappings.trans h.mappings

theorem Untouched.refl (s : State) : Untouched s s :=
  ⟨fun _ h => h, fun _ h => h, rfl, rfl⟩

theorem Untouched.trans {s'' : State} (h : Untouched s s') (h' : Untouched s' s'') :
    Untouched s s'' :=
  ⟨fun other hother => h.written other (h'.written other hother),
    fun other hother => h.inTurn other (h'.inTurn other hother),
    h'.condensed.trans h.condensed, h'.mappings.trans h.mappings⟩

theorem Untouched.progress (h : Untouched s s') : Progress id s s' :=
  ⟨fun other hother => .inl (h.written other hother),
    fun other hother => .inl (h.inTurn other hother),
    ⟨[], h.condensed.trans (List.append_nil _).symm, nofun⟩, h.mappings⟩

theorem progress_condense (services : CheckpointServices) (a : Attempt)
    (session : InteractionSession) (turns : List InteractionTurn) (s : State) :
    Progress a.checkpointId s (condenseInteractionSession services a session turns s).1 := by
  unfold condenseInteractionSession
  by_cases hready : readyToWrite a session turns = true
  · rw [if_neg (by rw [hready]; decide)]
    refine ⟨fun other => written_of_writeCommitted, fun _ h => .inl h, ?_, rfl⟩
    dsimp only
    split_ifs
    · exact ⟨_, rfl, fun e he => by rw [List.mem_singleton.mp he]⟩
    · exact ⟨[], (List.append_nil _).symm, fun e he => absurd he List.not_mem_nil⟩
  · rw [if_pos (by rw [Bool.not_eq_true] at hready; rw [hready]; decide)]
    exact .refl _ s

theorem progress_deriveSession :
    Progress a.checkpointId s (deriveSession services a sources head sessionId turns s).1 := by
  unfold deriveSession
  by_cases hload : (a.sessions sessionId).loadFails = true
  · rw [if_pos hload]
    exact .refl _ s
  · rw [if_neg hload]
    cases sources.loadSession sessionId s.world with
    | none => exact .refl _ s
    | some session =>
      have hcondense := progress_condense services a session turns s
      dsimp only
      split_ifs
      · exact hcondense
      · refine hcondense.trans ?_
        exact ⟨fun _ h => .inl h, fun _ h => inTurn_of_storeTurnProgress h,
          ⟨[], (List.append_nil _).symm, nofun⟩, rfl⟩

/-- A session that is blocked leaves nothing, and ends the attempt. -/
theorem deriveSession_blocked (head : String)
    (h : BlockedBeforeRow services a sources sessionId turns s.world) :
    Untouched s (deriveSession services a sources head sessionId turns s).1 ∧
      (deriveSession services a sources head sessionId turns s).2 = false := by
  unfold deriveSession
  rcases h with hload | h
  · rw [if_pos hload]
    exact ⟨.refl s, rfl⟩
  · by_cases hload : (a.sessions sessionId).loadFails = true
    · rw [if_pos hload]
      exact ⟨.refl s, rfl⟩
    · rw [if_neg hload]
      cases hsession : sources.loadSession sessionId s.world with
      | none => exact ⟨.refl s, rfl⟩
      | some session =>
        rw [hsession] at h
        have hblocked : Untouched s (condenseInteractionSession services a session turns s).1 ∧
            (condenseInteractionSession services a session turns s).2 = false := by
          unfold condenseInteractionSession
          rcases h session rfl with hready | hstop
          · rw [hready]
            exact ⟨.refl s, rfl⟩
          · cases hready : readyToWrite a session turns with
            | false => exact ⟨.refl s, rfl⟩
            | true =>
              obtain ⟨hplain, hempty⟩ := plain_checkpointId a
              obtain ⟨hsessions, hcheckpoints, hfailed, hrow⟩ := writeCommitted_blocked
                (writeOptions a session turns
                  ((aggregateTurnFiles turns).filter a.committedFiles.contains))
                s.storage hplain hempty hstop
              dsimp only
              rw [hrow, hfailed]
              refine ⟨⟨fun other hother => ?_, fun _ h => h, rfl, rfl⟩, rfl⟩
              replace hother : Written (writeCommitted services
                (a.sessions session.sessionId).call (writeOptions a session turns
                  ((aggregateTurnFiles turns).filter a.committedFiles.contains))
                s.storage).1 other := hother
              rw [Written, hsessions, hcheckpoints] at hother
              exact hother
        dsimp only
        rw [hblocked.2]
        exact ⟨hblocked.1, rfl⟩

theorem exists_upsertTurn (h : Accepts repoId sources turn) (w : World) :
    ∃ stored, sources.upsertTurn repoId turn w = some stored := by
  obtain ⟨hrepo, hrow⟩ := h
  cases sources with
  | canonical hasSpool =>
    obtain ⟨row, hrow⟩ := Option.isSome_iff_exists.mp (hrow.resolve_left nofun)
    exact ⟨_, Option.map_eq_some_iff.mpr
      ⟨_, DuckDb.upsertTurn_eq_some.mpr ⟨hrepo, row, hrow, rfl⟩, rfl⟩⟩
  | localSpool =>
    have hlocal := upsertLocalTurn_eq_some (t := w.spool.tables).mpr ⟨hrepo, rfl⟩
    exact ⟨_, Option.map_eq_some_iff.mpr
      ⟨_, Option.bind_eq_some_iff.mpr ⟨_, hlocal, rfl⟩, rfl⟩⟩

theorem exists_refreshTurn (h : Accepts repoId sources turn) (w : World) :
    ∃ refreshed, sources.refreshTurn repoId turn w = some refreshed := by
  cases sources with
  | canonical hasSpool =>
    cases hasSpool with
    | false => exact ⟨w, rfl⟩
    | true =>
      have hlocal := upsertLocalTurn_eq_some (t := w.spool.tables).mpr ⟨h.1, rfl⟩
      exact ⟨_, Option.map_eq_some_iff.mpr
        ⟨_, Option.bind_eq_some_iff.mpr ⟨_, hlocal, rfl⟩, rfl⟩⟩
  | localSpool => exact ⟨w, rfl⟩

theorem storeTurnProgress_succeeds
    (h : ∀ turn ∈ turns, a.turnUpsertFails turn.turnId = false ∧
      a.turnRefreshFails turn.turnId = false ∧
        Accepts repoId sources (progressedTurn a head sessionId turn)) :
    (storeTurnProgress repoId a sources head sessionId turns w).2 = true := by
  induction turns generalizing w with
  | nil => rfl
  | cons turn turns ih =>
    obtain ⟨hupsertFails, hrefreshFails, haccepts⟩ := h turn List.mem_cons_self
    obtain ⟨stored, hstored⟩ := exists_upsertTurn haccepts w
    obtain ⟨refreshed, hrefreshed⟩ := exists_refreshTurn haccepts stored
    simp only [storeTurnProgress, hupsertFails, hrefreshFails, hstored, hrefreshed,
      Bool.false_eq_true, if_false]
    exact ih fun turn hturn => h turn (List.mem_cons_of_mem _ hturn)

theorem deriveSession_succeeds
    (h : NothingFails services a sources head sessionId turns s.world) :
    (deriveSession services a sources head sessionId turns s).2 = true := by
  obtain ⟨hload, ⟨session, hsession, hready, hstop, hstate⟩, hpath, hturns⟩ := h
  obtain ⟨hplain, hempty⟩ := plain_checkpointId a
  have hsession : sources.loadSession sessionId s.world = some session := hsession
  have hwritten := writeCommitted_succeeds (writeOptions a session turns
    ((aggregateTurnFiles turns).filter a.committedFiles.contains)) s.storage hplain hempty hstop hpath
  have hsaved : ((a.sessions session.sessionId).hasLocalState &&
      (a.sessions session.sessionId).stateSaveFails) = false := by
    rcases hstate with hstate | hstate <;> simp [hstate]
  have hcondensed : (condenseInteractionSession services a session turns s).2 = true := by
    simp only [condenseInteractionSession, hready, hwritten, hsaved, Bool.not_true,
      Bool.false_eq_true, if_false, Bool.not_false, Bool.and_self]
  unfold deriveSession
  rw [if_neg (by rw [hload]; decide), hsession]
  dsimp only
  rw [hcondensed]
  exact storeTurnProgress_succeeds hturns

theorem loadSession_of_deriveSession (services : CheckpointServices) (a : Attempt)
    (sources : PostCommitInteractionSources) (head sessionId : String)
    (turns : List InteractionTurn) (s : State) (otherId : String) :
    sources.loadSession otherId
        (deriveSession services a sources head sessionId turns s).1.world =
      sources.loadSession otherId s.world := by
  unfold deriveSession
  split_ifs
  · rfl
  · cases sources.loadSession sessionId s.world with
    | none => rfl
    | some session =>
      have hworld : (condenseInteractionSession services a session turns s).1.world = s.world := by
        unfold condenseInteractionSession
        split_ifs <;> rfl
      dsimp only
      split_ifs
      · rw [hworld]
      · show sources.loadSession otherId (storeTurnProgress _ _ _ _ _ _ _).1 = _
        rw [loadSession_of_storeTurnProgress, hworld]

/-! ## The sessions of an attempt -/

variable {sessions : List (String × List InteractionTurn)} {session : String × List InteractionTurn}

theorem deriveSessions_skip (h : ¬ Contributes a session) :
    deriveSessions services a sources head (session :: sessions) s =
      deriveSessions services a sources head sessions s := by
  have hempty : (contributingTurns a.committedFiles session.2).isEmpty = true :=
    List.isEmpty_iff.mpr (not_not.mp h)
  rw [deriveSessions, if_pos hempty]

theorem deriveSessions_of_failed (h : Contributes a session)
    (hfailed : (deriveSession services a sources head session.1
      (contributingTurns a.committedFiles session.2) s).2 = false) :
    deriveSessions services a sources head (session :: sessions) s =
      ((deriveSession services a sources head session.1
        (contributingTurns a.committedFiles session.2) s).1, none) := by
  have hempty : ¬ (contributingTurns a.committedFiles session.2).isEmpty = true :=
    fun hempty => h (List.isEmpty_iff.mp hempty)
  rw [deriveSessions, if_neg hempty]
  dsimp only
  rw [hfailed]
  rfl

theorem deriveSessions_of_derived (h : Contributes a session)
    (hderived : (deriveSession services a sources head session.1
      (contributingTurns a.committedFiles session.2) s).2 = true) :
    deriveSessions services a sources head (session :: sessions) s =
      ((deriveSessions services a sources head sessions (deriveSession services a sources head
          session.1 (contributingTurns a.committedFiles session.2) s).1).1,
        (deriveSessions services a sources head sessions (deriveSession services a sources head
          session.1 (contributingTurns a.committedFiles session.2) s).1).2.map fun _ => true) := by
  have hempty : ¬ (contributingTurns a.committedFiles session.2).isEmpty = true :=
    fun hempty => h (List.isEmpty_iff.mp hempty)
  rw [deriveSessions, if_neg hempty]
  dsimp only
  rw [hderived]
  rfl

theorem progress_deriveSessions (services : CheckpointServices) (a : Attempt)
    (sources : PostCommitInteractionSources) (head : String)
    (sessions : List (String × List InteractionTurn)) (s : State) :
    Progress a.checkpointId s (deriveSessions services a sources head sessions s).1 := by
  induction sessions generalizing s with
  | nil => exact .refl _ s
  | cons session sessions ih =>
    by_cases h : Contributes a session
    · cases hderived : (deriveSession services a sources head session.1
        (contributingTurns a.committedFiles session.2) s).2 with
      | false =>
        rw [deriveSessions_of_failed h hderived]
        exact progress_deriveSession
      | true =>
        rw [deriveSessions_of_derived h hderived]
        exact progress_deriveSession.trans (ih _)
    · rw [deriveSessions_skip h]
      exact ih s

/-- If the first session that contributes is blocked, nothing comes up new. -/
theorem deriveSessions_blocked (head : String)
    (h : FirstBlocked services a sources s.world sessions) :
    Untouched s (deriveSessions services a sources head sessions s).1 ∧
      (deriveSessions services a sources head sessions s).2 = none := by
  obtain ⟨first, hfirst, hblocked⟩ := h
  induction sessions with
  | nil => exact absurd hfirst (by simp)
  | cons session sessions ih =>
    by_cases h : Contributes a session
    · have hfound : (!(contributingTurns a.committedFiles session.2).isEmpty) = true := by
        simpa [Contributes] using h
      simp only [List.find?_cons, hfound] at hfirst
      obtain rfl := Option.some.inj hfirst
      obtain ⟨huntouched, hfailed⟩ := deriveSession_blocked head hblocked
      rw [deriveSessions_of_failed h hfailed]
      exact ⟨huntouched, rfl⟩
    · have hfound : (!(contributingTurns a.committedFiles session.2).isEmpty) = false := by
        simpa [Contributes] using h
      simp only [List.find?_cons, hfound] at hfirst
      rw [deriveSessions_skip h]
      exact ih hfirst

/-- If nothing fails, a checkpoint is derived exactly when a session contributes. -/
theorem deriveSessions_succeeds
    (hload : ∀ otherId, sources.loadSession otherId s.world = sources.loadSession otherId w)
    (h : ∀ session ∈ sessions, Contributes a session → NothingFails services a sources head
      session.1 (contributingTurns a.committedFiles session.2) w) :
    (∃ session ∈ sessions, Contributes a session) ∧
        (deriveSessions services a sources head sessions s).2 = some true ∨
      deriveSessions services a sources head sessions s = (s, some false) := by
  induction sessions generalizing s with
  | nil => exact .inr rfl
  | cons session sessions ih =>
    have hrest := fun other hother => h other (List.mem_cons_of_mem session hother)
    by_cases hcontributes : Contributes a session
    · have hnothing := h session List.mem_cons_self hcontributes
      have hderived := deriveSession_succeeds (s := s) (by
        unfold NothingFails at hnothing ⊢
        rwa [hload])
      rw [deriveSessions_of_derived hcontributes hderived]
      refine .inl ⟨⟨session, List.mem_cons_self, hcontributes⟩, ?_⟩
      have hload' := fun otherId => (loadSession_of_deriveSession services a sources head session.1
        (contributingTurns a.committedFiles session.2) s otherId).trans (hload otherId)
      rcases ih hload' hrest with ⟨-, hsome⟩ | hnone
      · rw [hsome]
        rfl
      · rw [hnone]
        rfl
    · rw [deriveSessions_skip hcontributes]
      refine (ih hload hrest).imp_left ?_
      rintro ⟨⟨other, hother, hcontributes⟩, hsome⟩
      exact ⟨⟨other, List.mem_cons_of_mem _ hother, hcontributes⟩, hsome⟩

/-! ## Attempts one after the other -/

theorem mapped_insert {id : String}
    (h : ∀ r ∈ s.mappings.rows, r.key = (head, id) → r.repoId = repoId) :
    Mapped repoId head (insertCommitCheckpointMapping repoId head id s) id := by
  have hfound := UniqueTable.findRow_insertOrIgnore (t := s.mappings)
    (r := { commitSha := head, checkpointId := id, repoId }) (k := (head, id))
  have hkey : (head, id) = CommitCheckpointRow.key
      { commitSha := head, checkpointId := id, repoId } := rfl
  rw [if_pos hkey] at hfound
  obtain ⟨hmem, -⟩ := UniqueTable.findRow_eq_some.mp hfound
  refine ⟨_, hmem, ?_⟩
  cases hold : findRow CommitCheckpointRow.key (head, id) s.mappings.rows with
  | none => exact ⟨rfl, rfl, rfl⟩
  | some old =>
    obtain ⟨holdMem, hkey⟩ := UniqueTable.findRow_eq_some.mp hold
    obtain ⟨hcommit, hid⟩ := Prod.ext_iff.mp hkey
    exact ⟨hcommit, h old holdMem hkey, hid⟩

/-- **What a clean attempt does**: it leaves nothing new, or it derives one checkpoint and maps
the commit to it. -/
theorem attempt_cases (hclean : a.Clean services head s) :
    Untouched s (executePostCommitDerivation services head s a).1 ∨
      (∃ s', Progress a.checkpointId s s' ∧ (executePostCommitDerivation services head s a).1 =
          insertCommitCheckpointMapping services.repoId head a.checkpointId s') ∧
        Mapped services.repoId head (executePostCommitDerivation services head s a).1
          a.checkpointId := by
  unfold executePostCommitDerivation
  by_cases hread : a.mappingReadFails = true
  · rw [if_pos hread]
    exact .inl (.refl s)
  · rw [if_neg hread]
    by_cases hmapped : commitHasCheckpointMapping services.repoId head s = true
    · rw [if_pos hmapped]
      exact .inl (.refl s)
    · rw [if_neg hmapped]
      have hclean := (hclean.resolve_left hread).resolve_left hmapped
      cases hsources : a.sources services.repoId s.world with
      | none => exact .inl (.refl s)
      | some sources =>
        have hflushed : Untouched s { s with
            world := (sources.flush services.repoId a s.world).1 } :=
          ⟨fun _ h => h, fun _ h => inTurn_of_sourceFlush h, rfl, rfl⟩
        have hclean := hclean sources hsources
        dsimp only at hclean ⊢
        unfold derivePostCommitFromInteractionSources
        dsimp only
        by_cases hflush : (!(sources.flush services.repoId a s.world).2 || a.listFails) = true
        · rw [if_pos hflush]
          exact .inl hflushed
        · rw [if_neg hflush]
          rw [Bool.or_eq_true, Bool.not_eq_true', not_or] at hflush
          by_cases hrebase : a.isRebaseInProgress = true
          · rw [if_pos hrebase]
            exact .inl hflushed
          · rw [if_neg hrebase]
            rcases ((hclean.resolve_left hflush.1).resolve_left hflush.2).resolve_left hrebase with
              hblocked | hsucceed
            · obtain ⟨huntouched, hnone⟩ := deriveSessions_blocked
                (s := { s with world := (sources.flush services.repoId a s.world).1 })
                head hblocked
              generalize deriveSessions services a sources head _ _ = derived at huntouched hnone ⊢
              obtain ⟨s', result⟩ := derived
              obtain rfl : result = none := hnone
              exact .inl (hflushed.trans huntouched)
            · rcases deriveSessions_succeeds
                (s := { s with world := (sources.flush services.repoId a s.world).1 })
                (fun _ => rfl) (fun session hsession hcontributes =>
                  (hsucceed session hsession hcontributes).1) with
                ⟨⟨session, hsession, hcontributes⟩, hsome⟩ | hnone
              · obtain ⟨-, hinsert, hfree⟩ := hsucceed session hsession hcontributes
                have hprogress := progress_deriveSessions services a sources head
                  (turnsBySession (sources.listUncheckpointedTurns services.repoId
                    (sources.flush services.repoId a s.world).1))
                  { s with world := (sources.flush services.repoId a s.world).1 }
                generalize deriveSessions services a sources head _ _ = derived
                  at hprogress hsome ⊢
                obtain ⟨s', result⟩ := derived
                obtain rfl : result = some true := hsome
                dsimp only
                rw [if_neg (by rw [hinsert]; decide)]
                have hprogress : Progress a.checkpointId s s' :=
                  hflushed.progress.trans hprogress
                exact .inr ⟨⟨s', hprogress, rfl⟩, mapped_insert (hprogress.mappings ▸ hfree)⟩
              · rw [hnone]
                exact .inl hflushed

/-- One attempt as a step of a run. -/
def attemptStep (services : CheckpointServices) (head : String) (s : State) (a : Attempt) :
    Option State := some (executePostCommitDerivation services head s a).1

/-- Nothing new has come up so far, or all of it is settled and the commit is mapped. -/
def Stage (repoId head : String) (s₀ s : State) : Prop :=
  Untouched s₀ s ∨
    (Settled repoId head s₀ s ∧ commitHasCheckpointMapping repoId head s = true)

theorem settled_of_untouched {s₀ : State} (h : Untouched s₀ s) (hnone : s₀.condensed = []) :
    Settled repoId head s₀ s where
  written id hid := .inl (h.written id hid)
  inTurn id hid := .inl (h.inTurn id hid)
  once e he := by
    rw [h.condensed, hnone] at he
    exact absurd he List.not_mem_nil

/-- **One attempt.** -/
theorem stage_attempt {s₀ : State} (hnone : s₀.condensed = [])
    (hstage : Stage services.repoId head s₀ s) (hclean : a.Clean services head s) :
    Stage services.repoId head s₀ (executePostCommitDerivation services head s a).1 := by
  rcases hstage with huntouched | ⟨hsettled, hmapped⟩
  · rcases attempt_cases hclean with h | ⟨⟨s', hprogress, hresult⟩, hmapped⟩
    · exact .inl (huntouched.trans h)
    · have hprogress : Progress a.checkpointId s₀ s' := huntouched.progress.trans hprogress
      obtain ⟨new, hnew, hid⟩ := hprogress.condensed
      rw [hnone, List.nil_append] at hnew
      refine .inr ⟨⟨fun id h => ?_, fun id h => ?_, fun e he e' he' turnId _ _ => ?_⟩, ?_⟩
      · rw [hresult] at h
        rcases hprogress.written id h with h | rfl
        · exact .inl h
        · exact .inr hmapped
      · rw [hresult] at h
        rcases hprogress.inTurn id h with h | rfl
        · exact .inl h
        · exact .inr hmapped
      · rw [hresult] at he he'
        exact (hid e (hnew ▸ he)).trans (hid e' (hnew ▸ he')).symm
      · obtain ⟨r, hr, hcommit, hrepo, -⟩ := hmapped
        exact List.any_eq_true.mpr ⟨r, hr, decide_eq_true ⟨hcommit, hrepo⟩⟩
  · refine .inr ?_
    have hsame : (executePostCommitDerivation services head s a).1 = s := by
      unfold executePostCommitDerivation
      split_ifs <;> rfl
    rw [hsame]
    exact ⟨hsettled, hmapped⟩

/-- **Attempts that fail early or not at all leave nothing half done.** -/
theorem settled_of_clean {as : List Attempt} {s₀ : State}
    (hclean : Run.Meets (attemptStep services head) (fun s a => a.Clean services head s) s₀ as)
    (hnone : s₀.condensed = []) (hrun : Run.exec (attemptStep services head) s₀ as = some s) :
    Settled services.repoId head s₀ s := by
  have hstage := Run.exec_invariant_of_meets (Stage services.repoId head s₀)
    (fun s a s' hstage hclean hstep => Option.some.inj hstep ▸ stage_attempt hnone hstage hclean)
    (.inl (.refl s₀)) hclean hrun
  rcases hstage with huntouched | ⟨hsettled, -⟩
  · exact settled_of_untouched huntouched hnone
  · exact hsettled

/-! ## An attempt that fails late -/

def sampleSession : InteractionSession :=
  { sessionId := "session", repoId := "repo", agentType := "codex" }

def sampleTurn : TurnRow :=
  excludedTurn "repo" "codex"
    { turnId := "turn", sessionId := "session", repoId := "repo", prompt := "Fix the parser"
      transcriptFragment := "A", filesModified := ["src/parser.rs"] }

/-- One session with one turn in the event repository; the spool is empty. -/
def sampleState : State where
  world :=
    { spool := .empty
      repository :=
        { sessions := .upsert .empty sampleSession
          turns := .upsert .empty sampleTurn
          events := .empty } }
  storage := .empty
  mappings := .empty
  condensed := []

def sampleGit : GitTrees := { hasTree := fun _ => true, fileHashInTree := fun _ _ => none }

def firstAttempt : Attempt :=
  { committedFiles := ["src/parser.rs"]
    checkpointId := ⟨"0123456789ab", by decide⟩
    git := sampleGit
    promptsOfTranscript := fun _ => [] }

def secondAttempt : Attempt :=
  { firstAttempt with checkpointId := ⟨"ba9876543210", by decide⟩ }

/-- The listing of the turns fails, and the attempt is made again. -/
def listingRetried : List Attempt := [{ firstAttempt with listFails := true }, secondAttempt]

theorem settled_listingRetried : ∃ s,
    Run.exec (attemptStep sampleServices "head") sampleState listingRetried = some s ∧
      Settled sampleServices.repoId "head" sampleState s := by
  have hclean : Run.Meets (attemptStep sampleServices "head")
      (fun s a => a.Clean sampleServices "head" s) sampleState listingRetried := by decide
  exact ⟨_, rfl, settled_of_clean hclean rfl rfl⟩

/-- The session is written, and the update of its turn fails. -/
def lateFailure : Attempt := { firstAttempt with turnUpsertFails := fun _ => true }

/-- **A late failure.**  The second attempt succeeds; the checkpoint of the first one is not
mapped, and the turn is in both. -/
theorem lateFailure_not_settled : ∃ s s',
    attemptStep sampleServices "head" sampleState lateFailure = some s ∧
      attemptStep sampleServices "head" s secondAttempt = some s' ∧
      (executePostCommitDerivation sampleServices "head" s secondAttempt).2 = true ∧
      ¬ Settled sampleServices.repoId "head" sampleState s' := by
  refine ⟨_, _, rfl, rfl, by decide, fun h => ?_⟩
  have hsame := h.once
    { checkpointId := "0123456789ab", sessionId := "session", turnIds := ["turn"] }
    (by decide)
    { checkpointId := "ba9876543210", sessionId := "session", turnIds := ["turn"] }
    (by decide) "turn" (by decide) (by decide)
  exact absurd hsame (by decide)

end PostCommit
end Bitloops
