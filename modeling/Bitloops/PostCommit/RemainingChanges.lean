import Bitloops.Foundation.PartByPart
import Bitloops.Foundation.Run
import Bitloops.PostCommit.Retry

/-!
# The files of a turn over a sequence of commits

A commit takes some of the files of a turn, and the files that are left replace those of the turn.
A file is left when the commit does not have it, or has it with another content than the session.
One combination is lost: a file that the session deleted, and that the commit changed and kept, is
not left.  Where no commit does that, a turn gets its checkpoint only when each of its files has
been committed with the content that the session had.
-/

namespace Bitloops
namespace PostCommit

open Checkpoints Interactions

/-! ## One commit -/

/-- The files that are left: those outside the commit, and those whose contents differ.  A file
that only one of the trees has counts as different. -/
def exactRemaining (git : GitTrees) (sessionTreeHash head : String)
    (filesTouched committedFiles : List String) : List String :=
  filesTouched.filter fun filePath =>
    !isInfrastructurePath filePath && (!committedFiles.contains filePath ||
      git.fileHashInTree sessionTreeHash filePath != git.fileHashInTree head filePath)

/-- The session deleted the file, and the commit changed and kept it. -/
def KeepsDeleted (git : GitTrees) (sessionTreeHash head : String) (committedFiles : List String)
    (filePath : String) : Prop :=
  isInfrastructurePath filePath = false ∧ filePath ∈ committedFiles ∧
    git.fileHashInTree sessionTreeHash filePath = none ∧ git.fileHashInTree head filePath ≠ none

variable {git : GitTrees} {sessionTreeHash head filePath : String}
  {filesTouched committedFiles : List String}

/-- A file is judged rightly exactly when it is not a kept deletion. -/
theorem isRemaining_eq_iff :
    isRemaining git sessionTreeHash head committedFiles filePath =
        (!isInfrastructurePath filePath && (!committedFiles.contains filePath ||
          git.fileHashInTree sessionTreeHash filePath != git.fileHashInTree head filePath)) ↔
      ¬ KeepsDeleted git sessionTreeHash head committedFiles filePath := by
  unfold isRemaining KeepsDeleted
  cases hpath : isInfrastructurePath filePath with
  | true => simp
  | false =>
    by_cases hcommitted : filePath ∈ committedFiles
    · cases hsession : git.fileHashInTree sessionTreeHash filePath with
      | none => cases git.fileHashInTree head filePath <;> simp [hcommitted]
      | some sessionHash =>
        cases git.fileHashInTree head filePath with
        | none => simp [hcommitted]
        | some commitHash =>
          by_cases hsame : commitHash = sessionHash
          · subst hsame
            simp [hcommitted]
          · have hother : sessionHash ≠ commitHash := fun h => hsame h.symm
            simp [hcommitted, hsame, hother]
    · simp [hcommitted]

/-- With both trees at hand the files are filtered one by one. -/
theorem filesWithRemaining_of_trees (hhead : git.hasTree head = true)
    (hsession : isBlank sessionTreeHash = false) :
    filesWithRemainingAgentChangesFromTree git (some sessionTreeHash) head filesTouched
        committedFiles =
      filesTouched.filter (isRemaining git sessionTreeHash head committedFiles) := by
  simp only [filesWithRemainingAgentChangesFromTree, hhead, Bool.not_true, Bool.false_eq_true,
    if_false, Option.filter_some, hsession, Bool.not_false, if_true]

/-- **When the files that are left are exact.** -/
theorem filesWithRemaining_eq_exactRemaining_iff (hhead : git.hasTree head = true)
    (hsession : isBlank sessionTreeHash = false) :
    filesWithRemainingAgentChangesFromTree git (some sessionTreeHash) head filesTouched
          committedFiles =
        exactRemaining git sessionTreeHash head filesTouched committedFiles ↔
      ∀ filePath ∈ filesTouched,
        ¬ KeepsDeleted git sessionTreeHash head committedFiles filePath := by
  rw [filesWithRemaining_of_trees hhead hsession, exactRemaining, PartByPart.filter_eq_filter_iff]
  exact forall₂_congr fun _ _ => isRemaining_eq_iff

/-! ## Commits -/

/-- An attempt for a commit. -/
structure Commit where
  head : String
  attempt : Attempt

def commitStep (services : CheckpointServices) (s : State) (c : Commit) : Option State :=
  some (executePostCommitDerivation services c.head s c.attempt).1

namespace Commit

/-- The tree of the commit can be read, and the session has one. -/
def ReadsTrees (c : Commit) (sessionId : String) : Prop :=
  c.attempt.git.hasTree c.head = true ∧
    ∃ tree ∈ (c.attempt.sessions sessionId).latestTreeHash, isBlank tree = false

/-- The commit has the file with the content of the session. -/
def CommitsWithContent (c : Commit) (sessionId filePath : String) : Prop :=
  filePath ∈ c.attempt.committedFiles ∧
    ∃ tree ∈ (c.attempt.sessions sessionId).latestTreeHash,
      c.attempt.git.fileHashInTree tree filePath = c.attempt.git.fileHashInTree c.head filePath

/-- None of the files is one that the session deleted and the commit kept. -/
def KeepsNoDeleted (c : Commit) (sessionId : String) (filesTouched : List String) : Prop :=
  ∀ tree ∈ (c.attempt.sessions sessionId).latestTreeHash, ∀ filePath ∈ filesTouched,
    ¬ KeepsDeleted c.attempt.git tree c.head c.attempt.committedFiles filePath

instance (c : Commit) (sessionId : String) : Decidable (c.ReadsTrees sessionId) :=
  inferInstanceAs (Decidable (_ ∧ ∃ tree ∈ (c.attempt.sessions sessionId).latestTreeHash, _))

instance (c : Commit) (sessionId filePath : String) :
    Decidable (c.CommitsWithContent sessionId filePath) :=
  inferInstanceAs (Decidable (_ ∧ ∃ tree ∈ (c.attempt.sessions sessionId).latestTreeHash, _))

instance (git : GitTrees) (sessionTreeHash head : String) (committedFiles : List String)
    (filePath : String) :
    Decidable (KeepsDeleted git sessionTreeHash head committedFiles filePath) :=
  inferInstanceAs (Decidable (_ ∧ _ ∧ _ ∧ _))

instance (c : Commit) (sessionId : String) (filesTouched : List String) :
    Decidable (c.KeepsNoDeleted sessionId filesTouched) :=
  inferInstanceAs (Decidable (∀ tree ∈ (c.attempt.sessions sessionId).latestTreeHash, _))

end Commit

/-! ## What is stored of a turn -/

/-- Every row of the turn, and every queued change to it, is of the session, and its files and its
checkpoint are as stated. -/
structure EveryRecord (turnId sessionId : String) (P : List String → String → Prop) (w : World) :
    Prop where
  repository : ∀ row ∈ w.repository.turns.rows, row.turnId = turnId →
    row.sessionId = sessionId ∧ P row.filesModified row.checkpointId
  spool : ∀ row ∈ w.spool.tables.turns.rows, row.turnId = turnId →
    row.sessionId = sessionId ∧ P row.filesModified row.checkpointId
  queued : ∀ turn, InteractionMutation.upsertTurn turn ∈ w.spool.queue → turn.turnId = turnId →
    turn.sessionId = sessionId ∧ P turn.filesModified (turn.checkpointId.getD "")
  unassigned : ∀ turnIds checkpointId assignedAt,
    InteractionMutation.assignCheckpoint turnIds checkpointId assignedAt ∈ w.spool.queue →
      turnId ∉ turnIds

/-- The files that were touched, and no checkpoint. -/
def Untaken (filesTouched files : List String) (checkpointId : String) : Prop :=
  filesTouched ⊆ files ∧ checkpointId = ""

/-- A checkpoint means that every file is done. -/
def CheckpointMeans (Done : String → Prop) (filesTouched _files : List String)
    (checkpointId : String) : Prop :=
  checkpointId ≠ "" →
    ∀ filePath ∈ filesTouched, isInfrastructurePath filePath = false → Done filePath

/-- A file that is not done is still there, and a checkpoint means that every file is done. -/
structure Keeps (Done : String → Prop) (filesTouched files : List String) (checkpointId : String) :
    Prop where
  left : ∀ filePath ∈ filesTouched, isInfrastructurePath filePath = false →
    filePath ∈ files ∨ Done filePath
  settled : CheckpointMeans Done filesTouched files checkpointId

theorem EveryRecord.mono {turnId sessionId : String} {P Q : List String → String → Prop}
    {w : World} (h : EveryRecord turnId sessionId P w)
    (hPQ : ∀ files checkpointId, P files checkpointId → Q files checkpointId) :
    EveryRecord turnId sessionId Q w :=
  ⟨fun row hrow hid => (h.repository row hrow hid).imp_right (hPQ _ _),
    fun row hrow hid => (h.spool row hrow hid).imp_right (hPQ _ _),
    fun turn hturn hid => (h.queued turn hturn hid).imp_right (hPQ _ _), h.unassigned⟩

variable {Done : String → Prop} {files files' : List String} {checkpointId checkpointId' : String}

theorem Untaken.keeps (h : Untaken filesTouched files checkpointId) :
    Keeps Done filesTouched files checkpointId :=
  ⟨fun _ hfile _ => .inl (h.1 hfile), fun hne => absurd h.2 hne⟩

/-- The columns may come from two records. -/
theorem Keeps.mix (h : Keeps Done filesTouched files checkpointId)
    (h' : Keeps Done filesTouched files' checkpointId') :
    Keeps Done filesTouched files checkpointId' :=
  ⟨h.left, h'.settled⟩

/-! ## What an attempt does to it -/

variable {services : CheckpointServices} {c : Commit} {sources : PostCommitInteractionSources}
  {repoId turnId sessionId otherId : String} {turn : InteractionTurn}
  {turns : List InteractionTurn} {w w' : World} {s : State}

/-- What the turn may bring into a store. -/
def Brings (turnId sessionId : String) (P : List String → String → Prop)
    (turn : InteractionTurn) : Prop :=
  turn.turnId = turnId →
    turn.sessionId = sessionId ∧ P turn.filesModified (turn.checkpointId.getD "")

theorem keeps_mergeTurn {old excluded : TurnRow}
    (hold : Keeps Done filesTouched old.filesModified old.checkpointId)
    (hnew : Keeps Done filesTouched excluded.filesModified excluded.checkpointId) :
    Keeps Done filesTouched (mergeTurn old excluded).filesModified
      (mergeTurn old excluded).checkpointId := by
  simp only [mergeTurn, keepWhen]
  split_ifs
  · exact hold
  · exact hold.mix hnew
  · exact hnew.mix hold
  · exact hnew

theorem keeps_upsertLocalTurn {t t' : InteractionTables}
    (ht : ∀ row ∈ t.turns.rows, row.turnId = turnId →
      row.sessionId = sessionId ∧ Keeps Done filesTouched row.filesModified row.checkpointId)
    (hturn : Brings turnId sessionId (Keeps Done filesTouched) turn)
    (h : upsertLocalTurn repoId turn t = some t') :
    ∀ row ∈ t'.turns.rows, row.turnId = turnId →
      row.sessionId = sessionId ∧ Keeps Done filesTouched row.filesModified row.checkpointId := by
  obtain ⟨-, rfl⟩ := upsertLocalTurn_eq_some.mp h
  intro row hrow hid
  rcases UniqueTable.mem_upsert.mp hrow with rfl | ⟨hold, -⟩
  · cases hfound : findRow (·.turnId) (canonicalTurn repoId turn t).turnId t.turns.rows with
    | none =>
      rw [hfound] at hid
      exact hturn hid
    | some old =>
      rw [hfound] at hid
      obtain ⟨hmem, hsame⟩ := UniqueTable.findRow_eq_some.mp hfound
      have hid : turn.turnId = turnId := hid
      obtain ⟨hsession, hnew⟩ := hturn hid
      exact ⟨hsession, keeps_mergeTurn (ht old hmem (hsame.trans hid)).2 hnew⟩
  · exact ht row hold hid

theorem keeps_upsertTurn (h : EveryRecord turnId sessionId (Keeps Done filesTouched) w)
    (hturn : Brings turnId sessionId (Keeps Done filesTouched) turn)
    (hupsert : sources.upsertTurn repoId turn w = some w') :
    EveryRecord turnId sessionId (Keeps Done filesTouched) w' := by
  cases sources with
  | canonical hasSpool =>
    obtain ⟨repository, hstored, rfl⟩ := Option.map_eq_some_iff.mp hupsert
    obtain ⟨-, stored, hrow, rfl⟩ := DuckDb.upsertTurn_eq_some.mp hstored
    obtain rfl := turnRow_eq_some hrow
    refine ⟨fun row hmem hid => ?_, h.spool, h.queued, h.unassigned⟩
    rcases UniqueTable.mem_upsert.mp hmem with rfl | ⟨hold, -⟩
    · exact hturn hid
    · exact h.repository row hold hid
  | localSpool =>
    obtain ⟨spool, hrecorded, rfl⟩ := Option.map_eq_some_iff.mp hupsert
    obtain ⟨tables, hlocal, hspool⟩ := Option.bind_eq_some_iff.mp hrecorded
    obtain rfl := Option.some.inj hspool
    refine ⟨h.repository, keeps_upsertLocalTurn h.spool hturn hlocal, fun queued hm hid => ?_,
      fun turnIds checkpointId assignedAt hm => ?_⟩
    · rcases List.mem_append.mp hm with hm | hm
      · exact h.queued queued hm hid
      · obtain rfl := InteractionMutation.upsertTurn.inj (List.mem_singleton.mp hm)
        exact hturn hid
    · rcases List.mem_append.mp hm with hm | hm
      · exact h.unassigned turnIds checkpointId assignedAt hm
      · exact nomatch List.mem_singleton.mp hm

theorem keeps_refreshTurn (h : EveryRecord turnId sessionId (Keeps Done filesTouched) w)
    (hturn : Brings turnId sessionId (Keeps Done filesTouched) turn)
    (hrefresh : sources.refreshTurn repoId turn w = some w') :
    EveryRecord turnId sessionId (Keeps Done filesTouched) w' := by
  cases sources with
  | canonical hasSpool =>
    cases hasSpool with
    | false =>
      obtain rfl := Option.some.inj hrefresh
      exact h
    | true =>
      obtain ⟨spool, hrefreshed, rfl⟩ := Option.map_eq_some_iff.mp hrefresh
      obtain ⟨tables, hlocal, hspool⟩ := Option.bind_eq_some_iff.mp hrefreshed
      obtain rfl := Option.some.inj hspool
      exact ⟨h.repository, keeps_upsertLocalTurn h.spool hturn hlocal, h.queued, h.unassigned⟩
  | localSpool =>
    obtain rfl := Option.some.inj hrefresh
    exact h

theorem keeps_applyMutation {m : InteractionMutation} {r r' : InteractionTables}
    (h : EveryRecord turnId sessionId (Keeps Done filesTouched) w) (hm : m ∈ w.spool.queue)
    (hr : ∀ row ∈ r.turns.rows, row.turnId = turnId →
      row.sessionId = sessionId ∧ Keeps Done filesTouched row.filesModified row.checkpointId)
    (happly : DuckDb.applyMutation repoId m r = some r') :
    ∀ row ∈ r'.turns.rows, row.turnId = turnId →
      row.sessionId = sessionId ∧ Keeps Done filesTouched row.filesModified row.checkpointId := by
  intro row hrow hid
  cases m with
  | upsertSession session =>
    obtain ⟨-, rfl⟩ := DuckDb.upsertSession_eq_some.mp happly
    exact hr row hrow hid
  | upsertTurn turn =>
    obtain ⟨-, stored, hstored, rfl⟩ := DuckDb.upsertTurn_eq_some.mp happly
    obtain rfl := turnRow_eq_some hstored
    rcases UniqueTable.mem_upsert.mp hrow with rfl | ⟨hold, -⟩
    · exact h.queued turn hm hid
    · exact hr row hold hid
  | appendEvent event =>
    obtain ⟨-, rfl⟩ := DuckDb.appendEvent_eq_some.mp happly
    exact hr row hrow hid
  | assignCheckpoint turnIds checkpointId assignedAt =>
    obtain rfl := Option.some.inj happly
    have hother := h.unassigned turnIds checkpointId assignedAt hm
    simp only [DuckDb.assignCheckpointToTurns] at hrow
    split_ifs at hrow
    · exact hr row hrow hid
    · rw [assignTurns, UniqueTable.mem_modify] at hrow
      rcases hrow with ⟨hold, -⟩ | ⟨old, -, hassigned, rfl⟩
      · exact hr row hold hid
      · rw [TurnRow.turnId_assign] at hid
        exact absurd (hid ▸ of_decide_eq_true hassigned) hother

theorem keeps_flush (sources : PostCommitInteractionSources) (repoId : String) (a : Attempt)
    (h : EveryRecord turnId sessionId (Keeps Done filesTouched) w) :
    EveryRecord turnId sessionId (Keeps Done filesTouched) (sources.flush repoId a w).1 := by
  cases sources with
  | canonical hasSpool =>
    cases hasSpool with
    | false => exact h
    | true =>
      refine ⟨?_, h.spool, fun turn hm => h.queued turn (WriteBehind.mem_drain hm),
        fun turnIds checkpointId assignedAt hm =>
          h.unassigned turnIds checkpointId assignedAt (WriteBehind.mem_drain hm)⟩
      exact WriteBehind.drain_invariant
        (fun r : InteractionTables => ∀ row ∈ r.turns.rows, row.turnId = turnId →
          row.sessionId = sessionId ∧ Keeps Done filesTouched row.filesModified row.checkpointId)
        (fun m hm r r' hr happly => keeps_applyMutation h hm hr happly) h.repository
  | localSpool => exact h

/-! ## The progress of a turn -/

/-- The commit reads its trees, keeps no deleted file, and what it commits counts as done. -/
structure Counts (c : Commit) (sessionId : String) (filesTouched : List String)
    (Done : String → Prop) : Prop where
  reads : c.ReadsTrees sessionId
  keepsNoDeleted : c.KeepsNoDeleted sessionId filesTouched
  done : ∀ filePath, c.CommitsWithContent sessionId filePath → Done filePath

/-- A file of the turn is left, or it is done now. -/
theorem remaining_or_done (hcounts : Counts c sessionId filesTouched Done)
    (htouched : filePath ∈ filesTouched) (hpath : isInfrastructurePath filePath = false)
    (hfile : filePath ∈ files) :
    filePath ∈ filesWithRemainingAgentChangesFromTree c.attempt.git
        (c.attempt.sessions sessionId).latestTreeHash c.head files c.attempt.committedFiles ∨
      Done filePath := by
  obtain ⟨hhead, tree, htree, hblank⟩ := hcounts.reads
  have htree : (c.attempt.sessions sessionId).latestTreeHash = some tree := htree
  rw [htree, filesWithRemaining_of_trees hhead hblank, List.mem_filter]
  refine or_iff_not_imp_left.mpr fun hgone => hcounts.done filePath ?_
  have hexact := isRemaining_eq_iff.mpr (hcounts.keepsNoDeleted tree htree filePath htouched)
  have hremaining := Bool.eq_false_iff.mpr fun hleft => hgone ⟨hfile, hleft⟩
  rw [hexact, hpath, Bool.not_false, Bool.true_and, Bool.or_eq_false_iff, Bool.not_eq_false',
    List.contains_iff_mem, bne_eq_false_iff_eq] at hremaining
  exact ⟨hremaining.1, tree, htree, hremaining.2⟩

/-- What an attempt has listed of the turn: the files that are not done are still there. -/
def Lists (turnId sessionId : String) (Done : String → Prop) (filesTouched : List String)
    (turn : InteractionTurn) : Prop :=
  turn.turnId = turnId → turn.sessionId = sessionId ∧ ∀ filePath ∈ filesTouched,
    isInfrastructurePath filePath = false → filePath ∈ turn.filesModified ∨ Done filePath

/-- **The progress of a turn.**  Its files are replaced by those that are left, or all of them are
done and it gets the checkpoint. -/
theorem brings_progressedTurn (hcounts : Counts c sessionId filesTouched Done)
    (hlists : Lists turnId sessionId Done filesTouched turn) (hsession : turn.sessionId = otherId) :
    Brings turnId sessionId (Keeps Done filesTouched)
      (progressedTurn c.attempt c.head otherId turn) := by
  unfold progressedTurn updatedTurn Brings
  intro hid
  have hid : turn.turnId = turnId := by
    split_ifs at hid <;> exact hid
  obtain ⟨rfl, hleft⟩ := hlists hid
  obtain rfl := hsession
  have hremaining := fun filePath htouched hpath => (hleft filePath htouched hpath).elim
    (fun hfile => remaining_or_done hcounts htouched hpath hfile) .inr
  split_ifs with hempty
  · refine ⟨rfl, hleft, fun _ filePath htouched hpath => ?_⟩
    rw [List.isEmpty_iff.mp hempty] at hremaining
    exact (hremaining filePath htouched hpath).resolve_left List.not_mem_nil
  · exact ⟨rfl, hremaining, fun hne => absurd rfl hne⟩

theorem keeps_storeTurnProgress (hcounts : Counts c sessionId filesTouched Done)
    (hturns : ∀ turn ∈ turns,
      turn.sessionId = otherId ∧ Lists turnId sessionId Done filesTouched turn)
    (h : EveryRecord turnId sessionId (Keeps Done filesTouched) w) :
    EveryRecord turnId sessionId (Keeps Done filesTouched)
      (storeTurnProgress repoId c.attempt sources c.head otherId turns w).1 := by
  induction turns generalizing w with
  | nil => exact h
  | cons turn turns ih =>
    obtain ⟨hsession, hlists⟩ := hturns turn List.mem_cons_self
    have hbrings := brings_progressedTurn hcounts hlists hsession
    rcases storeTurnProgress_cases repoId c.attempt sources c.head otherId turn turns w with
      hresult | ⟨stored, hupsert, hresult | ⟨refreshed, hrefresh, hresult⟩⟩
    · rwa [hresult]
    · rw [hresult]
      exact keeps_upsertTurn h hbrings hupsert
    · rw [hresult]
      exact ih (fun turn hturn => hturns turn (List.mem_cons_of_mem _ hturn))
        (keeps_refreshTurn (keeps_upsertTurn h hbrings hupsert) hbrings hrefresh)

/-! ## The sessions of a commit -/

theorem world_condense (services : CheckpointServices) (a : Attempt)
    (session : InteractionSession) (turns : List InteractionTurn) (s : State) :
    (condenseInteractionSession services a session turns s).1.world = s.world := by
  unfold condenseInteractionSession
  split_ifs <;> rfl

theorem keeps_deriveSession (hcounts : Counts c sessionId filesTouched Done)
    (hturns : ∀ turn ∈ turns,
      turn.sessionId = otherId ∧ Lists turnId sessionId Done filesTouched turn)
    (h : EveryRecord turnId sessionId (Keeps Done filesTouched) s.world) :
    EveryRecord turnId sessionId (Keeps Done filesTouched)
      (deriveSession services c.attempt sources c.head otherId turns s).1.world := by
  unfold deriveSession
  split_ifs
  · exact h
  · cases sources.loadSession otherId s.world with
    | none => exact h
    | some session =>
      have hworld := world_condense services c.attempt session turns s
      dsimp only
      split_ifs
      · rwa [hworld]
      · exact keeps_storeTurnProgress hcounts hturns (hworld ▸ h)

theorem keeps_deriveSessions {sessions : List (String × List InteractionTurn)}
    (hcounts : Counts c sessionId filesTouched Done)
    (hturns : ∀ session ∈ sessions, ∀ turn ∈ session.2,
      turn.sessionId = session.1 ∧ Lists turnId sessionId Done filesTouched turn)
    (h : EveryRecord turnId sessionId (Keeps Done filesTouched) s.world) :
    EveryRecord turnId sessionId (Keeps Done filesTouched)
      (deriveSessions services c.attempt sources c.head sessions s).1.world := by
  induction sessions generalizing s with
  | nil => exact h
  | cons session sessions ih =>
    have hrest := fun other hother => hturns other (List.mem_cons_of_mem session hother)
    by_cases hcontributes : Contributes c.attempt session
    · have hkept : EveryRecord turnId sessionId (Keeps Done filesTouched)
          (deriveSession services c.attempt sources c.head session.1
            (contributingTurns c.attempt.committedFiles session.2) s).1.world := by
        refine keeps_deriveSession hcounts (fun turn hturn => ?_) h
        rw [contributingTurns, List.mem_filter, sortTurns, mem_orderBy] at hturn
        exact hturns session List.mem_cons_self turn hturn.1
      cases hderived : (deriveSession services c.attempt sources c.head session.1
        (contributingTurns c.attempt.committedFiles session.2) s).2 with
      | false =>
        rw [deriveSessions_of_failed hcontributes hderived]
        exact hkept
      | true =>
        rw [deriveSessions_of_derived hcontributes hderived]
        exact ih hrest hkept
    · rw [deriveSessions_skip hcontributes]
      exact ih hrest h

/-- The turns without a checkpoint are read from the records. -/
theorem lists_of_listed (h : EveryRecord turnId sessionId (Keeps Done filesTouched) w)
    (hturn : turn ∈ sources.listUncheckpointedTurns repoId w) :
    Lists turnId sessionId Done filesTouched turn := by
  intro hid
  cases sources with
  | canonical hasSpool =>
    obtain ⟨row, hrow, rfl⟩ := List.mem_map.mp hturn
    rw [uncheckpointedRows, mem_orderBy, List.mem_filter] at hrow
    exact (h.repository row hrow.1 hid).imp_right Keeps.left
  | localSpool =>
    obtain ⟨row, hrow, rfl⟩ := List.mem_map.mp hturn
    rw [uncheckpointedRows, mem_orderBy, List.mem_filter] at hrow
    exact (h.spool row hrow.1 hid).imp_right Keeps.left

theorem of_mem_turnsBySession {session : String × List InteractionTurn}
    (h : session ∈ turnsBySession turns) (hturn : turn ∈ session.2) :
    turn ∈ turns ∧ turn.sessionId = session.1 := by
  obtain ⟨sessionId, -, rfl⟩ := List.mem_map.mp h
  exact (List.mem_filter.mp hturn).imp_right of_decide_eq_true

theorem keeps_deriveFromSources (services : CheckpointServices)
    (sources : PostCommitInteractionSources) (hcounts : Counts c sessionId filesTouched Done)
    (h : EveryRecord turnId sessionId (Keeps Done filesTouched) s.world) :
    EveryRecord turnId sessionId (Keeps Done filesTouched)
      (derivePostCommitFromInteractionSources services c.attempt sources c.head s).1.world := by
  have hflushed := keeps_flush sources services.repoId c.attempt h
  unfold derivePostCommitFromInteractionSources
  dsimp only
  split_ifs
  · exact hflushed
  · exact hflushed
  · refine keeps_deriveSessions hcounts (fun session hsession turn hturn => ?_) hflushed
    obtain ⟨hlisted, hid⟩ := of_mem_turnsBySession hsession hturn
    exact ⟨hid, lists_of_listed hflushed hlisted⟩

/-- **One commit.** -/
theorem keeps_commitStep {s' : State} (hcounts : Counts c sessionId filesTouched Done)
    (h : EveryRecord turnId sessionId (Keeps Done filesTouched) s.world)
    (hstep : commitStep services s c = some s') :
    EveryRecord turnId sessionId (Keeps Done filesTouched) s'.world := by
  obtain rfl := Option.some.inj hstep
  unfold executePostCommitDerivation
  by_cases hread : c.attempt.mappingReadFails = true
  · rwa [if_pos hread]
  · rw [if_neg hread]
    by_cases hmapped : commitHasCheckpointMapping services.repoId c.head s = true
    · rwa [if_pos hmapped]
    · rw [if_neg hmapped]
      cases c.attempt.sources services.repoId s.world with
      | none => exact h
      | some sources =>
        have hderived := keeps_deriveFromSources services sources hcounts h
        dsimp only
        generalize derivePostCommitFromInteractionSources services c.attempt sources c.head s =
          derived at hderived ⊢
        obtain ⟨s', result⟩ := derived
        cases result with
        | none => exact hderived
        | some condensed =>
          cases condensed with
          | false => exact hderived
          | true =>
            dsimp only
            split_ifs <;> exact hderived

/-! ## A sequence of commits -/

/-- **A checkpoint means that every file has been committed.**  The commits read their trees, and
none of them keeps a file that the session deleted. -/
theorem committed_of_checkpoint {commits : List Commit} {s₀ : State}
    (hstart : EveryRecord turnId sessionId (Untaken filesTouched) s₀.world)
    (hreads : ∀ c ∈ commits, c.ReadsTrees sessionId)
    (hkeeps : ∀ c ∈ commits, c.KeepsNoDeleted sessionId filesTouched)
    (hrun : Run.exec (commitStep services) s₀ commits = some s) :
    EveryRecord turnId sessionId (CheckpointMeans
      (fun filePath => ∃ c ∈ commits, c.CommitsWithContent sessionId filePath) filesTouched)
      s.world := by
  have hkept := Run.exec_invariant_of_meets
    (fun s : State => EveryRecord turnId sessionId
      (Keeps (fun filePath => ∃ c ∈ commits, c.CommitsWithContent sessionId filePath) filesTouched)
      s.world)
    (fun s c s' h (hcommit : c ∈ commits) hstep => keeps_commitStep
      ⟨hreads c hcommit, hkeeps c hcommit, fun filePath hdone => ⟨c, hcommit, hdone⟩⟩ h hstep)
    (hstart.mono fun _ _ => Untaken.keeps) (Run.meets_of_forall_mem (fun _ h _ => h) s₀) hrun
  exact hkept.mono fun _ _ => Keeps.settled

/-- **When the remaining changes are exact**, for one commit; and what the files of a turn come to
over a sequence of commits that all meet the condition. -/
theorem remainingChanges_exact (git : GitTrees) (sessionTreeHash head : String)
    (filesTouched committedFiles : List String) (services : CheckpointServices)
    (turnId sessionId : String) (commits : List Commit) (s₀ s : State) :
    (git.hasTree head = true → isBlank sessionTreeHash = false →
      (filesWithRemainingAgentChangesFromTree git (some sessionTreeHash) head filesTouched
            committedFiles =
          exactRemaining git sessionTreeHash head filesTouched committedFiles ↔
        ∀ filePath ∈ filesTouched,
          ¬ KeepsDeleted git sessionTreeHash head committedFiles filePath)) ∧
      (EveryRecord turnId sessionId (Untaken filesTouched) s₀.world →
        (∀ c ∈ commits, c.ReadsTrees sessionId) →
          (∀ c ∈ commits, c.KeepsNoDeleted sessionId filesTouched) →
            Run.exec (commitStep services) s₀ commits = some s →
              EveryRecord turnId sessionId (CheckpointMeans
                (fun filePath => ∃ c ∈ commits, c.CommitsWithContent sessionId filePath)
                filesTouched) s.world) :=
  ⟨filesWithRemaining_eq_exactRemaining_iff, committed_of_checkpoint⟩

/-! ## A file that the session deleted -/

/-- The session has changed the file, and a commit takes it as it is. -/
def wholeCommit : Commit where
  head := "head"
  attempt := { firstAttempt with
    git := { hasTree := fun _ => true, fileHashInTree := fun _ _ => some "content" }
    sessions := fun _ => { latestTreeHash := some "session tree" } }

/-- The session has deleted the file, and a commit changes it. -/
def keptDeletion : Commit where
  head := "head"
  attempt := { firstAttempt with
    git :=
      { hasTree := fun _ => true
        fileHashInTree := fun tree _ => if tree = "head" then some "content" else none }
    sessions := fun _ => { latestTreeHash := some "session tree" } }

theorem untaken_sampleState :
    EveryRecord "turn" "session" (Untaken ["src/parser.rs"]) sampleState.world := by
  refine ⟨fun row hrow _ => ?_, fun _ h => absurd h List.not_mem_nil,
    fun _ h => absurd h List.not_mem_nil, fun _ _ _ h => absurd h List.not_mem_nil⟩
  obtain rfl : row = sampleTurn := List.mem_singleton.mp hrow
  exact ⟨rfl, List.Subset.refl _, rfl⟩

theorem wholeCommit_exact :
    (filesWithRemainingAgentChangesFromTree wholeCommit.attempt.git (some "session tree") "head"
          ["src/parser.rs"] ["src/parser.rs"] =
        exactRemaining wholeCommit.attempt.git "session tree" "head" ["src/parser.rs"]
          ["src/parser.rs"]) ∧
      ∃ s, Run.exec (commitStep sampleServices) sampleState [wholeCommit] = some s ∧
        EveryRecord "turn" "session" (CheckpointMeans
          (fun filePath => ∃ c ∈ [wholeCommit], c.CommitsWithContent "session" filePath)
          ["src/parser.rs"]) s.world ∧
        ∃ row ∈ s.world.repository.turns.rows, row.checkpointId = "0123456789ab" := by
  have hreads : ∀ c ∈ [wholeCommit], c.ReadsTrees "session" := by decide
  have hkeeps : ∀ c ∈ [wholeCommit], c.KeepsNoDeleted "session" ["src/parser.rs"] := by
    decide
  obtain ⟨hexact, hrun⟩ := remainingChanges_exact wholeCommit.attempt.git "session tree" "head"
    ["src/parser.rs"] ["src/parser.rs"] sampleServices "turn" "session" [wholeCommit] sampleState
    (executePostCommitDerivation sampleServices "head" sampleState wholeCommit.attempt).1
  exact ⟨(hexact rfl (by decide)).mpr (by decide), _, rfl,
    hrun untaken_sampleState hreads hkeeps rfl, by decide⟩

/-- **A file is lost.**  The commit has the file that the session deleted, so the file is left; the
function drops it, and its turn gets the checkpoint. -/
theorem keptDeletion_not_exact :
    (filesWithRemainingAgentChangesFromTree keptDeletion.attempt.git (some "session tree") "head"
          ["src/parser.rs"] ["src/parser.rs"] = [] ∧
        exactRemaining keptDeletion.attempt.git "session tree" "head" ["src/parser.rs"]
          ["src/parser.rs"] = ["src/parser.rs"]) ∧
      ∃ s, Run.exec (commitStep sampleServices) sampleState [keptDeletion] = some s ∧
        ¬ EveryRecord "turn" "session" (CheckpointMeans
          (fun filePath => ∃ c ∈ [keptDeletion], c.CommitsWithContent "session" filePath)
          ["src/parser.rs"]) s.world := by
  refine ⟨by decide, _, rfl, fun h => ?_⟩
  have hrow : ∃ row ∈ (executePostCommitDerivation sampleServices "head" sampleState
      keptDeletion.attempt).1.world.repository.turns.rows,
      row.turnId = "turn" ∧ row.checkpointId ≠ "" := by decide
  obtain ⟨row, hrow, hid, hcheckpoint⟩ := hrow
  have hdone := (h.repository row hrow hid).2 hcheckpoint "src/parser.rs" List.mem_cons_self
    (by decide)
  exact absurd hdone (by decide)

end PostCommit
end Bitloops
