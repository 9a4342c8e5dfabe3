import Bitloops.SessionLifecycle.World

/-!
# Coherence of the session state

`Coherently` says of a step that the end time is set exactly in an ended session, that an
auxiliary session stays auxiliary, that the start time stays, and that no two turns start with
one turn id.  The manual strategy breaks the first three and the automatic one breaks the last:
`Careful` is the exact condition on an event.
-/

namespace Bitloops
namespace SessionLifecycle

open Interactions

/-- What a step keeps of the session state. -/
structure Coherently (s s' : World) : Prop where
  coherent : ∀ state ∈ s'.host.session, state.Coherent
  isAuxiliary : ∀ state ∈ s.host.session, state.isAuxiliary = true →
    s'.host.session.map (·.isAuxiliary) = some true
  startedAt : ∀ state ∈ s.host.session, isBlank state.startedAt = false →
    s'.host.session.map (·.startedAt) = some state.startedAt
  turnIds : s'.openedTurns.Nodup

instance (s s' : World) : Decidable (Coherently s s') :=
  decidable_of_iff
    ((∀ state ∈ s'.host.session, state.Coherent) ∧
      (∀ state ∈ s.host.session, state.isAuxiliary = true →
        s'.host.session.map (·.isAuxiliary) = some true) ∧
      (∀ state ∈ s.host.session, isBlank state.startedAt = false →
        s'.host.session.map (·.startedAt) = some state.startedAt) ∧ s'.openedTurns.Nodup)
    ⟨fun ⟨h₁, h₂, h₃, h₄⟩ => ⟨h₁, h₂, h₃, h₄⟩, fun ⟨h₁, h₂, h₃, h₄⟩ => ⟨h₁, h₂, h₃, h₄⟩⟩

/-! ## The condition -/

/-- The files that the end of the turn finds changed, if its transcript can be read. -/
def closedTurnFiles (env : Environment) (event : LifecycleEvent) (s : Host) : List String :=
  if endsTurn event s then
    ((turnEndTranscript env event s).map fun transcript =>
      turnEndFiles env s transcript.1 (resolveTranscriptOffset s.prePrompt)).getD []
  else []

/-- The strategy looks for the base commit of the session. -/
def asksForBase (d : Dispatch) (s : Host) : Bool :=
  d.env.strategy = .manualCommit &&
    match d.event.eventType with
    | .turnStart => opensTurn d.event s
    | .turnEnd | .sessionEnd => !(closedTurnFiles d.env d.event s).isEmpty
    | .subagentEnd => !d.env.taskChanges.all.isEmpty
    | .todoCheckpoint =>
      d.env.activePreTask && !d.env.onDefaultBranch && !d.env.taskChanges.all.isEmpty
    | _ => false

/-- The handler sets the flag of the session again after the strategy gave its state up. -/
def restoresAuxiliary (event : LifecycleEvent) : Bool :=
  match event.eventType with
  | .turnEnd | .sessionEnd => true
  | .turnStart => event.isAuxiliary
  | _ => false

/-- The stored state comes through the event. -/
structure CarefulWith (d : Dispatch) (s : World) (state : SessionState) : Prop where
  /-- The manual strategy starts no turn in an ended session that has a base commit. -/
  notEnded : opensTurn d.event s.host = true → d.env.strategy = .manualCommit →
    state.baseCommit ≠ "" → state.endedAt = none
  /-- A state without a base commit that the strategy gives up was started just now. -/
  startedAt : asksForBase d s.host = true → state.baseCommit = "" →
    isBlank state.startedAt = false → state.startedAt = d.env.now
  /-- A state without a base commit that the strategy gives up is auxiliary again in the end. -/
  isAuxiliary : asksForBase d s.host = true → state.baseCommit = "" →
    state.isAuxiliary = true → restoresAuxiliary d.event = true
  /-- The automatic strategy starts no turn in a session that still has the id of one. -/
  turnId : opensTurn d.event s.host = true → d.env.strategy = .autoCommit →
    isBlank state.turnId = false → state.turnId ∉ s.openedTurns

/-- The stored state, if there is one, comes through the event. -/
def Careful (s : World) (d : Dispatch) : Prop :=
  ∀ state ∈ s.host.session, CarefulWith d s state

/-! ## The strategies -/

/-- The fields that `Coherently` looks at. -/
structure SameLifecycle (state state' : SessionState) : Prop where
  phase : state'.phase = state.phase
  endedAt : state'.endedAt = state.endedAt
  startedAt : state'.startedAt = state.startedAt
  isAuxiliary : state'.isAuxiliary = state.isAuxiliary

theorem SameLifecycle.coherent {state state' : SessionState} (h : SameLifecycle state state')
    (hcoherent : state.Coherent) : state'.Coherent := by
  unfold SessionState.Coherent at hcoherent ⊢
  rw [h.phase, h.endedAt]
  exact hcoherent

section Strategies

variable {w : Workspace} {readers : TranscriptReaders} {env : Environment}
  {event : LifecycleEvent} {path : String} {files : List String} {state : SessionState}

theorem stepSession_of_known (h : state.baseCommit ≠ "") :
    stepSession w env path (some state) = state := by
  simp [stepSession, Option.filter, h]

/-- A state without a base commit is given up. -/
theorem stepSession_of_unknown (w : Workspace) (env : Environment) (path : String)
    {session : Option SessionState} (h : ∀ state ∈ session, state.baseCommit = "") :
    (stepSession w env path session).Coherent ∧
      (stepSession w env path session).startedAt = env.now ∧
      (stepSession w env path session).isAuxiliary = false := by
  have hfilter : session.filter (·.baseCommit ≠ "") = none := by
    rw [Option.filter_eq_none_iff]
    intro state hstate
    simp [h state hstate]
  rw [stepSession, hfilter]
  exact ⟨by simp [SessionState.Coherent], rfl, rfl⟩

/-- A strategy operation that saves a step: the manual strategy saves over `stepSession`, and the
automatic one leaves the session alone. -/
structure SavesStep (w : Workspace) (env : Environment) (path : String)
    (save : Option SessionState → Option SessionState) : Prop where
  manual : env.strategy = .manualCommit → ∀ session, ∃ saved, save session = some saved ∧
    SameLifecycle (stepSession w env path session) saved
  auto : env.strategy = .autoCommit → ∀ session, save session = session

theorem savesStep_saveStep (w : Workspace) (env : Environment) (path : String)
    (files : List String) : SavesStep w env path (saveStep w env path files) where
  manual h session := by
    unfold saveStep
    rw [h]
    dsimp only
    split_ifs <;> exact ⟨_, rfl, rfl, rfl, rfl, rfl⟩
  auto h session := by
    unfold saveStep
    rw [h]

theorem savesStep_saveTaskStep (w : Workspace) (env : Environment) (path : String)
    (files : List String) : SavesStep w env path (saveTaskStep w env path files) where
  manual h session := by
    unfold saveTaskStep
    rw [h]
    exact ⟨_, rfl, rfl, rfl, rfl, rfl⟩
  auto h session := by
    unfold saveTaskStep
    rw [h]

/-- The strategy gives the state up. -/
def GivesUp (env : Environment) (state : SessionState) : Prop :=
  env.strategy = .manualCommit ∧ state.baseCommit = ""

instance : Decidable (GivesUp env state) := inferInstanceAs (Decidable (_ ∧ _))

/-- What a saved step leaves of a stored state. -/
structure SavedOver (env : Environment) (state saved : SessionState) : Prop where
  coherent : saved.Coherent
  startedAt : saved.startedAt = if GivesUp env state then env.now else state.startedAt
  isAuxiliary : saved.isAuxiliary = if GivesUp env state then false else state.isAuxiliary

variable {save : Option SessionState → Option SessionState}

theorem SavesStep.savedOver (h : SavesStep w env path save) (hcoherent : state.Coherent) :
    ∃ saved, save (some state) = some saved ∧ SavedOver env state saved := by
  cases hstrategy : env.strategy with
  | manualCommit =>
    obtain ⟨saved, hsaved, hsame⟩ := h.manual hstrategy (some state)
    refine ⟨saved, hsaved, ?_⟩
    by_cases hbase : state.baseCommit = ""
    · have hgives : GivesUp env state := ⟨hstrategy, hbase⟩
      have hunknown : ∀ state' ∈ some state, state'.baseCommit = "" :=
        fun _ h => Option.some.inj h ▸ hbase
      obtain ⟨hnew, hstarted, haux⟩ := stepSession_of_unknown w env path hunknown
      exact ⟨hsame.coherent hnew, by rw [if_pos hgives, hsame.startedAt, hstarted],
        by rw [if_pos hgives, hsame.isAuxiliary, haux]⟩
    · have hkeeps : ¬ GivesUp env state := fun h => hbase h.2
      rw [stepSession_of_known hbase] at hsame
      exact ⟨hsame.coherent hcoherent, by rw [if_neg hkeeps, hsame.startedAt],
        by rw [if_neg hkeeps, hsame.isAuxiliary]⟩
  | autoCommit =>
    have hkeeps : ¬ GivesUp env state := fun h => nomatch hstrategy.symm.trans h.1
    exact ⟨state, h.auto hstrategy _, hcoherent, (if_neg hkeeps).symm, (if_neg hkeeps).symm⟩

/-- A step that is saved without a session leaves a coherent one, if any. -/
theorem SavesStep.coherent_of_none (h : SavesStep w env path save) :
    ∀ saved ∈ save none, saved.Coherent := by
  intro saved hsaved
  cases hstrategy : env.strategy with
  | manualCommit =>
    obtain ⟨saved', hsaved', hsame⟩ := h.manual hstrategy none
    obtain rfl := Option.some.inj (hsaved'.symm.trans hsaved)
    have hunknown : ∀ state ∈ (none : Option SessionState), state.baseCommit = "" := by simp
    exact hsame.coherent (stepSession_of_unknown w env path hunknown).1
  | autoCommit =>
    rw [h.auto hstrategy] at hsaved
    exact nomatch hsaved

/-! ## The end of a turn -/

theorem steppedSession_of_none {s : Host} (h : s.session = none) :
    ∀ saved ∈ steppedSession w env s path, saved.Coherent := by
  unfold steppedSession
  dsimp only
  rw [h]
  split_ifs
  · exact fun _ h => nomatch h
  · exact (savesStep_saveStep w env path _).coherent_of_none

/-- What the end of a turn leaves of a stored state. -/
theorem turnEndSession_some (w : Workspace) (env : Environment) (event : LifecycleEvent)
    (path : String) {s : Host} (h : s.session = some state) (hcoherent : state.Coherent) :
    ∃ after, turnEndSession w env event s path = some after ∧ after.Coherent ∧
      after.isAuxiliary = (state.isAuxiliary || event.isAuxiliary) ∧
      after.startedAt =
        if GivesUp env state ∧
            turnEndFiles env s path (resolveTranscriptOffset s.prePrompt) ≠ [] then env.now
        else state.startedAt := by
  have haux : turnEndAuxiliary event s = (state.isAuxiliary || event.isAuxiliary) := by
    rw [turnEndAuxiliary, h]
    rfl
  obtain ⟨stepped, hstepped, hcoherent', hstarted⟩ :
      ∃ stepped, steppedSession w env s path = some stepped ∧ stepped.Coherent ∧
        stepped.startedAt =
          if GivesUp env state ∧
              turnEndFiles env s path (resolveTranscriptOffset s.prePrompt) ≠ [] then env.now
          else state.startedAt := by
    unfold steppedSession
    dsimp only
    by_cases hfiles : turnEndFiles env s path (resolveTranscriptOffset s.prePrompt) = []
    · rw [if_pos hfiles, h]
      exact ⟨state, rfl, hcoherent, by rw [if_neg fun hand => hand.2 hfiles]⟩
    · obtain ⟨saved, hsaved, hover⟩ := (savesStep_saveStep w env path
        (turnEndFiles env s path (resolveTranscriptOffset s.prePrompt))).savedOver hcoherent
      rw [if_neg hfiles, h]
      exact ⟨saved, hsaved, hover.coherent, by simp [hover.startedAt, hfiles]⟩
  refine ⟨_, by rw [turnEndSession, hstepped]; rfl, ?_, haux, ?_⟩
  · exact hcoherent'.transition env.now .turnEnd (by decide) stepped.transitionContext
  · exact (SessionState.sameRecord_transition env.now .turnEnd _ stepped).startedAt.trans hstarted

end Strategies

/-! ## Events that open no turn -/

section Events

variable {w : Workspace} {readers : TranscriptReaders} {d : Dispatch} {s host : Host}
  {state after : SessionState}

/-- What an event leaves of a stored state, apart from the turn id: the state stays coherent, and
it keeps its flag and its start time just when `CarefulWith` says so. -/
structure Kept (d : Dispatch) (s : Host) (state after : SessionState) : Prop where
  coherent : after.Coherent
  isAuxiliary : state.isAuxiliary = true → (after.isAuxiliary = true ↔
    (asksForBase d s = true → state.baseCommit = "" → restoresAuxiliary d.event = true))
  startedAt : isBlank state.startedAt = false → (after.startedAt = state.startedAt ↔
    (asksForBase d s = true → state.baseCommit = "" → state.startedAt = d.env.now))

/-- An event that does not ask for the base commit and only adds to the state. -/
theorem Kept.of_notAsked (hasks : asksForBase d s = false) (hcoherent : after.Coherent)
    (haux : state.isAuxiliary = true → after.isAuxiliary = true)
    (hstarted : isBlank state.startedAt = false → after.startedAt = state.startedAt) :
    Kept d s state after where
  coherent := hcoherent
  isAuxiliary h := by simp [haux h, hasks]
  startedAt h := by simp [hstarted h, hasks]

theorem Kept.of_sameLifecycle (hasks : asksForBase d s = false) (hcoherent : state.Coherent)
    (h : SameLifecycle state after) : Kept d s state after :=
  .of_notAsked hasks (h.coherent hcoherent) (fun haux => h.isAuxiliary.trans haux)
    fun _ => h.startedAt

theorem sameLifecycle_touch (now : String) (state : SessionState) :
    SameLifecycle state { state with lastInteractionTime := some now } :=
  ⟨rfl, rfl, rfl, rfl⟩

/-- A state that was saved over is kept if the event asked for the base commit. -/
theorem Kept.of_savedOver (hasks : asksForBase d s = true)
    (hmanual : restoresAuxiliary d.event = false) (h : SavedOver d.env state after) :
    Kept d s state after where
  coherent := h.coherent
  isAuxiliary haux := by
    have hstrategy : d.env.strategy = .manualCommit := by
      simpa using (Bool.and_eq_true_iff.mp hasks).1
    rw [h.isAuxiliary, hmanual]
    simp [GivesUp, hstrategy, hasks, haux]
  startedAt _ := by
    have hstrategy : d.env.strategy = .manualCommit := by
      simpa using (Bool.and_eq_true_iff.mp hasks).1
    rw [h.startedAt]
    by_cases hbase : state.baseCommit = "" <;> simp [GivesUp, hstrategy, hasks, hbase, eq_comm]

theorem kept_sessionStart (htype : d.event.eventType = .sessionStart)
    (hs : s.session = some state) (hcoherent : state.Coherent) :
    Kept d s state (startedSession w d.env d.event s) := by
  have hasks : asksForBase d s = false := by simp [asksForBase, htype]
  have hrecord := SessionState.sameRecord_transition d.env.now .sessionStart {} state
  have hstate : s.session.getD { sessionId := w.sessionId } = state := by rw [hs]; rfl
  refine .of_notAsked hasks ?_ ?_ ?_
  · have h := hcoherent.transition d.env.now .sessionStart (by decide) {}
    rw [← hstate] at h
    exact h
  · intro haux
    simp [startedSession, hstate, hrecord.isAuxiliary, haux]
  · intro hstarted
    simp [startedSession, hstate, hrecord.startedAt, unlessBlank, hstarted]

theorem kept_compaction (htype : d.event.eventType = .compaction) (hs : s.session = some state)
    (hcoherent : state.Coherent) :
    ∃ after, (handleCompaction d.env s).session = some after ∧ Kept d s state after := by
  have hasks : asksForBase d s = false := by simp [asksForBase, htype]
  have hrecord :=
    SessionState.sameRecord_transition d.env.now .compaction state.transitionContext state
  refine ⟨_, by rw [handleCompaction, hs]; rfl, .of_notAsked hasks ?_ ?_ ?_⟩
  · exact hcoherent.transition d.env.now .compaction (by decide) state.transitionContext
  · exact fun haux => hrecord.isAuxiliary.trans haux
  · exact fun _ => hrecord.startedAt

theorem session_touchSession (h : s.session = some state) :
    (touchSession d.env s).session =
      some { state with lastInteractionTime := some d.env.now } := by
  rw [touchSession, h]
  rfl

theorem kept_touchSession (hasks : asksForBase d s = false) (hs : s.session = some state)
    (hcoherent : state.Coherent) :
    ∃ after, (touchSession d.env s).session = some after ∧ Kept d s state after :=
  ⟨_, session_touchSession hs, .of_sameLifecycle hasks hcoherent (sameLifecycle_touch _ _)⟩

/-- An event that leaves the state as it is. -/
theorem Kept.refl (hasks : asksForBase d s = false) (hcoherent : state.Coherent) :
    Kept d s state state :=
  .of_sameLifecycle hasks hcoherent ⟨rfl, rfl, rfl, rfl⟩

theorem kept_toolEvent (hasks : asksForBase d s = false) (hs : s.session = some state)
    (hcoherent : state.Coherent) :
    ∃ after, (handleToolEvent d.env d.event s).session = some after ∧ Kept d s state after := by
  unfold handleToolEvent
  split_ifs
  · exact ⟨state, hs, .refl hasks hcoherent⟩
  · exact kept_touchSession hasks hs hcoherent

/-- A step that is saved for a task, with the session touched after it. -/
theorem kept_saveTaskStep (hmanual : restoresAuxiliary d.event = false)
    (hasks : asksForBase d s = decide (d.env.strategy = .manualCommit))
    (hs : s.session = some state) (hcoherent : state.Coherent) :
    ∃ after,
      (touchSession d.env
        { s with
          session := saveTaskStep w d.env d.event.sessionRef d.env.taskChanges.all
            s.session }).session = some after ∧ Kept d s state after := by
  obtain ⟨saved, hsaved, hover⟩ := (savesStep_saveTaskStep w d.env d.event.sessionRef
    d.env.taskChanges.all).savedOver hcoherent
  rw [hs, hsaved]
  refine ⟨_, session_touchSession rfl, ?_⟩
  have htouched : SavedOver d.env state
      { saved with lastInteractionTime := some d.env.now } :=
    ⟨(sameLifecycle_touch d.env.now saved).coherent hover.coherent, hover.startedAt,
      hover.isAuxiliary⟩
  cases hstrategy : d.env.strategy with
  | manualCommit => exact .of_savedOver (by rw [hasks, hstrategy]; rfl) hmanual htouched
  | autoCommit =>
    have hkeeps : ¬ GivesUp d.env state := fun h => nomatch hstrategy.symm.trans h.1
    refine .of_notAsked (by rw [hasks, hstrategy]; rfl) htouched.coherent ?_ ?_
    · exact fun haux => by rw [htouched.isAuxiliary, if_neg hkeeps, haux]
    · exact fun _ => by rw [htouched.startedAt, if_neg hkeeps]

theorem kept_subagentEnd (htype : d.event.eventType = .subagentEnd)
    (hs : s.session = some state) (hcoherent : state.Coherent) :
    ∃ after, (handleSubagentEnd w d.env d.event s).session = some after ∧
      Kept d s state after := by
  unfold handleSubagentEnd
  by_cases hchanges : d.env.taskChanges.all = []
  · have hasks : asksForBase d s = false := by simp [asksForBase, htype, hchanges]
    simp only [hchanges, if_true]
    exact kept_touchSession hasks hs hcoherent
  · have hasks : asksForBase d s = decide (d.env.strategy = .manualCommit) := by
      simp [asksForBase, htype, hchanges]
    simp only [hchanges, if_false]
    exact kept_saveTaskStep (by rw [restoresAuxiliary, htype]) hasks hs hcoherent

theorem kept_todoCheckpoint (htype : d.event.eventType = .todoCheckpoint)
    (hs : s.session = some state) (hcoherent : state.Coherent) :
    ∃ after, (handleTodoCheckpoint w d.env d.event s).session = some after ∧
      Kept d s state after := by
  unfold handleTodoCheckpoint
  split_ifs with hskip
  · have hasks : asksForBase d s = false := by
      simp only [Bool.or_eq_true, Bool.not_eq_true', decide_eq_true_eq] at hskip
      rcases hskip with (hskip | hskip) | hskip <;> simp [asksForBase, htype, hskip]
    exact ⟨state, hs, .refl hasks hcoherent⟩
  · have hasks : asksForBase d s = decide (d.env.strategy = .manualCommit) := by
      simp only [Bool.or_eq_true, Bool.not_eq_true', decide_eq_true_eq, not_or,
        Bool.not_eq_false, Bool.not_eq_true] at hskip
      simp [asksForBase, htype, hskip]
    exact kept_saveTaskStep (by rw [restoresAuxiliary, htype]) hasks hs hcoherent

/-- What the end of a turn leaves, whichever event it is part of. -/
theorem kept_endedTurn (htype : restoresAuxiliary d.event = true ∧
      d.event.eventType ≠ .turnStart)
    (hasks : asksForBase d s = (decide (d.env.strategy = .manualCommit) &&
      !(closedTurnFiles d.env d.event s).isEmpty))
    (h : EndedTurn w readers d.env d.event s host) (hs : s.session = some state)
    (hcoherent : state.Coherent) :
    ∃ after, host.session = some after ∧ Kept d s state after := by
  rcases h with ⟨hends, rfl⟩ | ⟨transcriptRef, data, hends, ht, rfl⟩
  · have hfiles : closedTurnFiles d.env d.event host = [] := by simp [closedTurnFiles, hends]
    exact ⟨state, hs, .refl (by simp [hasks, hfiles]) hcoherent⟩
  · obtain ⟨after, hafter, hcoherent', haux, hstarted⟩ :=
      turnEndSession_some w d.env d.event transcriptRef hs hcoherent
    have hfiles : closedTurnFiles d.env d.event s =
        turnEndFiles d.env s transcriptRef (resolveTranscriptOffset s.prePrompt) := by
      simp [closedTurnFiles, hends, ht]
    refine ⟨after, hafter, hcoherent', ?_, ?_⟩
    · intro h
      simp [haux, h, htype.1]
    · intro _
      have hiff : (asksForBase d s = true ∧ state.baseCommit = "") ↔ GivesUp d.env state ∧
          turnEndFiles d.env s transcriptRef (resolveTranscriptOffset s.prePrompt) ≠ [] := by
        rw [hasks, hfiles, Bool.and_eq_true, decide_eq_true_eq, Bool.not_eq_true',
          List.isEmpty_eq_false_iff, GivesUp]
        exact and_right_comm
      rw [hstarted, ← and_imp, hiff]
      split_ifs with hgives
      · exact ⟨fun h _ => h.symm, fun h => (h hgives).symm⟩
      · exact ⟨fun _ h => absurd h hgives, fun _ => rfl⟩

theorem session_stopSession (h : s.session = some state) :
    ∃ after, (stopSession w d.env d.event s).session = some after ∧ after.Coherent ∧
      after.isAuxiliary = (state.isAuxiliary || d.event.isAuxiliary) ∧
      after.startedAt = state.startedAt := by
  refine ⟨_, by rw [stopSession, h]; rfl, ?_, ?_, ?_⟩
  · simp [SessionState.Coherent, SessionState.phase_transition_sessionStop]
  · simp [turnEndAuxiliary, h]
  · exact (SessionState.sameRecord_transition d.env.now .sessionStop _ state).startedAt

theorem kept_sessionEnd (htype : d.event.eventType = .sessionEnd)
    (h : handleSessionEnd w readers d.env d.event s = some host) (hs : s.session = some state)
    (hcoherent : state.Coherent) :
    ∃ after, host.session = some after ∧ Kept d s state after := by
  obtain ⟨finalized, hfinalized, rfl⟩ := Option.map_eq_some_iff.mp h
  have hrestores : restoresAuxiliary d.event = true := by rw [restoresAuxiliary, htype]
  have hasks : asksForBase d s = (decide (d.env.strategy = .manualCommit) &&
      !(closedTurnFiles d.env d.event s).isEmpty) := by simp [asksForBase, htype]
  obtain ⟨ended, hended, hkept⟩ := kept_endedTurn ⟨hrestores, by simp [htype]⟩ hasks
    (endedTurn_finalizeOpenTurn htype hfinalized) hs hcoherent
  obtain ⟨after, hafter, hcoherent', haux, hstarted⟩ := session_stopSession (w := w) hended
  refine ⟨after, hafter, hcoherent', ?_, ?_⟩
  · intro hstate
    have hendedAux := (hkept.isAuxiliary hstate).mpr fun _ _ => hrestores
    simp [haux, hendedAux, hrestores]
  · intro hstate
    rw [hstarted]
    exact hkept.startedAt hstate

theorem kept_turnEnd (htype : d.event.eventType = .turnEnd)
    (h : handleTurnEnd w readers d.env d.event s = some host) (hs : s.session = some state)
    (hcoherent : state.Coherent) :
    ∃ after, host.session = some after ∧ Kept d s state after := by
  have hrestores : restoresAuxiliary d.event = true := by rw [restoresAuxiliary, htype]
  have hasks : asksForBase d s = (decide (d.env.strategy = .manualCommit) &&
      !(closedTurnFiles d.env d.event s).isEmpty) := by simp [asksForBase, htype]
  exact kept_endedTurn ⟨hrestores, by simp [htype]⟩ hasks (endedTurn_turnEnd htype h) hs
    hcoherent

/-- **Events that open no turn.**  Whatever they leave of a stored state is kept. -/
theorem kept_of_not_opensTurn (hopens : opensTurn d.event s = false)
    (h : dispatchLifecycleEvent w readers d.env d.event s = some host)
    (hs : s.session = some state) (hcoherent : state.Coherent) :
    ∃ after, host.session = some after ∧ Kept d s state after := by
  unfold dispatchLifecycleEvent at h
  cases htype : d.event.eventType with
  | sessionStart =>
    rw [htype] at h
    obtain rfl := Option.some.inj h
    exact ⟨_, rfl, kept_sessionStart htype hs hcoherent⟩
  | turnStart =>
    rw [htype] at h
    obtain rfl := Option.some.inj h
    have hskip : skipsTurnStart d.event s = true := by simpa [opensTurn, htype] using hopens
    have hasks : asksForBase d s = false := by simp [asksForBase, htype, hopens]
    exact ⟨state, by rw [handleTurnStart, if_pos hskip, hs], .refl hasks hcoherent⟩
  | turnEnd =>
    rw [htype] at h
    exact kept_turnEnd htype h hs hcoherent
  | compaction =>
    rw [htype] at h
    obtain rfl := Option.some.inj h
    exact kept_compaction htype hs hcoherent
  | sessionEnd =>
    rw [htype] at h
    exact kept_sessionEnd htype h hs hcoherent
  | toolInvocationObserved | toolResultObserved =>
    rw [htype] at h
    obtain rfl := Option.some.inj h
    exact kept_toolEvent (by simp [asksForBase, htype]) hs hcoherent
  | subagentStart =>
    rw [htype] at h
    obtain rfl := Option.some.inj h
    exact kept_touchSession (by simp [asksForBase, htype]) hs hcoherent
  | subagentEnd =>
    rw [htype] at h
    obtain rfl := Option.some.inj h
    exact kept_subagentEnd htype hs hcoherent
  | todoCheckpoint =>
    rw [htype] at h
    obtain rfl := Option.some.inj h
    exact kept_todoCheckpoint htype hs hcoherent

/-! ## Events without a stored state -/

theorem coherent_touchSession (h : ∀ state ∈ s.session, state.Coherent) :
    ∀ state ∈ (touchSession d.env s).session, state.Coherent := by
  intro after hafter
  obtain ⟨state, hstate, rfl⟩ := Option.map_eq_some_iff.mp hafter
  exact (sameLifecycle_touch _ _).coherent (h state hstate)

theorem coherent_stopSession :
    ∀ state ∈ (stopSession w d.env d.event s).session, state.Coherent := by
  intro after hafter
  obtain ⟨state, -, rfl⟩ := Option.map_eq_some_iff.mp hafter
  simp [SessionState.Coherent, SessionState.phase_transition_sessionStop]

theorem coherent_endedTurn_of_none (h : EndedTurn w readers d.env d.event s host)
    (hs : s.session = none) : ∀ state ∈ host.session, state.Coherent := by
  rcases h with ⟨-, rfl⟩ | ⟨transcriptRef, data, -, -, rfl⟩
  · exact fun _ h => (nomatch hs.symm.trans h)
  · intro after hafter
    obtain ⟨stepped, hstepped, rfl⟩ := Option.map_eq_some_iff.mp hafter
    exact (steppedSession_of_none hs stepped hstepped).transition d.env.now .turnEnd
      (by decide) stepped.transitionContext

theorem coherent_of_session_none (hopens : opensTurn d.event s = false)
    (h : dispatchLifecycleEvent w readers d.env d.event s = some host)
    (hs : s.session = none) : ∀ state ∈ host.session, state.Coherent := by
  have hnone : ∀ state ∈ s.session, state.Coherent := fun _ h => (nomatch hs.symm.trans h)
  have htask : ∀ path files, ∀ state ∈ (touchSession d.env
      { s with session := saveTaskStep w d.env path files s.session }).session,
      state.Coherent := by
    intro path files
    refine coherent_touchSession ?_
    rw [hs]
    exact (savesStep_saveTaskStep w d.env path files).coherent_of_none
  unfold dispatchLifecycleEvent at h
  cases htype : d.event.eventType with
  | sessionStart =>
    rw [htype] at h
    obtain rfl := Option.some.inj h
    intro after hafter
    obtain rfl := Option.some.inj hafter
    have hfresh : (s.session.getD { sessionId := w.sessionId }).Coherent := by
      simp [hs, SessionState.Coherent]
    exact hfresh.transition d.env.now .sessionStart (by decide) {}
  | turnStart =>
    rw [htype] at h
    obtain rfl := Option.some.inj h
    have hskip : skipsTurnStart d.event s = true := by simpa [opensTurn, htype] using hopens
    rw [handleTurnStart, if_pos hskip]
    exact hnone
  | turnEnd =>
    rw [htype] at h
    exact coherent_endedTurn_of_none (endedTurn_turnEnd htype h) hs
  | compaction =>
    rw [htype] at h
    obtain rfl := Option.some.inj h
    intro after hafter
    rw [handleCompaction, hs] at hafter
    exact nomatch hafter
  | sessionEnd =>
    rw [htype] at h
    obtain ⟨finalized, -, rfl⟩ := Option.map_eq_some_iff.mp h
    exact coherent_stopSession
  | toolInvocationObserved | toolResultObserved =>
    rw [htype] at h
    obtain rfl := Option.some.inj h
    unfold handleToolEvent
    split_ifs
    · exact hnone
    · exact coherent_touchSession hnone
  | subagentStart =>
    rw [htype] at h
    obtain rfl := Option.some.inj h
    exact coherent_touchSession hnone
  | subagentEnd =>
    rw [htype] at h
    obtain rfl := Option.some.inj h
    unfold handleSubagentEnd
    split_ifs
    · exact coherent_touchSession hnone
    · exact htask _ _
  | todoCheckpoint =>
    rw [htype] at h
    obtain rfl := Option.some.inj h
    unfold handleTodoCheckpoint
    split_ifs
    · exact hnone
    · exact htask _ _

/-! ## The start of a turn -/

/-- What the handler adds to the session that the strategy left. -/
theorem turnStartSession_fields (w : Workspace) (d : Dispatch) (s : Host) :
    (turnStartSession w d.env d.event s).isAuxiliary =
        ((initializedSession w d.env d.event s).isAuxiliary || d.event.isAuxiliary) ∧
      (turnStartSession w d.env d.event s).startedAt =
        unlessBlank (initializedSession w d.env d.event s).startedAt d.env.now ∧
      (turnStartSession w d.env d.event s).turnId =
        unlessBlank (initializedSession w d.env d.event s).turnId d.env.lifecycleTurnId := by
  have hrecord := SessionState.sameRecord_transition d.env.now .turnStart {}
    (initializedSession w d.env d.event s)
  refine ⟨?_, ?_, ?_⟩
  · rw [← hrecord.isAuxiliary]
    rfl
  · rw [← hrecord.startedAt]
    rfl
  · rw [← hrecord.turnId]
    rfl

theorem coherent_turnStartSession (h : (initializedSession w d.env d.event s).Coherent) :
    (turnStartSession w d.env d.event s).Coherent :=
  h.transition d.env.now .turnStart (by decide) {}

/-- The manual strategy leaves an active session with a turn id of its own. -/
theorem initializedSession_manual (hmanual : d.env.strategy = .manualCommit) :
    (initializedSession w d.env d.event s).phase = .active ∧
      (initializedSession w d.env d.event s).turnId = d.env.checkpointId := by
  rw [initializedSession, initializeSession, hmanual]
  exact ⟨rfl, rfl⟩

theorem initializedSession_known (hmanual : d.env.strategy = .manualCommit)
    (hs : s.session = some state) (hbase : state.baseCommit ≠ "") :
    (initializedSession w d.env d.event s).endedAt = state.endedAt ∧
      (initializedSession w d.env d.event s).startedAt = state.startedAt ∧
      (initializedSession w d.env d.event s).isAuxiliary = state.isAuxiliary := by
  simp [initializedSession, initializeSession, hmanual, initializeOrRefreshSession, hs,
    Option.filter, hbase]

theorem initializedSession_unknown (hmanual : d.env.strategy = .manualCommit)
    (h : ∀ state ∈ s.session, state.baseCommit = "") :
    (initializedSession w d.env d.event s).endedAt = none ∧
      (initializedSession w d.env d.event s).startedAt = d.env.now ∧
      (initializedSession w d.env d.event s).isAuxiliary = false := by
  have hfilter : s.session.filter (·.baseCommit ≠ "") = none := by
    rw [Option.filter_eq_none_iff]
    intro state hstate
    simp [h state hstate]
  rw [initializedSession, initializeSession, hmanual]
  dsimp only
  rw [initializeOrRefreshSession, hfilter]
  exact ⟨rfl, rfl, rfl⟩

theorem initializedSession_auto (hauto : d.env.strategy = .autoCommit) :
    initializedSession w d.env d.event s =
      s.session.getD { sessionId := w.sessionId, startedAt := d.env.now } := by
  rw [initializedSession, initializeSession, hauto]

theorem session_handleTurnStart (hopens : opensTurn d.event s = true) :
    (handleTurnStart w d.env d.event s).session = some (turnStartSession w d.env d.event s) := by
  have hskip : skipsTurnStart d.event s = false := by
    simpa using (Bool.and_eq_true_iff.mp hopens).2
  rw [handleTurnStart, if_neg (by simp [hskip])]

/-- The state after the start of a turn is coherent if the manual strategy found no ended session
with a base commit. -/
theorem coherent_turnStartSession_iff (hopens : opensTurn d.event s = true)
    (hcoherent : ∀ state ∈ s.session, state.Coherent) :
    (turnStartSession w d.env d.event s).Coherent ↔ ∀ state ∈ s.session,
      opensTurn d.event s = true → d.env.strategy = .manualCommit → state.baseCommit ≠ "" →
        state.endedAt = none := by
  cases hstrategy : d.env.strategy with
  | autoCommit =>
    refine iff_of_true (coherent_turnStartSession ?_) fun _ _ _ h => nomatch h
    rw [initializedSession_auto hstrategy]
    cases hs : s.session with
    | none => simp [SessionState.Coherent]
    | some state => exact hcoherent state hs
  | manualCommit =>
    obtain ⟨hphase, -⟩ := initializedSession_manual (w := w) (s := s) hstrategy
    by_cases hunknown : ∀ state ∈ s.session, state.baseCommit = ""
    · refine iff_of_true (coherent_turnStartSession ?_)
        fun state hs _ _ hbase => absurd (hunknown state hs) hbase
      obtain ⟨hended, -, -⟩ := initializedSession_unknown (w := w) hstrategy hunknown
      simp [SessionState.Coherent, hphase, hended]
    · push_neg at hunknown
      obtain ⟨state, hs, hbase⟩ := hunknown
      obtain ⟨hended, -, -⟩ := initializedSession_known (w := w) hstrategy hs hbase
      obtain ⟨hactive, hkept⟩ :=
        SessionState.transition_turnStart_of_active d.env.now {} hphase
      have hafter : (turnStartSession w d.env d.event s).phase = .active := hactive
      have hendedAfter : (turnStartSession w d.env d.event s).endedAt = state.endedAt :=
        hkept.trans hended
      rw [SessionState.Coherent, hafter, hendedAfter]
      constructor
      · intro h state' hs' _ _ _
        obtain rfl := Option.some.inj (hs.symm.trans hs')
        simpa using h
      · intro h
        simp [h state hs hopens rfl hbase]

theorem kept_turnStart (hopens : opensTurn d.event s = true) (hs : s.session = some state) :
    (state.isAuxiliary = true → ((turnStartSession w d.env d.event s).isAuxiliary = true ↔
        (asksForBase d s = true → state.baseCommit = "" → restoresAuxiliary d.event = true))) ∧
      (isBlank state.startedAt = false →
        ((turnStartSession w d.env d.event s).startedAt = state.startedAt ↔
          (asksForBase d s = true → state.baseCommit = "" → state.startedAt = d.env.now))) := by
  have htype : d.event.eventType = .turnStart := by
    simpa using (Bool.and_eq_true_iff.mp hopens).1
  obtain ⟨haux, hstarted, -⟩ := turnStartSession_fields w d s
  have hasks : asksForBase d s = decide (d.env.strategy = .manualCommit) := by
    simp [asksForBase, htype, hopens]
  have hrestores : restoresAuxiliary d.event = d.event.isAuxiliary := by
    rw [restoresAuxiliary, htype]
  rw [haux, hstarted, hasks, hrestores]
  cases hstrategy : d.env.strategy with
  | autoCommit =>
    rw [initializedSession_auto hstrategy, hs]
    constructor
    · intro h
      simp [h]
    · intro h
      simp [unlessBlank, h]
  | manualCommit =>
    by_cases hbase : state.baseCommit = ""
    · obtain ⟨-, hnow, hnot⟩ := initializedSession_unknown (w := w) (d := d) hstrategy
        (fun _ h => Option.some.inj (hs.symm.trans h) ▸ hbase)
      rw [hnow, hnot]
      constructor
      · intro _
        simp [hbase]
      · intro _
        simp only [unlessBlank, ite_self, hbase, decide_true, true_imp_iff]
        exact eq_comm
    · obtain ⟨-, hkept, hkeptAux⟩ := initializedSession_known (w := w) hstrategy hs hbase
      rw [hkept, hkeptAux]
      constructor
      · intro h
        simp [h, hbase]
      · intro h
        simp [unlessBlank, h, hbase]

end Events

/-! ## The exact condition -/

section Run

variable {w : Workspace} {readers : TranscriptReaders} {d : Dispatch} {s s' : World}
  {state after : SessionState}

/-- What the end of every step has of `Coherently`. -/
def Settled (s : World) : Prop :=
  (∀ state ∈ s.host.session, state.Coherent) ∧ s.openedTurns.Nodup

theorem coherently_of_session_none (h : s.host.session = none)
    (hcoherent : ∀ state ∈ s'.host.session, state.Coherent) (hnodup : s'.openedTurns.Nodup) :
    Coherently s s' :=
  ⟨hcoherent, fun _ h' => (nomatch h.symm.trans h'), fun _ h' => (nomatch h.symm.trans h'),
    hnodup⟩

theorem coherently_iff_careful_of_session_some (hs : s.host.session = some state)
    (hs' : s'.host.session = some after)
    (hcoherent : after.Coherent ↔ (opensTurn d.event s.host = true →
      d.env.strategy = .manualCommit → state.baseCommit ≠ "" → state.endedAt = none))
    (haux : state.isAuxiliary = true → (after.isAuxiliary = true ↔
      (asksForBase d s.host = true → state.baseCommit = "" → restoresAuxiliary d.event = true)))
    (hstarted : isBlank state.startedAt = false → (after.startedAt = state.startedAt ↔
      (asksForBase d s.host = true → state.baseCommit = "" → state.startedAt = d.env.now)))
    (hnodup : s'.openedTurns.Nodup ↔ (opensTurn d.event s.host = true →
      d.env.strategy = .autoCommit → isBlank state.turnId = false →
        state.turnId ∉ s.openedTurns)) :
    Coherently s s' ↔ Careful s d := by
  constructor
  · intro h state' hstate
    obtain rfl := Option.some.inj (hs.symm.trans hstate)
    refine ⟨hcoherent.mp (h.coherent after hs'), ?_, ?_, hnodup.mp h.turnIds⟩
    · intro hasks hbase hblank
      have hkept := h.startedAt state hs hblank
      rw [hs'] at hkept
      exact (hstarted hblank).mp (Option.some.inj hkept) hasks hbase
    · intro hasks hbase hstate
      have hkept := h.isAuxiliary state hs hstate
      rw [hs'] at hkept
      exact (haux hstate).mp (Option.some.inj hkept) hasks hbase
  · intro h
    have hcareful := h state hs
    refine ⟨?_, ?_, ?_, hnodup.mpr hcareful.turnId⟩
    · intro after' hafter
      obtain rfl := Option.some.inj (hs'.symm.trans hafter)
      exact hcoherent.mpr hcareful.notEnded
    · intro state' hstate hstateAux
      obtain rfl := Option.some.inj (hs.symm.trans hstate)
      have hmp := (haux hstateAux).mpr fun hasks hbase =>
        hcareful.isAuxiliary hasks hbase hstateAux
      rw [hs', Option.map_some, hmp]
    · intro state' hstate hblank
      obtain rfl := Option.some.inj (hs.symm.trans hstate)
      have hmp := (hstarted hblank).mpr fun hasks hbase =>
        hcareful.startedAt hasks hbase hblank
      rw [hs', Option.map_some, hmp]

/-- A handler that fails asks the strategy for nothing. -/
theorem careful_of_failed (h : dispatchLifecycleEvent w readers d.env d.event s.host = none) :
    Careful s d := by
  have hclosed := dispatch_eq_none h
  have hnotStart : d.event.eventType ≠ .turnStart := by
    intro htype
    rw [dispatchLifecycleEvent, htype] at h
    exact nomatch h
  have hopens : opensTurn d.event s.host = false := by simp [opensTurn, hnotStart]
  have hfiles : closedTurnFiles d.env d.event s.host = [] := by
    unfold closedTurnFiles
    unfold closedTurn at hclosed
    split_ifs at hclosed ⊢
    · rw [Option.map_eq_none_iff.mp hclosed]
      rfl
    · rfl
  have hasks : asksForBase d s.host = false := by
    unfold dispatchLifecycleEvent at h
    cases htype : d.event.eventType <;> simp_all [asksForBase]
  intro state _
  exact ⟨by simp [hopens], by simp [hasks], by simp [hasks], by simp [hopens]⟩

/-- The turn id that the start of a turn leaves is new, if the automatic strategy finds none that
an earlier one left. -/
theorem turnId_turnStartSession_notMem_iff (hopens : opensTurn d.event s.host = true)
    (hfresh : d.env.FreshIds s.openedTurns) :
    (turnStartSession w d.env d.event s.host).turnId ∉ s.openedTurns ↔
      ∀ state ∈ s.host.session, opensTurn d.event s.host = true →
        d.env.strategy = .autoCommit → isBlank state.turnId = false →
          state.turnId ∉ s.openedTurns := by
  obtain ⟨⟨hblank, hcheckpoint⟩, -, hlifecycle⟩ := hfresh
  obtain ⟨-, -, hturnId⟩ := turnStartSession_fields w d s.host
  rw [hturnId]
  cases hstrategy : d.env.strategy with
  | manualCommit =>
    obtain ⟨-, hid⟩ := initializedSession_manual (w := w) (s := s.host) hstrategy
    rw [hid, unlessBlank, if_neg (by simp [hblank])]
    exact iff_of_true hcheckpoint fun _ _ _ h => nomatch h
  | autoCommit =>
    rw [initializedSession_auto hstrategy]
    cases hs : s.host.session with
    | none => simp [unlessBlank, isBlank, hlifecycle]
    | some state =>
      cases hturn : isBlank state.turnId with
      | true => simp [unlessBlank, hturn, hlifecycle]
      | false => simp [unlessBlank, hturn, hopens]

theorem coherently_iff_careful_of_opensTurn (hopens : opensTurn d.event s.host = true)
    (hsettled : Settled s) (hfresh : d.env.FreshIds s.openedTurns) :
    Coherently s (s.handled d (handleTurnStart w d.env d.event s.host)) ↔ Careful s d := by
  have hsession := session_handleTurnStart (w := w) hopens
  have hopened : (s.handled d (handleTurnStart w d.env d.event s.host)).openedTurns =
      s.openedTurns ++ [(turnStartSession w d.env d.event s.host).turnId] := by
    simp [World.handled, hopens, hsession]
  have hnodup : (s.handled d (handleTurnStart w d.env d.event s.host)).openedTurns.Nodup ↔
      (turnStartSession w d.env d.event s.host).turnId ∉ s.openedTurns := by
    rw [hopened, ← List.concat_eq_append, List.nodup_concat]
    exact and_iff_left hsettled.2
  have hcoherent := coherent_turnStartSession_iff (w := w) hopens hsettled.1
  have hturn := turnId_turnStartSession_notMem_iff (w := w) hopens hfresh
  cases hs : s.host.session with
  | none =>
    refine iff_of_true (coherently_of_session_none hs ?_ ?_) fun _ h => (nomatch hs.symm.trans h)
    · intro after hafter
      obtain rfl := Option.some.inj (hsession.symm.trans hafter)
      exact hcoherent.mpr fun _ h => (nomatch hs.symm.trans h)
    · exact hnodup.mpr (hturn.mpr fun _ h => (nomatch hs.symm.trans h))
  | some state =>
    obtain ⟨haux, hstarted⟩ := kept_turnStart (w := w) hopens hs
    refine coherently_iff_careful_of_session_some hs hsession ?_ haux hstarted ?_
    · rw [hcoherent, hs]
      simp only [Option.mem_some_iff, forall_eq']
    · rw [hnodup, hturn, hs]
      simp only [Option.mem_some_iff, forall_eq']

/-- **One step.**  From a settled world a step is coherent exactly when the event is careful. -/
theorem coherently_iff_careful (hsettled : Settled s) (h : step w readers s d = some s') :
    Coherently s s' ↔ Careful s d := by
  obtain ⟨hfresh, ⟨hfailed, rfl⟩ | ⟨host, hhost, rfl⟩⟩ := step_cases h
  · refine iff_of_true ?_ (careful_of_failed hfailed)
    refine ⟨hsettled.1, fun state hs haux => ?_, fun state hs _ => ?_, hsettled.2⟩
    · rw [Option.mem_def.mp hs, Option.map_some, haux]
    · rw [Option.mem_def.mp hs, Option.map_some]
  · cases hopens : opensTurn d.event s.host with
    | true =>
      have htype : d.event.eventType = .turnStart := by
        simpa using (Bool.and_eq_true_iff.mp hopens).1
      have hstart : host = handleTurnStart w d.env d.event s.host := by
        rw [dispatchLifecycleEvent, htype] at hhost
        exact (Option.some.inj hhost).symm
      rw [hstart]
      exact coherently_iff_careful_of_opensTurn hopens hsettled hfresh
    | false =>
      have hopened : (s.handled d host).openedTurns = s.openedTurns := by
        simp [World.handled, hopens]
      have hnodup : (s.handled d host).openedTurns.Nodup := by
        rw [hopened]
        exact hsettled.2
      cases hs : s.host.session with
      | none =>
        refine iff_of_true (coherently_of_session_none hs ?_ hnodup)
          fun _ h => (nomatch hs.symm.trans h)
        exact coherent_of_session_none hopens hhost hs
      | some state =>
        obtain ⟨after, hafter, hkept⟩ :=
          kept_of_not_opensTurn hopens hhost hs (hsettled.1 state hs)
        exact coherently_iff_careful_of_session_some hs hafter
          (iff_of_true hkept.coherent (by simp [hopens])) hkept.isAuxiliary hkept.startedAt
          (iff_of_true hnodup (by simp [hopens]))

/-- **Coherence of the session state.**  In a run of lifecycle events of one session, every step
keeps the session state coherent exactly when every event is careful. -/
theorem coherently_iff_meets_careful {t : World} {events : List Dispatch}
    (h : Run.exec (step w readers) {} events = some t) :
    Run.EachStep (step w readers) (fun s _ s' => Coherently s s') {} events ↔
      Run.Meets (step w readers) Careful {} events := by
  refine Run.eachStep_iff_meets (fun _ => True) Settled (fun _ _ _ _ _ => trivial) ?_ ?_ trivial
    ⟨fun _ h => (nomatch h), List.nodup_nil⟩ h
  · exact fun _ _ _ hstep => ⟨hstep.coherent, hstep.turnIds⟩
  · exact fun _ _ _ _ hsettled hstep => coherently_iff_careful hsettled hstep

end Run

/-- A turn starts and ends. -/
def firstTurn : List Dispatch :=
  [demoDispatch .turnStart "t1" "a1" "", demoDispatch .turnEnd "t2" "a2" "hello"]

theorem firstTurn_careful :
    ∃ t, Run.exec (step demoWorkspace lineReaders) {} firstTurn = some t ∧
      Run.Meets (step demoWorkspace lineReaders) Careful {} firstTurn := by
  have hrun : (Run.exec (step demoWorkspace lineReaders) {} firstTurn).isSome := by
    decide
  obtain ⟨t, ht⟩ := Option.isSome_iff_exists.mp hrun
  exact ⟨t, ht, (coherently_iff_meets_careful ht).mp (by decide)⟩

/-- The session ends, and another turn starts. -/
def resumedTurn : List Dispatch :=
  firstTurn ++
    [demoDispatch .sessionEnd "t3" "a3" "", demoDispatch .turnStart "t4" "a4" ""]

theorem resumedTurn_not_coherently :
    (∃ t, Run.exec (step demoWorkspace lineReaders) {} resumedTurn = some t) ∧
      ¬ Run.EachStep (step demoWorkspace lineReaders) (fun s _ s' => Coherently s s') {}
        resumedTurn := by
  have hrun : (Run.exec (step demoWorkspace lineReaders) {} resumedTurn).isSome := by
    decide
  exact ⟨Option.isSome_iff_exists.mp hrun, by decide⟩

end SessionLifecycle
end Bitloops
