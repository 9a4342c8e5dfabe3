import Mathlib.Data.List.Basic
import Bitloops.Interactions.Types

/-!
# The phases of a session

A session is idle, active or ended.  The transition table says which phase an event leads to and
which actions go with it; `applyTransition` performs them on the stored state of the session,
with the handler that does nothing where an action is left to a handler.
-/

namespace Bitloops
namespace SessionLifecycle

inductive SessionPhase where
  | idle
  | active
  | ended
  deriving DecidableEq, Repr

/-- The events of the transition table. -/
inductive PhaseEvent where
  | turnStart
  | turnEnd
  | gitCommit
  | sessionStart
  | sessionStop
  | compaction
  deriving DecidableEq, Repr

inductive Action where
  | condense
  | condenseIfFilesTouched
  | discardIfNoFiles
  | warnStaleSession
  | clearEndedAt
  | updateLastInteraction
  deriving DecidableEq, Repr

structure TransitionContext where
  hasFilesTouched : Bool := false
  isRebaseInProgress : Bool := false
  deriving DecidableEq, Repr

structure TransitionResult where
  newPhase : SessionPhase
  actions : List Action
  deriving DecidableEq, Repr

def transitionFromIdle (event : PhaseEvent) (ctx : TransitionContext) : TransitionResult :=
  match event with
  | .turnStart => ⟨.active, [.updateLastInteraction]⟩
  | .turnEnd => ⟨.idle, []⟩
  | .gitCommit =>
    if ctx.isRebaseInProgress then ⟨.idle, []⟩ else ⟨.idle, [.condense, .updateLastInteraction]⟩
  | .sessionStart => ⟨.idle, []⟩
  | .sessionStop => ⟨.ended, [.updateLastInteraction]⟩
  | .compaction => ⟨.idle, [.condenseIfFilesTouched, .updateLastInteraction]⟩

def transitionFromActive (event : PhaseEvent) (ctx : TransitionContext) : TransitionResult :=
  match event with
  | .turnStart => ⟨.active, [.updateLastInteraction]⟩
  | .turnEnd => ⟨.idle, [.updateLastInteraction]⟩
  | .gitCommit =>
    if ctx.isRebaseInProgress then ⟨.active, []⟩
    else ⟨.active, [.condense, .updateLastInteraction]⟩
  | .sessionStart => ⟨.active, [.warnStaleSession]⟩
  | .sessionStop => ⟨.ended, [.updateLastInteraction]⟩
  | .compaction => ⟨.active, [.condenseIfFilesTouched, .updateLastInteraction]⟩

def transitionFromEnded (event : PhaseEvent) (ctx : TransitionContext) : TransitionResult :=
  match event with
  | .turnStart => ⟨.active, [.clearEndedAt, .updateLastInteraction]⟩
  | .turnEnd => ⟨.ended, []⟩
  | .gitCommit =>
    if ctx.isRebaseInProgress then ⟨.ended, []⟩
    else if ctx.hasFilesTouched then ⟨.ended, [.condenseIfFilesTouched, .updateLastInteraction]⟩
    else ⟨.ended, [.discardIfNoFiles, .updateLastInteraction]⟩
  | .sessionStart => ⟨.idle, [.clearEndedAt]⟩
  | .sessionStop => ⟨.ended, []⟩
  | .compaction => ⟨.ended, []⟩

def transitionWithContext (current : SessionPhase) (event : PhaseEvent) (ctx : TransitionContext) :
    TransitionResult :=
  match current with
  | .idle => transitionFromIdle event ctx
  | .active => transitionFromActive event ctx
  | .ended => transitionFromEnded event ctx

/-! ## The stored state of a session -/

structure PendingCheckpointState where
  stepCount : ℕ := 0
  checkpointTranscriptStart : ℤ := 0
  filesTouched : List String := []
  deriving DecidableEq, Repr

structure SessionState where
  sessionId : String
  baseCommit : String := ""
  worktreePath : String := ""
  worktreeId : String := ""
  startedAt : String := ""
  endedAt : Option String := none
  phase : SessionPhase := .idle
  turnId : String := ""
  lastInteractionTime : Option String := none
  transcriptPath : String := ""
  firstPrompt : String := ""
  agentType : String := ""
  isAuxiliary : Bool := false
  pending : PendingCheckpointState := {}
  deriving DecidableEq, Repr

namespace SessionState

/-- One action, at the time `now`; the handler of the other actions does nothing. -/
def perform (now : String) (state : SessionState) : Action → SessionState
  | .updateLastInteraction => { state with lastInteractionTime := some now }
  | .clearEndedAt => { state with endedAt := none }
  | .condense | .condenseIfFilesTouched | .discardIfNoFiles | .warnStaleSession => state

def applyTransition (now : String) (state : SessionState) (result : TransitionResult) :
    SessionState :=
  result.actions.foldl (perform now) { state with phase := result.newPhase }

/-- The transition of an event. -/
def transition (now : String) (event : PhaseEvent) (ctx : TransitionContext)
    (state : SessionState) : SessionState :=
  state.applyTransition now (transitionWithContext state.phase event ctx)

/-- The context of the handlers that look at the files of the session. -/
def transitionContext (state : SessionState) : TransitionContext where
  hasFilesTouched := !state.pending.filesTouched.isEmpty
  isRebaseInProgress := false

/-! ## What a transition does -/

/-- The fields that no transition writes. -/
structure SameRecord (state state' : SessionState) : Prop where
  baseCommit : state'.baseCommit = state.baseCommit
  startedAt : state'.startedAt = state.startedAt
  turnId : state'.turnId = state.turnId
  isAuxiliary : state'.isAuxiliary = state.isAuxiliary
  pending : state'.pending = state.pending

theorem SameRecord.trans {state state' state'' : SessionState} (h : state.SameRecord state')
    (h' : state'.SameRecord state'') : state.SameRecord state'' where
  baseCommit := h'.baseCommit.trans h.baseCommit
  startedAt := h'.startedAt.trans h.startedAt
  turnId := h'.turnId.trans h.turnId
  isAuxiliary := h'.isAuxiliary.trans h.isAuxiliary
  pending := h'.pending.trans h.pending

theorem sameRecord_perform (now : String) (state : SessionState) (action : Action) :
    state.SameRecord (state.perform now action) := by
  cases action <;> exact ⟨rfl, rfl, rfl, rfl, rfl⟩

theorem sameRecord_foldl_perform (now : String) (actions : List Action) :
    ∀ state : SessionState, state.SameRecord (actions.foldl (perform now) state) := by
  induction actions with
  | nil => exact fun _ => ⟨rfl, rfl, rfl, rfl, rfl⟩
  | cons action rest ih =>
    intro state
    exact (sameRecord_perform now state action).trans (ih _)

theorem sameRecord_transition (now : String) (event : PhaseEvent) (ctx : TransitionContext)
    (state : SessionState) : state.SameRecord (state.transition now event ctx) := by
  have hphase : state.SameRecord
      { state with phase := (transitionWithContext state.phase event ctx).newPhase } :=
    ⟨rfl, rfl, rfl, rfl, rfl⟩
  exact hphase.trans (sameRecord_foldl_perform now _ _)

/-- The end time is set exactly when the session has ended. -/
def Coherent (state : SessionState) : Prop := state.endedAt.isSome ↔ state.phase = .ended

instance (state : SessionState) : Decidable state.Coherent :=
  inferInstanceAs (Decidable (_ ↔ _))

/-- Every event but the end of a session keeps a coherent state coherent. -/
theorem Coherent.transition {state : SessionState} (h : state.Coherent) (now : String)
    (event : PhaseEvent) (hevent : event ≠ .sessionStop) (ctx : TransitionContext) :
    (state.transition now event ctx).Coherent := by
  unfold Coherent at h ⊢
  cases hphase : state.phase <;> cases event <;>
    first
      | exact absurd rfl hevent
      | (simp only [SessionState.transition, transitionWithContext, hphase, transitionFromIdle,
          transitionFromActive, transitionFromEnded, applyTransition]
         split_ifs <;> simpa [perform, hphase] using h)
      | (simp only [SessionState.transition, transitionWithContext, hphase, transitionFromIdle,
          transitionFromActive, transitionFromEnded, applyTransition]
         simpa [perform, hphase] using h)

theorem phase_transition_sessionStop (now : String) (ctx : TransitionContext)
    (state : SessionState) : (state.transition now .sessionStop ctx).phase = .ended := by
  cases hphase : state.phase <;>
    simp [transition, transitionWithContext, hphase, transitionFromIdle, transitionFromActive,
      transitionFromEnded, applyTransition, perform]

/-- A turn that starts while the session is active leaves the end time as it is. -/
theorem transition_turnStart_of_active (now : String) (ctx : TransitionContext)
    {state : SessionState} (h : state.phase = .active) :
    (state.transition now .turnStart ctx).phase = .active ∧
      (state.transition now .turnStart ctx).endedAt = state.endedAt := by
  simp [transition, transitionWithContext, h, transitionFromActive, applyTransition, perform]

/-- No transition sets the end time. -/
theorem isSome_endedAt_of_transition {now : String} {event : PhaseEvent}
    {ctx : TransitionContext} {state : SessionState}
    (h : (state.transition now event ctx).endedAt.isSome) : state.endedAt.isSome := by
  suffices hfold : ∀ (actions : List Action) (current : SessionState),
      (actions.foldl (perform now) current).endedAt.isSome → current.endedAt.isSome by
    let result := transitionWithContext state.phase event ctx
    exact hfold result.actions { state with phase := result.newPhase } h
  intro actions
  induction actions with
  | nil => exact fun _ h => h
  | cons action rest ih =>
    intro current h
    have hperformed := ih _ h
    cases action with
    | clearEndedAt => exact nomatch hperformed
    | _ => exact hperformed

end SessionState

end SessionLifecycle
end Bitloops
