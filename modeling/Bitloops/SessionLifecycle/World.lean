import Bitloops.Foundation.Run
import Bitloops.SessionLifecycle.Handlers

/-!
# Runs of lifecycle events

A `World` is the stored state of a session together with what happened to it: the turn ids that
the starts of turns left in the session, the turns whose end was recorded, and whether the session
ended and was not taken up again.  An event whose handler fails leaves everything as it is.
-/

namespace Bitloops
namespace SessionLifecycle

open Interactions

/-- An event and what it finds. -/
structure Dispatch where
  event : LifecycleEvent
  env : Environment

structure World where
  host : Host := {}
  /-- The turn ids that the starts of turns left in the session. -/
  openedTurns : List String := []
  /-- The turns whose end was handled. -/
  closedTurns : List String := []
  /-- The last end of the session was not followed by a start of the session or of a turn. -/
  sessionEnded : Bool := false

/-- The identifiers that the event may draw are none of the given ones. -/
def Environment.FreshIds (env : Environment) (used : List String) : Prop :=
  (isBlank env.checkpointId = false ∧ env.checkpointId ∉ used) ∧
    isBlank env.lifecycleTurnId = false ∧ env.lifecycleTurnId ∉ used

instance (env : Environment) (used : List String) : Decidable (env.FreshIds used) :=
  inferInstanceAs (Decidable ((_ ∧ _) ∧ _ ∧ _))

/-- The event opens a turn. -/
def opensTurn (event : LifecycleEvent) (s : Host) : Bool :=
  event.eventType = .turnStart && !skipsTurnStart event s

/-- The event runs the end of a turn. -/
def endsTurn (event : LifecycleEvent) (s : Host) : Bool :=
  (match event.eventType with
    | .turnEnd => true
    | .sessionEnd => event.finalizeOpenTurn && shouldFinalizeTurn s
    | _ => false) && !skipsTurnEnd event s

/-- The turn whose end the event records. -/
def closedTurn (env : Environment) (event : LifecycleEvent) (s : Host) : Option String :=
  if endsTurn event s then (turnEndTranscript env event s).map fun _ => endedTurnId env s
  else none

/-- The session ended and was not taken up again, once the event is handled. -/
def endedAfter (event : LifecycleEvent) (ended : Bool) : Bool :=
  match event.eventType with
  | .sessionEnd => true
  | .sessionStart | .turnStart => false
  | _ => ended

/-- The world after an event that was handled. -/
def World.handled (s : World) (d : Dispatch) (host : Host) : World where
  host
  openedTurns :=
    s.openedTurns ++
      if opensTurn d.event s.host then (host.session.map (·.turnId)).toList else []
  closedTurns := s.closedTurns ++ (closedTurn d.env d.event s.host).toList
  sessionEnded := endedAfter d.event s.sessionEnded

variable (w : Workspace) (readers : TranscriptReaders)

def step (s : World) (d : Dispatch) : Option World :=
  if d.env.FreshIds s.openedTurns then
    some (((dispatchLifecycleEvent w readers d.env d.event s.host).map (s.handled d)).getD s)
  else none

variable {w readers}

/-- What a step does: the handler fails, or the host is the one that it leaves. -/
theorem step_cases {s s' : World} {d : Dispatch} (h : step w readers s d = some s') :
    d.env.FreshIds s.openedTurns ∧
      ((dispatchLifecycleEvent w readers d.env d.event s.host = none ∧ s' = s) ∨
        ∃ host, dispatchLifecycleEvent w readers d.env d.event s.host = some host ∧
          s' = s.handled d host) := by
  unfold step at h
  split_ifs at h with hfresh
  refine ⟨hfresh, ?_⟩
  cases hhost : dispatchLifecycleEvent w readers d.env d.event s.host with
  | none =>
    rw [hhost] at h
    exact .inl ⟨rfl, (Option.some.inj h).symm⟩
  | some host =>
    rw [hhost] at h
    exact .inr ⟨host, rfl, (Option.some.inj h).symm⟩

/-- The ends of turns and of sessions are the only events whose handlers fail, and they fail for
want of a transcript. -/
theorem dispatch_eq_none {env : Environment} {event : LifecycleEvent} {s : Host}
    (h : dispatchLifecycleEvent w readers env event s = none) :
    closedTurn env event s = none := by
  have hfails : handleTurnEnd w readers env event s = none →
      turnEndTranscript env event s = none := by
    intro hnone
    unfold handleTurnEnd at hnone
    split_ifs at hnone
    exact Option.map_eq_none_iff.mp hnone
  have hnone : turnEndTranscript env event s = none →
      (turnEndTranscript env event s).map (fun _ => endedTurnId env s) = none :=
    Option.map_eq_none_iff.mpr
  rw [closedTurn, ite_eq_right_iff]
  intro hends
  unfold dispatchLifecycleEvent at h
  unfold endsTurn at hends
  cases htype : event.eventType with
  | turnEnd =>
    rw [htype] at h
    exact hnone (hfails h)
  | sessionEnd =>
    rw [htype] at h
    have hfinalize := Option.map_eq_none_iff.mp h
    unfold finalizeOpenTurn at hfinalize
    split_ifs at hfinalize
    exact hnone (hfails hfinalize)
  | sessionStart | turnStart | compaction | toolInvocationObserved | toolResultObserved
  | subagentStart | subagentEnd | todoCheckpoint =>
    simp only [htype, Bool.false_and, Bool.false_eq_true] at hends

/-- The end of a turn is skipped, or recorded from its transcript. -/
theorem handleTurnEnd_eq_some {env : Environment} {event : LifecycleEvent} {s host : Host}
    (h : handleTurnEnd w readers env event s = some host) :
    (skipsTurnEnd event s = true ∧ host = s) ∨
      ∃ transcriptRef data, skipsTurnEnd event s = false ∧
        turnEndTranscript env event s = some (transcriptRef, data) ∧
        host = recordTurnEnd w readers env event s transcriptRef data := by
  unfold handleTurnEnd at h
  cases hskip : skipsTurnEnd event s with
  | true =>
    rw [hskip, if_pos rfl] at h
    exact .inl ⟨rfl, (Option.some.inj h).symm⟩
  | false =>
    rw [hskip, if_neg Bool.false_ne_true] at h
    obtain ⟨⟨transcriptRef, data⟩, htranscript, rfl⟩ := Option.map_eq_some_iff.mp h
    exact .inr ⟨transcriptRef, data, rfl, htranscript, rfl⟩

/-- The event ended no turn, or it recorded the end of one from its transcript. -/
def EndedTurn (w : Workspace) (readers : TranscriptReaders) (env : Environment)
    (event : LifecycleEvent) (s host : Host) : Prop :=
  (endsTurn event s = false ∧ host = s) ∨
    ∃ transcriptRef data, endsTurn event s = true ∧
      turnEndTranscript env event s = some (transcriptRef, data) ∧
      host = recordTurnEnd w readers env event s transcriptRef data

theorem endedTurn_turnEnd {env : Environment} {event : LifecycleEvent} {s host : Host}
    (htype : event.eventType = .turnEnd) (h : handleTurnEnd w readers env event s = some host) :
    EndedTurn w readers env event s host := by
  have hends : endsTurn event s = !skipsTurnEnd event s := by simp [endsTurn, htype]
  rcases handleTurnEnd_eq_some h with ⟨hskip, rfl⟩ | ⟨transcriptRef, data, hskip, ht, rfl⟩
  · exact .inl ⟨by rw [hends, hskip]; rfl, rfl⟩
  · exact .inr ⟨transcriptRef, data, by rw [hends, hskip]; rfl, ht, rfl⟩

theorem endedTurn_finalizeOpenTurn {env : Environment} {event : LifecycleEvent}
    {s host : Host} (htype : event.eventType = .sessionEnd)
    (h : finalizeOpenTurn w readers env event s = some host) :
    EndedTurn w readers env event s host := by
  have hends : endsTurn event s =
      ((event.finalizeOpenTurn && shouldFinalizeTurn s) && !skipsTurnEnd event s) := by
    simp [endsTurn, htype]
  unfold finalizeOpenTurn at h
  by_cases hfinalize : (event.finalizeOpenTurn && shouldFinalizeTurn s) = true
  · rw [if_pos hfinalize] at h
    rw [hfinalize, Bool.true_and] at hends
    rcases handleTurnEnd_eq_some h with ⟨hskip, rfl⟩ | ⟨transcriptRef, data, hskip, ht, rfl⟩
    · exact .inl ⟨by rw [hends, hskip]; rfl, rfl⟩
    · exact .inr ⟨transcriptRef, data, by rw [hends, hskip]; rfl, ht, rfl⟩
  · rw [if_neg hfinalize] at h
    rw [Bool.eq_false_iff.mpr hfinalize, Bool.false_and] at hends
    exact .inl ⟨hends, (Option.some.inj h).symm⟩

/-! ## A session for examples -/

def demoWorkspace : Workspace where
  repoId := "repo"
  repoRoot := "/repo"
  worktreeId := ""
  sessionId := "session"

/-- Transcripts of lines, without prompts. -/
def lineReaders : TranscriptReaders where
  messages _ := none
  withMessages data _ := data
  extractPrompts _ := []
  extractSummary _ := ""

/-- An event of the manual strategy that finds the transcript `data`. -/
def demoDispatch (eventType : LifecycleEventType) (now turnId data : String) : Dispatch where
  event := { eventType, sessionRef := "/transcript.jsonl" }
  env :=
    { now
      head := "c0ffee"
      strategy := .manualCommit
      agentName := "claude-code"
      agentKey := "claude-code"
      checkpointId := turnId
      lifecycleTurnId := turnId
      readTranscript := fun _ => some data }

end SessionLifecycle
end Bitloops
