import Bitloops.SessionLifecycle.SpoolMirror
import Bitloops.SessionLifecycle.TurnWindows

/-!
# The fragments of the turns of a run

The events of one session happen while the agent writes its transcript.  A world remembers the
transcript at the start of the open turn and, of every turn that ended, the transcripts at its
start and at its end.  `Tiled` says that the stored fragment of each of them holds exactly the
entries that the agent's parser finds in the later transcript and not in the earlier one.
-/

namespace Bitloops
namespace SessionLifecycle

open Interactions

/-- An event and the transcript when it happens. -/
structure TranscriptEvent where
  event : LifecycleEvent
  env : Environment
  transcript : String
  /-- The hook counted the transcript before the event was queued. -/
  hasSnapshot : Bool := false

/-- A turn that ended, with the transcripts at its start and at its end. -/
structure TurnRecord where
  turnId : String
  before : String
  after : String
  deriving DecidableEq, Repr

structure TranscriptWorld where
  host : Host := {}
  /-- The transcript at the start of the open turn. -/
  openedAt : Option String := none
  turns : List TurnRecord := []

section System

variable {Entry : Type*} (w : Workspace) (F : TranscriptFormats Entry) (agent : Agent)

/-- What the event finds: the analyser of the agent, if there is one, reads the transcript. -/
def TranscriptEvent.environment (e : TranscriptEvent) : Environment :=
  { e.env with
    boundaryOffset :=
      if e.hasSnapshot then (F.position agent e.transcript).map Int.ofNat else none
    transcriptPosition := fun _ => F.position agent e.transcript
    extractModifiedFiles := fun _ offset => F.extractModifiedFiles agent e.transcript offset
    readTranscript := fun _ => some e.transcript }

/-- The turn whose end the event records. -/
def TranscriptEvent.closedTurn (e : TranscriptEvent) (s : Host) : Option String :=
  SessionLifecycle.closedTurn (e.environment F agent) e.event s

/-- The record of the turn that the event ends. -/
def turnRecord (s : TranscriptWorld) (e : TranscriptEvent) : Option TurnRecord :=
  (e.closedTurn F agent s.host).bind fun turnId =>
    s.openedAt.map fun before => ⟨turnId, before, e.transcript⟩

/-- The world after an event that was handled. -/
def TranscriptWorld.handled (s : TranscriptWorld) (e : TranscriptEvent) (host : Host) :
    TranscriptWorld where
  host
  openedAt :=
    if opensTurn e.event s.host then some e.transcript
    else if (e.closedTurn F agent s.host).isSome then none
    else s.openedAt
  turns := s.turns ++ (turnRecord F agent s e).toList

def transcriptStep (s : TranscriptWorld) (e : TranscriptEvent) : Option TranscriptWorld :=
  some (((dispatchLifecycleEvent w F.toTranscriptReaders (e.environment F agent) e.event
    s.host).map (s.handled F agent e)).getD s)

/-- The fragment in the row of a turn. -/
def storedFragment (t : InteractionTables) (turnId : String) : Option String :=
  (t.turn? turnId).map (·.transcriptFragment)

variable [DecidableEq Entry]

/-- The fragments that are stored hold exactly the entries of their turns. -/
def Tiled (s : TranscriptWorld) : Prop :=
  ∀ turn ∈ s.turns,
    (storedFragment s.host.tables turn.turnId).map (F.entries agent) =
      some (newEntries (F.entries agent turn.before) (F.entries agent turn.after))

instance (s : TranscriptWorld) : Decidable (Tiled F agent s) :=
  inferInstanceAs (Decidable (∀ turn ∈ s.turns, _))

/-- A turn that ends was started, is in step with its transcript, and has an id of its own. -/
def EndsInStep (s : TranscriptWorld) (e : TranscriptEvent) : Prop :=
  ∀ turnId, e.closedTurn F agent s.host = some turnId →
    (∃ before, s.openedAt = some before ∧ InStep F agent before e.transcript) ∧
      ∀ turn ∈ s.turns, turn.turnId ≠ turnId

end System

/-! ## What an event does to the windows -/

section Events

variable {w : Workspace} {readers : TranscriptReaders} {env : Environment}
  {event : LifecycleEvent} {s host : Host}

/-- The event opens no turn and ends none. -/
structure KeepsWindows (env : Environment) (event : LifecycleEvent) (s host : Host) : Prop where
  opens : opensTurn event s = false
  closes : closedTurn env event s = none
  prePrompt : host.prePrompt = s.prePrompt
  turns : host.tables.turns = s.tables.turns

/-- The event records the end of a turn. -/
structure RecordsTurn (w : Workspace) (readers : TranscriptReaders) (env : Environment)
    (event : LifecycleEvent) (s host : Host) : Prop where
  opens : opensTurn event s = false
  closes : closedTurn env event s = some (endedTurnId env s)
  prePrompt : host.prePrompt = none
  turns : ∃ transcriptRef data, turnEndTranscript env event s = some (transcriptRef, data) ∧
    host.tables.turns = (recordTurnEnd w readers env event s transcriptRef data).tables.turns

theorem window_of_endedTurn (hopens : opensTurn event s = false)
    (h : EndedTurn w readers env event s host) :
    KeepsWindows env event s host ∨ RecordsTurn w readers env event s host := by
  rcases h with ⟨hends, rfl⟩ | ⟨transcriptRef, data, hends, htranscript, rfl⟩
  · exact .inl ⟨hopens, by rw [closedTurn, hends, if_neg Bool.false_ne_true], rfl, rfl⟩
  · have hclosed : closedTurn env event s = some (endedTurnId env s) := by
      rw [closedTurn, hends, if_pos rfl, htranscript, Option.map_some]
    exact .inr ⟨hopens, hclosed, rfl, transcriptRef, data, htranscript, rfl⟩

/-- **One event.**  It opens a turn, or records the end of one, or leaves the windows alone. -/
theorem window_of_dispatch
    (h : dispatchLifecycleEvent w readers env event s = some host) :
    (opensTurn event s = true ∧ closedTurn env event s = none ∧
        host = handleTurnStart w env event s) ∨
      KeepsWindows env event s host ∨ RecordsTurn w readers env event s host := by
  have hopens : event.eventType ≠ .turnStart → opensTurn event s = false := by
    intro htype
    rw [opensTurn, decide_eq_false htype, Bool.false_and]
  have hquiet : event.eventType ≠ .turnStart → event.eventType ≠ .turnEnd →
      event.eventType ≠ .sessionEnd → host.prePrompt = s.prePrompt →
      host.tables.turns = s.tables.turns → KeepsWindows env event s host :=
    fun hstart hend hstop hpre hturns =>
      ⟨hopens hstart, closedTurn_of_not_endsTurn hend hstop, hpre, hturns⟩
  unfold dispatchLifecycleEvent at h
  cases htype : event.eventType with
  | turnStart =>
    rw [htype] at h
    obtain rfl := Option.some.inj h
    have hclosed : closedTurn env event s = none :=
      closedTurn_of_not_endsTurn (by simp [htype]) (by simp [htype])
    cases hskip : skipsTurnStart event s with
    | false => exact .inl ⟨by simp [opensTurn, htype, hskip], hclosed, rfl⟩
    | true =>
      have hhost : handleTurnStart w env event s = s := by rw [handleTurnStart, if_pos hskip]
      rw [hhost]
      exact .inr (.inl ⟨by simp [opensTurn, hskip], hclosed, rfl, rfl⟩)
  | turnEnd =>
    rw [htype] at h
    exact .inr (window_of_endedTurn (hopens (by simp [htype])) (endedTurn_turnEnd htype h))
  | sessionEnd =>
    rw [htype] at h
    obtain ⟨finalized, hfinalized, rfl⟩ := Option.map_eq_some_iff.mp h
    have hturns : (stopSession w env event finalized).tables.turns = finalized.tables.turns :=
      turns_recordSessionRow
    rcases window_of_endedTurn (hopens (by simp [htype]))
      (endedTurn_finalizeOpenTurn htype hfinalized) with hkeeps | hrecords
    · exact .inr (.inl ⟨hkeeps.opens, hkeeps.closes, hkeeps.prePrompt,
        hturns.trans hkeeps.turns⟩)
    · obtain ⟨transcriptRef, data, htranscript, heq⟩ := hrecords.turns
      exact .inr (.inr ⟨hrecords.opens, hrecords.closes, hrecords.prePrompt,
        transcriptRef, data, htranscript, hturns.trans heq⟩)
  | sessionStart =>
    rw [htype] at h
    obtain rfl := Option.some.inj h
    exact .inr (.inl (hquiet (by simp [htype]) (by simp [htype]) (by simp [htype]) rfl
      turns_recordSessionRow))
  | todoCheckpoint =>
    rw [htype] at h
    obtain rfl := Option.some.inj h
    have hkept : (handleTodoCheckpoint w env event s).prePrompt = s.prePrompt ∧
        (handleTodoCheckpoint w env event s).tables.turns = s.tables.turns := by
      unfold handleTodoCheckpoint
      split_ifs <;> exact ⟨rfl, rfl⟩
    exact .inr (.inl (hquiet (by simp [htype]) (by simp [htype]) (by simp [htype]) hkept.1
      hkept.2))
  | toolInvocationObserved | toolResultObserved =>
    rw [htype] at h
    obtain rfl := Option.some.inj h
    have hkept : (handleToolEvent env event s).prePrompt = s.prePrompt ∧
        (handleToolEvent env event s).tables.turns = s.tables.turns := by
      unfold handleToolEvent
      split_ifs <;> exact ⟨rfl, rfl⟩
    exact .inr (.inl (hquiet (by simp [htype]) (by simp [htype]) (by simp [htype]) hkept.1
      hkept.2))
  | compaction | subagentStart | subagentEnd =>
    rw [htype] at h
    obtain rfl := Option.some.inj h
    exact .inr (.inl (hquiet (by simp [htype]) (by simp [htype]) (by simp [htype]) rfl rfl))

end Events

/-! ## The stored fragments -/

section Fragments

variable {w : Workspace} {t t' : InteractionTables}

theorem storedFragment_congr (h : t.turns = t'.turns) (turnId : String) :
    storedFragment t turnId = storedFragment t' turnId := by
  rw [storedFragment, storedFragment, InteractionTables.turn?, InteractionTables.turn?, h]

theorem storedFragment_recordSessionRow {row : InteractionSession} (turnId : String) :
    storedFragment (recordSessionRow w row t) turnId = storedFragment t turnId :=
  storedFragment_congr turns_recordSessionRow turnId

/-- A row without a fragment leaves the stored one alone. -/
theorem storedFragment_recordTurnRow {row : InteractionTurn} (hrepo : row.repoId = w.repoId)
    (turnId : String) :
    storedFragment (recordTurnRow w row t) turnId =
      if turnId = row.turnId then
        some (keepWhen "" row.transcriptFragment ((storedFragment t turnId).getD ""))
      else storedFragment t turnId := by
  rw [storedFragment, storedFragment, turn?_recordTurnRow hrepo]
  split_ifs
  · cases t.turn? turnId with
    | none => exact congrArg some (keepWhen_eq fun _ => rfl).symm
    | some old => rfl
  · rfl

end Fragments

/-! ## Runs -/

section Run

variable {Entry : Type*} [DecidableEq Entry] {w : Workspace} {F : TranscriptFormats Entry}
  {agent : Agent} {s s' : TranscriptWorld} {e : TranscriptEvent}

/-- The invariant: besides the property, the open turn starts where its transcript ended, and no
other turn has a fragment. -/
structure WindowInv (F : TranscriptFormats Entry) (agent : Agent) (s : TranscriptWorld) :
    Prop where
  tiled : Tiled F agent s
  offset : ∀ before, s.openedAt = some before → ∃ pre, s.host.prePrompt = some pre ∧
    pre.transcriptOffset = (F.position agent before).getD 0
  blank : ∀ turnId, (∀ turn ∈ s.turns, turn.turnId ≠ turnId) →
    (storedFragment s.host.tables turnId).getD "" = ""

omit [DecidableEq Entry] in
/-- The snapshot and the handler count alike. -/
theorem turnStartOffset_environment :
    turnStartOffset (e.environment F agent) e.event = (F.position agent e.transcript).getD 0 := by
  unfold turnStartOffset TranscriptEvent.environment
  cases e.hasSnapshot with
  | false => rfl
  | true =>
    cases hposition : F.position agent e.transcript with
    | none => rfl
    | some position =>
      have hnonneg : (0 : ℤ) ≤ Int.ofNat position := Int.natCast_nonneg position
      rw [if_pos rfl, Option.map_some, Option.filter_some, if_pos (decide_eq_true hnonneg)]
      rfl

omit [DecidableEq Entry] in
/-- The fragment that is written at the end of the open turn. -/
theorem transcriptFragment_turnEndRow {before transcriptRef : String} {pre : PrePromptState}
    (hpre : s.host.prePrompt = some pre)
    (hoffset : pre.transcriptOffset = (F.position agent before).getD 0) :
    (turnEndRow w F.toTranscriptReaders (e.environment F agent) s.host transcriptRef
      e.transcript).transcriptFragment = turnFragment F agent before e.transcript := by
  have hstart : resolveTranscriptOffset s.host.prePrompt = (F.position agent before).getD 0 := by
    rw [hpre, ← hoffset, resolveTranscriptOffset, Option.map_some, Option.filter_some]
    cases hzero : pre.transcriptOffset with
    | zero => rfl
    | succ n => rfl
  have hstop : ((e.environment F agent).extractModifiedFiles transcriptRef
      ((F.position agent before).getD 0)).map (·.2) = F.position agent e.transcript :=
    F.map_snd_extractModifiedFiles agent e.transcript _
  rw [turnEndRow]
  dsimp only
  rw [hstart, turnEndPosition, hstop]
  rfl

theorem windowInv_turnStart (h : WindowInv F agent s) (hopens : opensTurn e.event s.host = true)
    (hclosed : e.closedTurn F agent s.host = none) :
    WindowInv F agent
      (s.handled F agent e (handleTurnStart w (e.environment F agent) e.event s.host)) := by
  have hskip : skipsTurnStart e.event s.host = false := by
    cases hskip : skipsTurnStart e.event s.host
    · rfl
    · simp [opensTurn, hskip] at hopens
  have hturns : (s.handled F agent e
      (handleTurnStart w (e.environment F agent) e.event s.host)).turns = s.turns := by
    simp [TranscriptWorld.handled, turnRecord, hclosed]
  -- the row of a turn that starts has no fragment
  have hstored : ∀ turnId,
      (storedFragment (handleTurnStart w (e.environment F agent) e.event s.host).tables
        turnId).getD "" = (storedFragment s.host.tables turnId).getD "" ∧
      ((storedFragment s.host.tables turnId).isSome →
        (storedFragment (handleTurnStart w (e.environment F agent) e.event s.host).tables
          turnId).isSome) := by
    intro turnId
    rw [handleTurnStart, hskip, if_neg Bool.false_ne_true]
    dsimp only
    rw [storedFragment_recordTurnRow (by rfl), storedFragment_recordSessionRow]
    split_ifs
    · exact ⟨rfl, fun _ => rfl⟩
    · exact ⟨rfl, id⟩
  refine ⟨fun turn hturn => ?_, fun before hbefore => ?_, fun turnId hother => ?_⟩
  · rw [hturns] at hturn
    have htiled := h.tiled turn hturn
    obtain ⟨fragment, hfragment, -⟩ := Option.map_eq_some_iff.mp htiled
    have hsome := (hstored turn.turnId).2 (by rw [hfragment]; rfl)
    obtain ⟨fragment', hfragment'⟩ := Option.isSome_iff_exists.mp hsome
    have heq := (hstored turn.turnId).1
    rw [hfragment, hfragment', Option.getD_some, Option.getD_some] at heq
    show (storedFragment (handleTurnStart w _ _ s.host).tables turn.turnId).map _ = _
    rw [hfragment', heq, ← hfragment]
    exact htiled
  · have hbefore' : e.transcript = before := by
      rw [TranscriptWorld.handled] at hbefore
      dsimp only at hbefore
      rw [if_pos hopens] at hbefore
      exact Option.some.inj hbefore
    refine ⟨openedPrePrompt (e.environment F agent) e.event, ?_, ?_⟩
    · show (handleTurnStart w _ _ s.host).prePrompt = _
      rw [handleTurnStart, hskip, if_neg Bool.false_ne_true]
    · rw [← hbefore']
      exact turnStartOffset_environment
  · rw [hturns] at hother
    exact (hstored turnId).1.trans (h.blank turnId hother)

theorem windowInv_keeps {host : Host} (h : WindowInv F agent s)
    (hkeeps : KeepsWindows (e.environment F agent) e.event s.host host) :
    WindowInv F agent (s.handled F agent e host) := by
  have hclosed : e.closedTurn F agent s.host = none := hkeeps.closes
  have hworld : s.handled F agent e host = { s with host } := by
    simp [TranscriptWorld.handled, turnRecord, hclosed, hkeeps.opens]
  rw [hworld]
  have hstored := storedFragment_congr hkeeps.turns
  refine ⟨fun turn hturn => ?_, fun before hbefore => ?_, fun turnId hother => ?_⟩
  · show (storedFragment host.tables turn.turnId).map _ = _
    rw [hstored]
    exact h.tiled turn hturn
  · show ∃ pre, host.prePrompt = some pre ∧ _
    rw [hkeeps.prePrompt]
    exact h.offset before hbefore
  · show (storedFragment host.tables turnId).getD "" = ""
    rw [hstored]
    exact h.blank turnId hother

theorem windowInv_records {host : Host} (h : WindowInv F agent s) (hok : EndsInStep F agent s e)
    (hrecords : RecordsTurn w F.toTranscriptReaders (e.environment F agent) e.event s.host host) :
    WindowInv F agent (s.handled F agent e host) := by
  have hclosed : e.closedTurn F agent s.host =
      some (endedTurnId (e.environment F agent) s.host) := hrecords.closes
  obtain ⟨⟨before, hbefore, hinStep⟩, hfresh⟩ := hok _ hclosed
  obtain ⟨pre, hpre, hoffset⟩ := h.offset before hbefore
  obtain ⟨transcriptRef, data, htranscript, hrows⟩ := hrecords.turns
  have hdata : data = e.transcript := by
    rw [turnEndTranscript] at htranscript
    split_ifs at htranscript
    obtain ⟨text, htext, hpair⟩ := Option.map_eq_some_iff.mp htranscript
    rw [← Option.some.inj htext] at hpair
    exact (congrArg Prod.snd hpair).symm
  subst hdata
  let turnId := endedTurnId (e.environment F agent) s.host
  have hworld : s.handled F agent e host =
      { host, openedAt := none, turns := s.turns ++ [⟨turnId, before, e.transcript⟩] } := by
    simp [TranscriptWorld.handled, turnRecord, hclosed, hrecords.opens, hbefore, turnId]
  have hstored : ∀ id, storedFragment host.tables id =
      if id = turnId then some (turnFragment F agent before e.transcript)
      else storedFragment s.host.tables id := by
    intro id
    rw [storedFragment_congr hrows, recordTurnEnd, storedFragment_recordTurnRow (by rfl),
      storedFragment_recordSessionRow]
    by_cases hid : id = turnId
    · have hblank := h.blank id fun turn hturn => hid ▸ hfresh turn hturn
      rw [if_pos hid, hblank, transcriptFragment_turnEndRow hpre hoffset, keepWhen_eq fun _ => rfl]
      exact if_pos hid
    · rw [if_neg hid]
      exact if_neg hid
  rw [hworld]
  refine ⟨fun turn hturn => ?_, fun _ hopened => (nomatch hopened), fun id hother => ?_⟩
  · show (storedFragment host.tables turn.turnId).map _ = _
    rw [hstored]
    rcases List.mem_append.mp hturn with hturn | hturn
    · rw [if_neg (hfresh turn hturn)]
      exact h.tiled turn hturn
    · obtain rfl := List.mem_singleton.mp hturn
      rw [if_pos rfl, Option.map_some]
      exact congrArg some (holdsTurn_of_inStep hinStep)
  · show (storedFragment host.tables id).getD "" = ""
    have hne : id ≠ turnId := fun heq =>
      hother _ (List.mem_append_right _ (List.mem_singleton_self _)) heq.symm
    rw [hstored, if_neg hne]
    exact h.blank id fun turn hturn => hother turn (List.mem_append_left _ hturn)

theorem windowInv_step (h : WindowInv F agent s) (hok : EndsInStep F agent s e)
    (hstep : transcriptStep w F agent s e = some s') : WindowInv F agent s' := by
  obtain rfl := Option.some.inj hstep
  cases hhost : dispatchLifecycleEvent w F.toTranscriptReaders (e.environment F agent) e.event
    s.host with
  | none => exact h
  | some host =>
    show WindowInv F agent (s.handled F agent e host)
    rcases window_of_dispatch hhost with ⟨hopens, hclosed, rfl⟩ | hkeeps | hrecords
    · exact windowInv_turnStart h hopens hclosed
    · exact windowInv_keeps h hkeeps
    · exact windowInv_records h hok hrecords

theorem windowInv_empty : WindowInv F agent {} where
  tiled _ h := nomatch h
  offset _ h := nomatch h
  blank _ _ := rfl

/-- **The windows tile the transcript.**  In every run in which each turn that ends was started,
has an id of its own and is in step with the transcript, the stored fragments hold exactly the
entries of their turns. -/
theorem tiled_of_meets_endsInStep {events : List TranscriptEvent}
    (hmeets : Run.Meets (transcriptStep w F agent) (EndsInStep F agent) {} events)
    (hrun : Run.exec (transcriptStep w F agent) {} events = some s) : Tiled F agent s :=
  (Run.exec_invariant_of_meets (WindowInv F agent)
    (fun _ _ _ h hok hstep => windowInv_step h hok hstep) windowInv_empty hmeets hrun).tiled

end Run

/-! ## Turns for examples -/

/-- Transcripts of lines; a blank line holds no entry. -/
def lineFormats : TranscriptFormats String where
  toTranscriptReaders := lineReaders
  messages_empty := rfl
  messages_withMessages _ _ h := absurd h Bool.false_ne_true
  entryOfLine _ line := if line = ['\n'] then none else some (String.ofList line)
  entryOfMessage := some
  entryId _ := ""
  declaresNull _ := false
  isBareObject _ := false
  modifiedFiles _ := []

/-- A turn that starts with the transcript `before` and ends with `after`. -/
def demoTurn (turnId before after : String) : List TranscriptEvent :=
  [(demoDispatch .turnStart "t1" turnId before, before),
    (demoDispatch .turnEnd "t2" "" after, after)].map fun (d, transcript) =>
      { event := d.event, env := d.env, transcript }

theorem grownLines_demoTurn :
    GrownLines lineFormats .codex "one\n" "one\ntwo\n" ["one\n".toList] ["two\n".toList] [] where
  before_eq := by decide
  after_eq := by decide
  isLine line hline := by
    rcases List.mem_cons.mp hline with rfl | hline
    · exact ⟨"one".toList, by decide, by decide⟩
    · obtain rfl := List.mem_singleton.mp hline
      exact ⟨"two".toList, by decide, by decide⟩
  notDocument := rfl
  noEntries _ h := nomatch h

theorem demoTurn_tiled :
    ∃ s, Run.exec (transcriptStep demoWorkspace lineFormats .codex) {}
        (demoTurn "a1" "one\n" "one\ntwo\n") = some s ∧
      s.turns = [⟨"a1", "one\n", "one\ntwo\n"⟩] ∧ Tiled lineFormats .codex s := by
  have hmeets : Run.Meets (transcriptStep demoWorkspace lineFormats .codex)
      (EndsInStep lineFormats .codex) {} (demoTurn "a1" "one\n" "one\ntwo\n") := by
    refine ⟨fun _ h => (nomatch h), fun s hs => ⟨fun turnId _ => ⟨?_, ?_⟩, fun _ _ => trivial⟩⟩
    · obtain rfl := Option.some.inj hs
      exact ⟨"one\n", rfl, .inl ⟨_, _, _, grownLines_demoTurn, rfl⟩⟩
    · obtain rfl := Option.some.inj hs
      exact fun turn h => nomatch h
  exact ⟨_, rfl, by decide, tiled_of_meets_endsInStep hmeets rfl⟩

/-- After a blank line and one entry, the windows of these agents miss the entry of the turn or
hold the earlier one. -/
theorem demoTurn_not_tiled :
    [Agent.claudeCode, .cursor, .openCode, .gemini].map (fun agent =>
      (Run.exec (transcriptStep demoWorkspace lineFormats agent) {}
        (demoTurn "a1" "\none\n" "\none\ntwo\n")).map
          (fun s => decide (Tiled lineFormats agent s))) =
      [some false, some false, some false, some false] := by
  decide

end SessionLifecycle
end Bitloops
