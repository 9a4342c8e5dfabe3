import Bitloops.Foundation.Run
import Bitloops.SessionBackends.Agreement

/-!
# Runs of the backends

Both backends are run side by side, together with the store and the calls so far.  What is expected
of an answer is said by the calls alone: what was written last under an id, and which marker was
created last and not deleted since.
-/

namespace Bitloops
namespace SessionBackends

open UniqueTable

variable {U A Q : Type}

/-- An operation at a time, with the order in which directories are listed. -/
structure Call (U A Q : Type) where
  now : ℕ
  op : Operation U A Q
  readDir : List File → List File := id
  perm : ∀ entries, (readDir entries).Perm entries := by exact fun _ => .rfl

/-! ## What is expected -/

/-- What an operation leaves under the id of a session. -/
def Operation.writesSession (id : String) : Operation U A Q → Option (Option (SessionState U A))
  | .saveSession state => if state.sessionId = id then some (some state) else none
  | .deleteSession id' => if id' = id then some none else none
  | _ => none

def Operation.writesPrePrompt (id : String) : Operation U A Q → Option (Option (PrePromptState Q))
  | .savePrePrompt state => if state.sessionId = id then some (some state) else none
  | .deletePrePrompt id' => if id' = id then some none else none
  | _ => none

def Operation.writesPreTask (id : String) : Operation U A Q → Option (Option PreTaskState)
  | .createPreTaskMarker state => if state.toolUseId = id then some (some state) else none
  | .deletePreTaskMarker id' => if id' = id then some none else none
  | _ => none

/-- What was written last; the operations come latest first. -/
def lastWritten {β : Type} (writes : Operation U A Q → Option (Option β)) :
    List (Operation U A Q) → Option β
  | [] => none
  | op :: past => ((if op.valid then writes op else none).getD (lastWritten writes past))

/-- The marker that was created last and not deleted since; `deleted` were deleted since. -/
def lastMarker (deleted : List String) : List (Operation U A Q) → Option String
  | [] => none
  | op :: past =>
    if !op.valid then lastMarker deleted past
    else
      match op with
      | .createPreTaskMarker state =>
        if state.toolUseId ∈ deleted then lastMarker deleted past else some state.toolUseId
      | .deletePreTaskMarker id => lastMarker (id :: deleted) past
      | _ => lastMarker deleted past

def savedIds (past : List (Operation U A Q)) : List String :=
  past.filterMap fun op =>
    match op with
    | .saveSession state => some state.sessionId
    | _ => none

/-- The answer to an operation after others. -/
def expected (past : List (Operation U A Q)) (op : Operation U A Q) : Answer U A Q :=
  if !op.valid then .invalidId
  else
    match op with
    | .listSessions => .sessions ((savedIds past).dedup.filterMap fun id =>
        (lastWritten (Operation.writesSession id) past).map SessionState.normalizeAfterLoad)
    | .loadSession id => .session
        ((lastWritten (Operation.writesSession id) past).map SessionState.normalizeAfterLoad)
    | .loadPrePrompt id => .prePrompt
        ((lastWritten (Operation.writesPrePrompt id) past).map PrePromptState.normalizeAfterLoad)
    | .loadPreTaskMarker id => .preTask (lastWritten (Operation.writesPreTask id) past)
    | .findActivePreTask => .active (lastMarker [] past)
    | _ => .done

/-- The store holds what was written last. -/
structure Store.Holds (past : List (Operation U A Q)) (store : Store U A Q) : Prop where
  session : ∀ id, (findRow (fun saved => saved.state.sessionId) id store.sessions.rows).map
    Saved.state = lastWritten (Operation.writesSession id) past
  prePrompt : ∀ id, (findRow (fun saved => saved.state.sessionId) id store.prePrompts.rows).map
    Saved.state = lastWritten (Operation.writesPrePrompt id) past
  preTask : ∀ id, (findRow (fun saved => saved.state.toolUseId) id store.preTasks.rows).map
    Saved.state = lastWritten (Operation.writesPreTask id) past
  marker : ∀ deleted,
    ((store.preTasks.rows.filter fun saved => saved.state.toolUseId ∉ deleted).argmax
      Saved.savedAt).map (fun saved => saved.state.toolUseId) = lastMarker deleted past
  ids : ∀ saved ∈ store.sessions.rows, saved.state.sessionId ∈ savedIds past

theorem Store.holds_empty : ({} : Store U A Q).Holds [] where
  session _ := rfl
  prePrompt _ := rfl
  preTask _ := rfl
  marker _ := rfl
  ids _ h := absurd h List.not_mem_nil

variable {store : Store U A Q} {past : List (Operation U A Q)} {now bound : ℕ}
  {op : Operation U A Q} {codecs : Codecs U A Q}

/-- A table that is changed as an operation writes holds what was written last. -/
theorem findRow_state_upsert {α : Type} {key : Saved α → String}
    {t : UniqueTable (Saved α) key} {saved : Saved α} {id : String} :
    (findRow key id (t.upsert saved).rows).map Saved.state =
      if key saved = id then some saved.state else (findRow key id t.rows).map Saved.state := by
  rw [findRow_upsert]
  simp only [eq_comm (a := id)]
  split_ifs <;> rfl

theorem findRow_state_erase {α : Type} {key : Saved α → String}
    {t : UniqueTable (Saved α) key} {id id' : String} :
    (findRow key id (t.erase id').rows).map Saved.state =
      if id' = id then none else (findRow key id t.rows).map Saved.state := by
  rw [findRow_erase]
  simp only [eq_comm (a := id)]
  split_ifs <;> rfl

theorem Store.Holds.session_step (h : store.Holds past) (id : String) :
    (findRow (fun saved => saved.state.sessionId) id (store.step now op).1.sessions.rows).map
      Saved.state = lastWritten (Operation.writesSession id) (op :: past) := by
  rw [lastWritten, ← h.session id]
  unfold Store.step
  by_cases hvalid : op.valid
  · rw [hvalid, if_pos rfl]
    cases op with
    | saveSession state =>
      simp only [Bool.not_true, Bool.false_eq_true, if_false, Operation.writesSession]
      rw [findRow_state_upsert]
      split_ifs <;> rfl
    | deleteSession id' =>
      simp only [Bool.not_true, Bool.false_eq_true, if_false, Operation.writesSession]
      rw [findRow_state_erase]
      split_ifs <;> rfl
    | _ => rfl
  · rw [Bool.not_eq_true] at hvalid
    rw [hvalid]
    rfl

theorem Store.Holds.prePrompt_step (h : store.Holds past) (id : String) :
    (findRow (fun saved => saved.state.sessionId) id (store.step now op).1.prePrompts.rows).map
      Saved.state = lastWritten (Operation.writesPrePrompt id) (op :: past) := by
  rw [lastWritten, ← h.prePrompt id]
  unfold Store.step
  by_cases hvalid : op.valid
  · rw [hvalid, if_pos rfl]
    cases op with
    | savePrePrompt state =>
      simp only [Bool.not_true, Bool.false_eq_true, if_false, Operation.writesPrePrompt]
      rw [findRow_state_upsert]
      split_ifs <;> rfl
    | deletePrePrompt id' =>
      simp only [Bool.not_true, Bool.false_eq_true, if_false, Operation.writesPrePrompt]
      rw [findRow_state_erase]
      split_ifs <;> rfl
    | _ => rfl
  · rw [Bool.not_eq_true] at hvalid
    rw [hvalid]
    rfl

theorem Store.Holds.preTask_step (h : store.Holds past) (id : String) :
    (findRow (fun saved => saved.state.toolUseId) id (store.step now op).1.preTasks.rows).map
      Saved.state = lastWritten (Operation.writesPreTask id) (op :: past) := by
  rw [lastWritten, ← h.preTask id]
  unfold Store.step
  by_cases hvalid : op.valid
  · rw [hvalid, if_pos rfl]
    cases op with
    | createPreTaskMarker state =>
      simp only [Bool.not_true, Bool.false_eq_true, if_false, Operation.writesPreTask]
      rw [findRow_state_upsert]
      split_ifs <;> rfl
    | deletePreTaskMarker id' =>
      simp only [Bool.not_true, Bool.false_eq_true, if_false, Operation.writesPreTask]
      rw [findRow_state_erase]
      split_ifs <;> rfl
    | _ => rfl
  · rw [Bool.not_eq_true] at hvalid
    rw [hvalid]
    rfl

/-- A row that a condition leaves out can be put anywhere. -/
theorem filter_upsert_of_not {α κ : Type} [DecidableEq κ] {key : α → κ} {t : UniqueTable α key}
    {row : α} {p : κ → Bool} (h : p (key row) = false) :
    (t.upsert row).rows.filter (fun r => p (key r)) = t.rows.filter fun r => p (key r) := by
  unfold UniqueTable.upsert
  split_ifs with hmem
  · show (t.rows.map _).filter _ = _
    rw [List.filter_map]
    have hcongr : t.rows.filter ((fun r => p (key r)) ∘ fun x => if key x = key row then row else x)
        = t.rows.filter fun r => p (key r) := by
      refine List.filter_congr fun x _ => ?_
      simp only [Function.comp_apply]
      split_ifs with hx
      · rw [hx]
      · rfl
    rw [hcongr]
    refine (List.map_congr_left fun x hx => ?_).trans (List.map_id _)
    have hkept : p (key x) = true := (List.mem_filter.mp hx).2
    rw [if_neg, id]
    intro heq
    rw [heq, h] at hkept
    cases hkept
  · show (t.rows ++ [row]).filter _ = _
    rw [List.filter_append, List.filter_singleton, h]
    exact List.append_nil _

theorem Store.Holds.marker_step (h : store.Holds past) (hsound : store.Sound codecs bound)
    (hnow : bound ≤ now) (deleted : List String) :
    (((store.step now op).1.preTasks.rows.filter
      fun saved => saved.state.toolUseId ∉ deleted).argmax Saved.savedAt).map
        (fun saved => saved.state.toolUseId) = lastMarker deleted (op :: past) := by
  unfold Store.step lastMarker
  split
  · exact h.marker deleted
  · cases op with
    | createPreTaskMarker state =>
      dsimp only
      by_cases hdeleted : state.toolUseId ∈ deleted
      · have hout : decide (state.toolUseId ∉ deleted) = false := by simpa using hdeleted
        have hsame := @filter_upsert_of_not _ _ _ _ store.preTasks ⟨state, now⟩
          (fun id => decide (id ∉ deleted)) hout
        rw [if_pos hdeleted, hsame]
        exact h.marker deleted
      · have hlatest : ((store.preTasks.upsert ⟨state, now⟩).rows.filter
            fun saved => saved.state.toolUseId ∉ deleted).argmax Saved.savedAt =
              some ⟨state, now⟩ := by
          refine argmax_eq_some_of_lt (List.mem_filter.mpr
            ⟨mem_upsert.mpr (Or.inl rfl), decide_eq_true hdeleted⟩) fun saved hsaved hne => ?_
          rcases mem_upsert.mp (List.mem_filter.mp hsaved).1 with heq | ⟨hold, -⟩
          · exact absurd heq hne
          · exact (hsound.before saved hold).trans_le hnow
        rw [if_neg hdeleted, hlatest]
        rfl
    | deletePreTaskMarker id =>
      have hfilter : (store.preTasks.erase id).rows.filter
          (fun saved => saved.state.toolUseId ∉ deleted) =
            store.preTasks.rows.filter fun saved => saved.state.toolUseId ∉ id :: deleted := by
        rw [erase, delete, List.filter_filter]
        refine List.filter_congr fun saved _ => ?_
        simp [Bool.and_comm]
      dsimp only
      rw [hfilter]
      exact h.marker (id :: deleted)
    | _ => exact h.marker deleted

theorem Store.Holds.ids_step (h : store.Holds past) :
    ∀ saved ∈ (store.step now op).1.sessions.rows, saved.state.sessionId ∈ savedIds (op :: past) := by
  intro saved hsaved
  rw [savedIds, List.filterMap_cons]
  rcases Store.mem_sessions_step hsaved with hold | ⟨-, rfl⟩
  · have hpast : saved.state.sessionId ∈ savedIds past := h.ids saved hold
    cases op with
    | saveSession state => exact List.mem_cons_of_mem _ hpast
    | _ => exact hpast
  · exact List.mem_cons_self

theorem Store.Holds.step (h : store.Holds past) (hsound : store.Sound codecs bound)
    (hnow : bound ≤ now) : (store.step now op).1.Holds (op :: past) where
  session := h.session_step
  prePrompt := h.prePrompt_step
  preTask := h.preTask_step
  marker := h.marker_step hsound hnow
  ids := h.ids_step

/-- The rows of a table are found under the keys that they may have. -/
theorem perm_filterMap_findRow {α κ : Type} [DecidableEq κ] {key : α → κ} {t : UniqueTable α key}
    {keys : List κ} (hnodup : keys.Nodup) (hkeys : ∀ row ∈ t.rows, key row ∈ keys) :
    (keys.filterMap fun k => findRow key k t.rows).Perm t.rows := by
  refine (List.perm_ext_iff_of_nodup ?_ t.unique.of_map).mpr fun row => ?_
  · rw [List.Nodup, List.pairwise_filterMap]
    refine hnodup.imp fun {k k'} hne row hrow row' hrow' heq => hne ?_
    rw [← (findRow_eq_some.mp hrow).2, ← (findRow_eq_some.mp hrow').2, heq]
  · rw [List.mem_filterMap]
    constructor
    · rintro ⟨k, -, hfound⟩
      exact (findRow_eq_some.mp hfound).1
    · exact fun hrow => ⟨key row, hkeys row hrow, findRow_eq_some.mpr ⟨hrow, rfl⟩⟩

/-- **The store answers as expected.** -/
theorem Store.Holds.answer (h : store.Holds past) :
    ((store.step now op).2).Same (expected past op) := by
  unfold Store.step expected
  split
  · exact .refl _
  · cases op with
    | listSessions =>
      have hperm := perm_filterMap_findRow (t := store.sessions) (savedIds past).nodup_dedup
        fun saved hsaved => List.mem_dedup.mpr (h.ids saved hsaved)
      have hstates := hperm.map fun saved => saved.state.normalizeAfterLoad
      rw [List.map_filterMap] at hstates
      refine (Answer.Same.sessions ?_).symm
      simp only [← h.session, Option.map_map]
      exact hstates
    | loadSession id =>
      dsimp only
      rw [← h.session id, Option.map_map]
      exact .refl _
    | loadPrePrompt id =>
      dsimp only
      rw [← h.prePrompt id, Option.map_map]
      exact .refl _
    | loadPreTaskMarker id =>
      dsimp only
      rw [← h.preTask id]
      exact .refl _
    | findActivePreTask =>
      have hmarker := h.marker []
      have hall : store.preTasks.rows.filter (fun saved => saved.state.toolUseId ∉ []) =
          store.preTasks.rows := List.filter_eq_self.mpr fun saved _ => by simp
      rw [hall] at hmarker
      dsimp only
      rw [hmarker]
      exact .refl _
    | _ => exact .refl _

/-! ## Both backends -/

/-- `clock` is the time from which on the next call can come. -/
structure System (U A Q : Type) where
  db : Db := {}
  files : Files := {}
  past : List (Operation U A Q) := []
  clock : ℕ := 0

def System.step (codecs : Codecs U A Q) (s : System U A Q) (call : Call U A Q) :
    Option (System U A Q) :=
  if s.clock ≤ call.now then
    some
      { db := (s.db.step codecs call.now call.op).1
        files := (s.files.step codecs call.readDir call.now call.op).1
        past := call.op :: s.past
        clock := call.now + 1 }
  else none

/-- Both backends answer a call as expected. -/
def System.Agrees (codecs : Codecs U A Q) (s : System U A Q) (call : Call U A Q) : Prop :=
  ((s.db.step codecs call.now call.op).2).Same (expected s.past call.op) ∧
    ((s.files.step codecs call.readDir call.now call.op).2).Same (expected s.past call.op) ∧
      ((s.db.step codecs call.now call.op).2).Same
        (s.files.step codecs call.readDir call.now call.op).2

/-- What an accepted call writes can be restored, and it keeps the order of the markers. -/
def System.Keeps (codecs : Codecs U A Q) (s : System U A Q) (call : Call U A Q) : Prop :=
  call.op.valid → call.op.Restorable codecs ∧ s.db.KeepsOrder call.now call.op

/-- Both backends hold what a store holds. -/
def System.Invariant (codecs : Codecs U A Q) (s : System U A Q) : Prop :=
  ∃ (store : Store U A Q) (created rowid : String → ℕ), store.Sound codecs s.clock ∧
    store.Holds s.past ∧ DbRepresents codecs created rowid s.db store ∧
      FilesRepresents codecs s.files store

theorem System.invariant_empty (codecs : Codecs U A Q) :
    ({} : System U A Q).Invariant codecs :=
  ⟨{}, fun _ => 0, fun _ => 0, Store.sound_empty codecs 0, Store.holds_empty,
    dbRepresents_empty codecs _ _, filesRepresents_empty codecs⟩

theorem System.Invariant.step {s s' : System U A Q} {call : Call U A Q} (h : s.Invariant codecs)
    (hkeeps : s.Keeps codecs call) (hstep : s.step codecs call = some s') :
    s'.Invariant codecs := by
  obtain ⟨store, created, rowid, hsound, hholds, hdb, hfiles⟩ := h
  rw [System.step] at hstep
  split_ifs at hstep with hnow
  obtain rfl := Option.some.inj hstep
  obtain ⟨created', rowid', hdb'⟩ := hdb.step hsound hnow fun hvalid => (hkeeps hvalid).2
  exact ⟨(store.step call.now call.op).1, created', rowid',
    hsound.step hnow fun hvalid => (hkeeps hvalid).1, hholds.step hsound hnow, hdb', hfiles.step⟩

theorem System.Invariant.agrees {s : System U A Q} {call : Call U A Q} (h : s.Invariant codecs) :
    s.Agrees codecs call := by
  obtain ⟨store, created, rowid, hsound, hholds, hdb, hfiles⟩ := h
  have hexpected : ((store.step call.now call.op).2).Same (expected s.past call.op) :=
    hholds.answer
  have hdb' : ((s.db.step codecs call.now call.op).2).Same (expected s.past call.op) :=
    (hdb.answer hsound).trans hexpected
  have hfiles' : ((s.files.step codecs call.readDir call.now call.op).2).Same
      (expected s.past call.op) := (hfiles.answer hsound call.perm).trans hexpected
  exact ⟨hdb', hfiles', hdb'.trans hfiles'.symm⟩

/-- **The backends agree** in every run whose calls write what can be restored, and create no
marker again in the second of a marker that has a later row. -/
theorem backends_agree (codecs : Codecs U A Q) (calls : List (Call U A Q))
    (hkeeps : Run.Meets (System.step codecs) (System.Keeps codecs) {} calls) :
    Run.EachStep (System.step codecs) (fun s call _ => s.Agrees codecs call) {} calls ∧
      (∀ s : SessionState U A, s.normalizeAfterLoad.normalizeAfterLoad = s.normalizeAfterLoad) ∧
        ∀ s : PrePromptState Q, s.normalizeAfterLoad.normalizeAfterLoad = s.normalizeAfterLoad :=
  ⟨Run.eachStep_of_meets (System.Invariant codecs) (fun _ _ _ h hkeeps hstep => h.step hkeeps hstep)
      (fun _ _ _ h _ _ => h.agrees) (System.invariant_empty codecs) hkeeps,
    SessionState.normalizeAfterLoad_idem, PrePromptState.normalizeAfterLoad_idem⟩

def unitCodec : JsonCodec Unit where
  write _ := .bool true
  read _ := some ()
  reread u := u
  read_write _ := rfl
  write_ne_null _ := nofun

def unitCodecs : Codecs Unit Unit Unit where
  usage := unitCodec
  attribution := unitCodec
  prefetch := unitCodec
  reread_usage _ := rfl
  reread_attribution _ := rfl

def createMarker (id : String) (now : ℕ) : Call Unit Unit Unit where
  now := now
  op := .createPreTaskMarker ⟨id, "s", "", []⟩

def findActive (now : ℕ) : Call Unit Unit Unit where
  now := now
  op := .findActivePreTask

/-- Markers that are created once are found. -/
theorem created_found : Run.EachStep (System.step unitCodecs)
    (fun s call _ => s.Agrees unitCodecs call) {}
      [createMarker "a" 0, createMarker "b" 1, findActive 2] := by
  refine (backends_agree unitCodecs [createMarker "a" 0, createMarker "b" 1, findActive 2] ?_).1
  have hname : ∀ id, id = "a" ∨ id = "b" → ¬ preTaskPrefix <+: id.toList := by
    rintro id (rfl | rfl) <;> decide
  refine ⟨fun _ => ⟨hname "a" (.inl rfl), fun _ hold => absurd hold List.not_mem_nil⟩,
    fun s hs => ?_⟩
  obtain rfl := Option.some.inj hs
  refine ⟨fun _ => ⟨hname "b" (.inr rfl), fun old hold hid => ?_⟩, fun s hs => ?_⟩
  · obtain rfl := List.mem_singleton.mp hold
    exact absurd hid (by decide)
  · exact ⟨fun _ => ⟨trivial, trivial⟩, fun _ _ => trivial⟩

/-- A marker that is created again in its second is behind a later one. -/
theorem recreated_not_found : ¬ Run.EachStep (System.step unitCodecs)
    (fun s call _ => s.Agrees unitCodecs call) {}
      [createMarker "a" 0, createMarker "b" 1, createMarker "a" 2, findActive 3] := by
  intro h
  obtain ⟨-, h⟩ := h
  obtain ⟨-, h⟩ := h _ rfl
  obtain ⟨-, h⟩ := h _ rfl
  obtain ⟨h, -⟩ := h _ rfl
  obtain ⟨hdb, -, -⟩ := h _ rfl
  have hanswer : Answer.Same (.active (some "b") : Answer Unit Unit Unit) (.active (some "a")) :=
    hdb
  have hid : ("b" : String) = "a" := by
    generalize ("b" : String) = b, ("a" : String) = a at hanswer ⊢
    cases hanswer
    rfl
  exact absurd hid (by decide)

end SessionBackends
end Bitloops
