import Bitloops.SessionBackends.Backends

/-!
# The backends agree

Both backends do what the store does, as long as no step meets one of the differences between them:
`Db.step_agrees` and `Files.step_agrees` say this for one step, and `backends_agree` for every run.
-/

namespace Bitloops
namespace SessionBackends

open ArchitectureRoles UniqueTable
open LanguageAdapter (trim)

variable {U A Q : Type}

/-- The same answer, with lists in any order. -/
inductive Answer.Same : Answer U A Q → Answer U A Q → Prop where
  | refl (answer) : Same answer answer
  | sessions {states states'} : states.Perm states' → Same (.sessions states) (.sessions states')

theorem Answer.Same.symm {a b : Answer U A Q} (h : a.Same b) : b.Same a := by
  cases h with
  | refl => exact .refl _
  | sessions h => exact .sessions h.symm

theorem Answer.Same.trans {a b c : Answer U A Q} (h : a.Same b) (h' : b.Same c) : a.Same c := by
  cases h with
  | refl => exact h'
  | sessions h =>
    cases h' with
    | refl => exact .sessions h
    | sessions h' => exact .sessions (h.trans h')

/-! ## Rows of sessions -/

/-- What the columns keep of a state: no blank start, and no lines of older versions. -/
def SessionState.stored (s : SessionState U A) : SessionState U A :=
  { s with
    startedAt := (emptyAsNone s.startedAt).getD ""
    condensedTranscriptLines := 0
    transcriptLinesAtStart := 0 }

/-- A start that is blank is empty, and no start of a transcript comes from older versions. -/
structure SessionState.Restorable (s : SessionState U A) : Prop where
  startedAt : trim s.startedAt.toList = [] → s.startedAt = ""
  start : s.pending.checkpointTranscriptStart = 0 →
    ¬ 0 < s.condensedTranscriptLines ∧ ¬ 0 < s.transcriptLinesAtStart

theorem uint32OfInt64_ofNat (n : UInt32) : uint32OfInt64 (Int64.ofNat n.toNat) = n := by
  have hlt := n.toNat_lt
  have hint : (Int64.ofNat n.toNat).toInt = n.toNat := by
    refine Int64.toInt_ofNat_of_lt ?_
    omega
  rw [uint32OfInt64, hint, if_pos ⟨Int.natCast_nonneg _, by omega⟩, Int.toNat_natCast,
    UInt32.ofNat_toNat]

theorem readNested_optionJson {α : Type} {codec : JsonCodec α} (value : Option α) :
    readNested codec (some (optionJson codec value)) = some (value.map codec.reread) := by
  cases value with
  | none => rfl
  | some a => exact readNested_write (some a)

theorem mapSessionRow_sessionRow (codecs : StateCodecs U A) (now created : ℕ)
    (s : SessionState U A) :
    mapSessionRow codecs { sessionRow codecs now s with createdAt := created } =
      some s.stored.normalizeAfterLoad := by
  have husage : s.pending.tokenUsage.map codecs.usage.reread = s.pending.tokenUsage := by
    rw [show codecs.usage.reread = id from funext codecs.reread_usage, Option.map_id]
    rfl
  have hattribution : s.pendingPromptAttribution.map codecs.attribution.reread =
      s.pendingPromptAttribution := by
    rw [show codecs.attribution.reread = id from funext codecs.reread_attribution, Option.map_id]
    rfl
  have hattributions : s.promptAttributions.map codecs.attribution.reread =
      s.promptAttributions := by
    rw [show codecs.attribution.reread = id from funext codecs.reread_attribution, List.map_id]
  have htexts : ∀ texts : List String,
      readTextArray (.array (texts.map .string)) = some texts := mapM_asStr
  have hlist : readNestedArray codecs.attribution
      (.array (s.promptAttributions.map codecs.attribution.write)) =
        some (s.promptAttributions.map codecs.attribution.reread) := mapM_read _
  simp only [mapSessionRow, sessionRow, parseOptionalJsonColumn, htexts, hlist,
    readNested_optionJson, husage, hattribution, hattributions, uint32OfInt64_ofNat,
    SessionPhase.fromString_asStr, Option.bind_eq_bind, Option.bind_some]
  -- the flag is a number in the row
  obtain ⟨isAuxiliary, hauxiliary⟩ : ∃ flag, s.isAuxiliary = flag := ⟨_, rfl⟩
  cases isAuxiliary
  · simp [hauxiliary, SessionState.stored]
  · simp [hauxiliary, SessionState.stored]

theorem normalizeAfterLoad_stored_iff (s : SessionState U A) :
    s.stored.normalizeAfterLoad = s.normalizeAfterLoad ↔ s.Restorable := by
  have hzero : ¬ (0 : Int64) < 0 := by decide
  have hstart : s.stored.normalizeAfterLoad.pending.checkpointTranscriptStart =
      s.pending.checkpointTranscriptStart := by
    simp [SessionState.stored, SessionState.normalizeAfterLoad, hzero]
  constructor
  · intro h
    refine ⟨fun hblank => ?_, fun hnone => ?_⟩
    · have hstarted := congrArg SessionState.startedAt h
      rw [show s.normalizeAfterLoad.startedAt = s.startedAt from rfl] at hstarted
      rw [← hstarted]
      change (emptyAsNone s.startedAt).getD "" = ""
      rw [emptyAsNone, if_pos hblank, Option.getD_none]
    · rw [h] at hstart
      have hpositive : ∀ n : Int64, 0 < n → n ≠ 0 := fun n hn heq => hzero (heq ▸ hn)
      simp only [SessionState.normalizeAfterLoad, hnone, if_true] at hstart
      split_ifs at hstart with hcondensed hlines
      · exact absurd hstart (hpositive _ hcondensed)
      · exact absurd hstart (hpositive _ hlines)
      · exact ⟨hcondensed, hlines⟩
  · intro h
    have hstarted : (emptyAsNone s.startedAt).getD "" = s.startedAt := by
      rw [emptyAsNone]
      split_ifs with hblank
      · exact (h.startedAt hblank).symm
      · rfl
    have hnormal : (if s.pending.checkpointTranscriptStart = 0 then
        if 0 < s.condensedTranscriptLines then s.condensedTranscriptLines
        else if 0 < s.transcriptLinesAtStart then s.transcriptLinesAtStart
        else s.pending.checkpointTranscriptStart
        else s.pending.checkpointTranscriptStart) = s.pending.checkpointTranscriptStart := by
      split_ifs with hnone hcondensed hlines
      · exact absurd hcondensed (h.start hnone).1
      · exact absurd hlines (h.start hnone).2
      · rfl
      · rfl
    simp only [SessionState.normalizeAfterLoad, SessionState.stored, hstarted, hnormal, hzero,
      if_false, ite_self]

/-- A row gives the saved state back exactly when the state is restorable. -/
theorem mapSessionRow_sessionRow_iff (codecs : StateCodecs U A) (now created : ℕ)
    (s : SessionState U A) :
    mapSessionRow codecs { sessionRow codecs now s with createdAt := created } =
      some s.normalizeAfterLoad ↔ s.Restorable := by
  rw [mapSessionRow_sessionRow, Option.some_inj, normalizeAfterLoad_stored_iff]

/-! ## Names of files -/

theorem takeWhile_ne_append {stop : Char} {word rest : List Char} (hword : stop ∉ word) :
    (word ++ stop :: rest).takeWhile (· ≠ stop) = word := by
  rw [List.takeWhile_append_of_pos]
  · simp
  · intro c hc
    rw [decide_eq_true_iff]
    exact fun heq => hword (heq ▸ hc)

theorem extension_append {stem word : List Char} (hstem : stem ≠ []) (hword : '.' ∉ word) :
    extension (stem ++ '.' :: word) = some word := by
  have hlast : ((stem ++ '.' :: word).reverse.takeWhile (· ≠ '.')).reverse = word := by
    rw [List.reverse_append, List.reverse_cons, List.append_assoc, List.singleton_append,
      takeWhile_ne_append (fun h => hword (List.mem_reverse.mp h)), List.reverse_reverse]
  have htake : (stem ++ '.' :: word).take
      ((stem ++ '.' :: word).length - word.length - 1) = stem := by
    have hlength : (stem ++ '.' :: word).length - word.length - 1 = stem.length := by
      rw [List.length_append, List.length_cons]
      omega
    rw [hlength, List.take_left]
  have hlonger : word.length ≠ (stem ++ '.' :: word).length := by
    rw [List.length_append, List.length_cons]
    omega
  simp only [extension, hlast, htake]
  rw [if_neg (not_or.mpr ⟨hlonger, hstem⟩)]

theorem extension_sessionName {id : String} (hid : id ≠ "") :
    extension (sessionName id) = some "json".toList :=
  extension_append (fun h => hid (String.toList_eq_nil_iff.mp h)) (by decide)

theorem sessionName_injective : Function.Injective sessionName := fun _ _ h =>
  String.toList_inj.mp (List.append_cancel_right h)

theorem prePromptName_injective : Function.Injective prePromptName := fun _ _ h =>
  String.toList_inj.mp (List.append_cancel_right (List.append_cancel_left h))

theorem preTaskName_injective : Function.Injective preTaskName := fun _ _ h =>
  String.toList_inj.mp (List.append_cancel_right (List.append_cancel_left h))

theorem prePrompt_ne_preTask (rest : List Char) :
    ¬ preTaskPrefix <+: prePromptPrefix ++ rest := by
  have hname : prePromptPrefix ++ rest = "pre-p".toList ++ ("rompt-".toList ++ rest) := rfl
  rw [hname, show preTaskPrefix = "pre-t".toList ++ "ask-".toList from rfl]
  rintro ⟨tail, htail⟩
  rw [List.append_assoc] at htail
  exact absurd (List.append_inj htail rfl).1 (by decide)

theorem preTask_ne_prePrompt (rest : List Char) :
    ¬ prePromptPrefix <+: preTaskPrefix ++ rest := by
  have hname : preTaskPrefix ++ rest = "pre-t".toList ++ ("ask-".toList ++ rest) := rfl
  rw [hname, show prePromptPrefix = "pre-p".toList ++ "rompt-".toList from rfl]
  rintro ⟨tail, htail⟩
  rw [List.append_assoc] at htail
  exact absurd (List.append_inj htail rfl).1 (by decide)

theorem trimStartMatches_of_not {pattern text : List Char} {fuel : ℕ}
    (h : ¬ pattern <+: text) : trimStartMatches pattern fuel text = text := by
  cases fuel with
  | zero => rfl
  | succ fuel => rw [trimStartMatches, if_neg (by rwa [List.isPrefixOf_iff_prefix])]

/-- One match is removed when another one does not follow. -/
theorem trimStartMatches_append {pattern text : List Char} {fuel : ℕ}
    (h : ¬ pattern <+: text) (hfuel : 0 < fuel) :
    trimStartMatches pattern fuel (pattern ++ text) = text := by
  obtain ⟨fuel, rfl⟩ := Nat.exists_eq_succ_of_ne_zero hfuel.ne'
  rw [trimStartMatches, if_pos (List.isPrefixOf_iff_prefix.mpr (List.prefix_append _ _)),
    List.drop_left, trimStartMatches_of_not h]

theorem prefix_of_prefix_append {pattern text rest : List Char} {stop : Char}
    (hstop : stop ∉ pattern) (h : pattern <+: text ++ stop :: rest) : pattern <+: text := by
  rcases List.prefix_or_prefix_of_prefix h (List.prefix_append text _) with hpattern | ⟨tail, rfl⟩
  · exact hpattern
  · rw [List.prefix_append_right_inj] at h
    cases tail with
    | nil => exact (List.append_nil text).symm ▸ List.prefix_refl text
    | cons c tail =>
      obtain ⟨rfl, -⟩ := List.cons_prefix_cons.mp h
      exact absurd (List.mem_append_right _ List.mem_cons_self) hstop

theorem not_mem_of_validToolUseId {id : String} (h : validToolUseId id) : '.' ∉ id.toList := by
  intro hmem
  exact absurd (List.all_eq_true.mp h '.' hmem) (by decide)

theorem markerId_preTaskName {id : String} (hvalid : validToolUseId id)
    (hleading : ¬ preTaskPrefix <+: id.toList) : markerId (preTaskName id) = some id := by
  have hrest : ¬ preTaskPrefix <+: id.toList ++ jsonSuffix := fun h =>
    hleading (prefix_of_prefix_append (by decide) h)
  have hstart : trimStartMatches preTaskPrefix (preTaskName id).length (preTaskName id) =
      id.toList ++ jsonSuffix := by
    refine trimStartMatches_append hrest ?_
    rw [preTaskName, List.length_append]
    exact Nat.add_pos_left (by decide) _
  have hback : ¬ jsonSuffix.reverse <+: id.toList.reverse := by
    rw [List.reverse_prefix]
    rintro ⟨front, hfront⟩
    refine not_mem_of_validToolUseId hvalid ?_
    rw [← hfront]
    exact List.mem_append_right _ (by decide)
  have hend : trimEndMatches jsonSuffix (id.toList ++ jsonSuffix) = id.toList := by
    rw [trimEndMatches, List.reverse_append, trimStartMatches_append hback, List.reverse_reverse]
    rw [List.length_append]
    exact Nat.add_pos_right _ (by decide)
  have hstarts : preTaskPrefix.isPrefixOf (preTaskName id) :=
    List.isPrefixOf_iff_prefix.mpr (List.prefix_append _ _)
  have hends : jsonSuffix.isSuffixOf (preTaskName id) := by
    rw [List.isSuffixOf_iff_suffix, preTaskName, ← List.append_assoc]
    exact List.suffix_append _ _
  rw [markerId, hstarts, hends, hstart, hend, String.ofList_toList]
  rfl

/-- A prefix in the id is lost. -/
example : markerId (preTaskName "pre-task-x") = some "x" := by decide

theorem markerId_of_prePromptPrefix {name : List Char} (h : prePromptPrefix <+: name) :
    markerId name = none := by
  obtain ⟨rest, rfl⟩ := h
  have hnot : preTaskPrefix.isPrefixOf (prePromptPrefix ++ rest) = false := by
    rw [← Bool.not_eq_true, List.isPrefixOf_iff_prefix]
    exact prePrompt_ne_preTask rest
  rw [markerId, hnot]
  rfl

/-! ## Sound stores -/

/-- What an operation writes can be restored, by the names of files too. -/
def Operation.Restorable (codecs : Codecs U A Q) : Operation U A Q → Prop
  | .saveSession state => state.Restorable
  | .savePrePrompt state => state.devqlPrefetch.map codecs.prefetch.reread = state.devqlPrefetch
  | .createPreTaskMarker state => ¬ preTaskPrefix <+: state.toolUseId.toList
  | _ => True

structure Store.Sound (codecs : Codecs U A Q) (bound : ℕ) (store : Store U A Q) : Prop where
  session : ∀ saved ∈ store.sessions.rows, saved.state.sessionId ≠ "" ∧ saved.state.Restorable
  prePrompt : ∀ saved ∈ store.prePrompts.rows,
    saved.state.devqlPrefetch.map codecs.prefetch.reread = saved.state.devqlPrefetch
  preTask : ∀ saved ∈ store.preTasks.rows,
    validToolUseId saved.state.toolUseId ∧ ¬ preTaskPrefix <+: saved.state.toolUseId.toList
  before : ∀ saved ∈ store.preTasks.rows, saved.savedAt < bound
  times : ∀ a ∈ store.preTasks.rows, ∀ b ∈ store.preTasks.rows, a.savedAt = b.savedAt → a = b

theorem Store.sound_empty (codecs : Codecs U A Q) (bound : ℕ) :
    ({} : Store U A Q).Sound codecs bound where
  session _ h := absurd h List.not_mem_nil
  prePrompt _ h := absurd h List.not_mem_nil
  preTask _ h := absurd h List.not_mem_nil
  before _ h := absurd h List.not_mem_nil
  times _ h := absurd h List.not_mem_nil

variable {codecs : Codecs U A Q} {store : Store U A Q} {now bound : ℕ} {op : Operation U A Q}

theorem Store.mem_sessions_step {saved : Saved (SessionState U A)}
    (h : saved ∈ (store.step now op).1.sessions.rows) :
    saved ∈ store.sessions.rows ∨ op.valid ∧ op = .saveSession saved.state := by
  unfold Store.step at h
  split at h
  · exact Or.inl h
  · rename_i hvalid
    rw [Bool.not_eq_true, Bool.not_eq_false'] at hvalid
    cases op with
    | saveSession state =>
      rcases mem_upsert.mp h with rfl | ⟨hold, -⟩
      · exact Or.inr ⟨hvalid, rfl⟩
      · exact Or.inl hold
    | deleteSession id => exact Or.inl (mem_erase.mp h).1
    | _ => exact Or.inl h

theorem Store.mem_prePrompts_step {saved : Saved (PrePromptState Q)}
    (h : saved ∈ (store.step now op).1.prePrompts.rows) :
    saved ∈ store.prePrompts.rows ∨ op.valid ∧ op = .savePrePrompt saved.state := by
  unfold Store.step at h
  split at h
  · exact Or.inl h
  · rename_i hvalid
    rw [Bool.not_eq_true, Bool.not_eq_false'] at hvalid
    cases op with
    | savePrePrompt state =>
      rcases mem_upsert.mp h with rfl | ⟨hold, -⟩
      · exact Or.inr ⟨hvalid, rfl⟩
      · exact Or.inl hold
    | deletePrePrompt id => exact Or.inl (mem_erase.mp h).1
    | _ => exact Or.inl h

theorem Store.mem_preTasks_step {saved : Saved PreTaskState}
    (h : saved ∈ (store.step now op).1.preTasks.rows) :
    saved ∈ store.preTasks.rows ∨
      op.valid ∧ op = .createPreTaskMarker saved.state ∧ saved.savedAt = now := by
  unfold Store.step at h
  split at h
  · exact Or.inl h
  · rename_i hvalid
    rw [Bool.not_eq_true, Bool.not_eq_false'] at hvalid
    cases op with
    | createPreTaskMarker state =>
      rcases mem_upsert.mp h with rfl | ⟨hold, -⟩
      · exact Or.inr ⟨hvalid, rfl, rfl⟩
      · exact Or.inl hold
    | deletePreTaskMarker id => exact Or.inl (mem_erase.mp h).1
    | _ => exact Or.inl h

theorem Store.Sound.step (h : store.Sound codecs bound) (hnow : bound ≤ now)
    (hop : op.valid → op.Restorable codecs) : (store.step now op).1.Sound codecs (now + 1) where
  session saved hsaved := by
    rcases mem_sessions_step hsaved with hold | ⟨hvalid, rfl⟩
    · exact h.session saved hold
    · refine ⟨?_, hop hvalid⟩
      rw [Operation.valid, validSessionId, Bool.and_eq_true, decide_eq_true_iff] at hvalid
      exact hvalid.1
  prePrompt saved hsaved := by
    rcases mem_prePrompts_step hsaved with hold | ⟨hvalid, rfl⟩
    · exact h.prePrompt saved hold
    · exact hop hvalid
  preTask saved hsaved := by
    rcases mem_preTasks_step hsaved with hold | ⟨hvalid, rfl, -⟩
    · exact h.preTask saved hold
    · exact ⟨hvalid, hop hvalid⟩
  before saved hsaved := by
    rcases mem_preTasks_step hsaved with hold | ⟨-, -, hnew⟩
    · have hbefore := h.before saved hold
      omega
    · omega
  times a ha b hb heq := by
    rcases mem_preTasks_step ha with hold | ⟨-, rfl, hnew⟩
    · have hbefore := h.before a hold
      rcases mem_preTasks_step hb with hold' | ⟨-, -, hnew'⟩
      · exact h.times a hold b hold' heq
      · omega
    · rcases mem_preTasks_step hb with hold' | ⟨-, hop', hnew'⟩
      · have hbefore := h.before b hold'
        omega
      · have hstate := Operation.createPreTaskMarker.inj hop'
        obtain ⟨state, savedAt⟩ := a
        obtain ⟨state', savedAt'⟩ := b
        obtain rfl : state = state' := hstate
        obtain rfl : savedAt = savedAt' := heq
        rfl

/-! ## The rows of a store -/

def savedRow (codecs : StateCodecs U A) (created : String → ℕ)
    (saved : Saved (SessionState U A)) : SessionRow :=
  { sessionRow codecs saved.savedAt saved.state with createdAt := created saved.state.sessionId }

def promptRow (codec : JsonCodec Q) (saved : Saved (PrePromptState Q)) : String × JsonValue :=
  (saved.state.sessionId, saved.state.toJson codec)

def markerRow (rowid : String → ℕ) (saved : Saved PreTaskState) : MarkerRow where
  toolUseId := saved.state.toolUseId
  sessionId := saved.state.sessionId
  data := saved.state.toJson
  createdAt := seconds saved.savedAt
  rowid := rowid saved.state.toolUseId

/-- The rows of the database are those of the store, and later markers come later in their order. -/
structure DbRepresents (codecs : Codecs U A Q) (created rowid : String → ℕ) (db : Db)
    (store : Store U A Q) : Prop where
  sessions : IsImage (fun _ => True) (savedRow codecs.toStateCodecs created) db.sessions
    store.sessions
  prePrompts : IsImage (fun _ => True) (promptRow codecs.prefetch) db.prePromptStates
    store.prePrompts
  markers : IsImage (fun _ => True) (markerRow rowid) db.preTaskMarkers store.preTasks
  order : ∀ a ∈ store.preTasks.rows, ∀ b ∈ store.preTasks.rows, a.savedAt < b.savedAt →
    toLex (seconds a.savedAt, rowid a.state.toolUseId) <
      toLex (seconds b.savedAt, rowid b.state.toolUseId)

/-- A marker that is created again has no marker of the same second behind it. -/
def Db.KeepsOrder (now : ℕ) (db : Db) : Operation U A Q → Prop
  | .createPreTaskMarker state => ∀ old ∈ db.preTaskMarkers.rows,
    old.toolUseId = state.toolUseId → ∀ row ∈ db.preTaskMarkers.rows,
      row.toolUseId ≠ state.toolUseId → row.createdAt = seconds now → row.rowid < old.rowid
  | _ => True

variable {created rowid : String → ℕ} {db : Db}

theorem dbRepresents_empty (codecs : Codecs U A Q) (created rowid : String → ℕ) :
    DbRepresents codecs created rowid {} {} where
  sessions := .empty
  prePrompts := .empty
  markers := .empty
  order _ h := absurd h List.not_mem_nil

theorem found_map {α β γ : Type} {answer : Option γ → Answer U A Q} (read : β → Option γ)
    {g : α → β} {normal : α → γ} {o : Option α} (h : ∀ a ∈ o, read (g a) = some (normal a)) :
    found answer read (o.map g) = answer (o.map normal) := by
  cases o with
  | none => rfl
  | some a =>
    have hread := h a rfl
    simp only [Option.map_some, found, hread]

theorem mapSessionRow_savedRow {codecs : StateCodecs U A} {saved : Saved (SessionState U A)}
    (h : saved.state.Restorable) :
    mapSessionRow codecs (savedRow codecs created saved) = some saved.state.normalizeAfterLoad :=
  (mapSessionRow_sessionRow_iff codecs saved.savedAt _ saved.state).mpr h

theorem fromJson_prompt {codec : JsonCodec Q} {state : PrePromptState Q}
    (h : state.devqlPrefetch.map codec.reread = state.devqlPrefetch) :
    (PrePromptState.fromJson codec (state.toJson codec)).map PrePromptState.normalizeAfterLoad =
      some state.normalizeAfterLoad := by
  rw [PrePromptState.fromJson_toJson, h]
  rfl

/-! ## Steps of the database -/

theorem nextRowid_gt {markers : List MarkerRow} {row : MarkerRow} (h : row ∈ markers) :
    row.rowid < nextRowid markers := by
  have hle : row.rowid ≤ (markers.map MarkerRow.rowid).foldr max 0 := by
    induction markers with
    | nil => exact absurd h List.not_mem_nil
    | cons first markers ih =>
      rcases List.mem_cons.mp h with rfl | h
      · exact le_max_left _ _
      · exact (ih h).trans (le_max_right _ _)
  exact Nat.lt_succ_of_le hle

/-- The row that a marker is written to comes last in its second. -/
theorem exists_rowid (rowid : String → ℕ) (state : PreTaskState)
    (hkeeps : db.KeepsOrder now (.createPreTaskMarker state : Operation U A Q)) :
    ∃ c, db.preTaskMarkers.upsertMerged (fun old new => { new with rowid := old.rowid })
        { toolUseId := state.toolUseId
          sessionId := state.sessionId
          data := state.toJson
          createdAt := seconds now
          rowid := nextRowid db.preTaskMarkers.rows } =
        db.preTaskMarkers.upsert
          (markerRow (Function.update rowid state.toolUseId c) ⟨state, now⟩) ∧
      ∀ row ∈ db.preTaskMarkers.rows, row.toolUseId ≠ state.toolUseId →
        row.createdAt = seconds now → row.rowid < c := by
  cases hfound : findRow MarkerRow.toolUseId state.toolUseId db.preTaskMarkers.rows with
  | none =>
    refine ⟨nextRowid db.preTaskMarkers.rows, ?_, fun row hrow _ _ => nextRowid_gt hrow⟩
    simp only [upsertMerged, hfound, Option.map_none, Option.getD_none, markerRow,
      Function.update_self]
  | some old =>
    obtain ⟨hold, hid⟩ := findRow_eq_some.mp hfound
    refine ⟨old.rowid, ?_, hkeeps old hold hid⟩
    simp only [upsertMerged, hfound, Option.map_some, Option.getD_some, markerRow,
      Function.update_self]

theorem exists_created (codecs : StateCodecs U A) (db : Db) (now : ℕ) (created : String → ℕ)
    (state : SessionState U A) :
    ∃ c, db.sessions.upsertMerged (fun old new => { new with createdAt := old.createdAt })
        (sessionRow codecs now state) =
      db.sessions.upsert
        (savedRow codecs (Function.update created state.sessionId c) ⟨state, now⟩) := by
  cases hfound : findRow SessionRow.sessionId state.sessionId db.sessions.rows with
  | none =>
    refine ⟨seconds now, ?_⟩
    have hfound' : findRow SessionRow.sessionId (sessionRow codecs now state).sessionId
        db.sessions.rows = none := hfound
    rw [upsertMerged, hfound', Option.map_none, Option.getD_none, savedRow, Function.update_self]
    rfl
  | some old =>
    refine ⟨old.createdAt, ?_⟩
    have hfound' : findRow SessionRow.sessionId (sessionRow codecs now state).sessionId
        db.sessions.rows = some old := hfound
    rw [upsertMerged, hfound', Option.map_some, Option.getD_some, savedRow, Function.update_self]

theorem DbRepresents.order_create (h : DbRepresents codecs created rowid db store)
    (hsound : store.Sound codecs bound) (hnow : bound ≤ now) {state : PreTaskState} {c : ℕ}
    (hlast : ∀ row ∈ db.preTaskMarkers.rows, row.toolUseId ≠ state.toolUseId →
      row.createdAt = seconds now → row.rowid < c) :
    ∀ a ∈ (store.preTasks.upsert ⟨state, now⟩).rows,
      ∀ b ∈ (store.preTasks.upsert ⟨state, now⟩).rows, a.savedAt < b.savedAt →
        toLex (seconds a.savedAt, Function.update rowid state.toolUseId c a.state.toolUseId) <
          toLex (seconds b.savedAt, Function.update rowid state.toolUseId c b.state.toolUseId) := by
  intro a ha b hb hlt
  rcases mem_upsert.mp ha with rfl | ⟨hold, hne⟩
  · -- nothing is later than the new marker
    exfalso
    rcases mem_upsert.mp hb with rfl | ⟨hold', -⟩
    · exact lt_irrefl _ hlt
    · exact absurd ((hsound.before b hold').trans_le hnow) (not_lt_of_gt hlt)
  · rw [Function.update_of_ne hne]
    rcases mem_upsert.mp hb with rfl | ⟨hold', hne'⟩
    · rw [Function.update_self, Prod.Lex.toLex_lt_toLex]
      have hle : seconds a.savedAt ≤ seconds now := Nat.div_le_div_right hlt.le
      rcases hle.lt_or_eq with hearlier | hsame
      · exact Or.inl hearlier
      · exact Or.inr ⟨hsame, hlast _ (h.markers.mem_image hold) hne hsame⟩
    · rw [Function.update_of_ne hne']
      exact h.order a hold b hold' hlt

/-- **The database stays that of the store.** -/
theorem DbRepresents.step (h : DbRepresents codecs created rowid db store)
    (hsound : store.Sound codecs bound) (hnow : bound ≤ now)
    (hkeeps : op.valid → db.KeepsOrder now op) :
    ∃ created' rowid',
      DbRepresents codecs created' rowid' (db.step codecs now op).1 (store.step now op).1 := by
  unfold Db.step Store.step
  split
  · exact ⟨created, rowid, h⟩
  · rename_i hvalid
    rw [Bool.not_eq_true, Bool.not_eq_false'] at hvalid
    cases op with
    | saveSession state =>
      obtain ⟨c, hrow⟩ := exists_created codecs.toStateCodecs db now created state
      refine ⟨Function.update created state.sessionId c, rowid, ?_, h.prePrompts, h.markers,
        h.order⟩
      dsimp only
      rw [hrow]
      refine h.sessions.upsert (f := id) (fun _ => rfl) Function.injective_id trivial ?_
        fun _ _ => rfl
      intro saved _ hne
      rw [savedRow, savedRow, Function.update_of_ne hne]
    | deleteSession id =>
      exact ⟨created, rowid, h.sessions.erase (f := fun k => k) (fun _ => rfl)
        Function.injective_id id, h.prePrompts, h.markers, h.order⟩
    | savePrePrompt state =>
      exact ⟨created, rowid, h.sessions, h.prePrompts.upsert (f := fun k => k)
        (r := ⟨state, now⟩) (fun _ => rfl) Function.injective_id trivial (fun _ _ _ => rfl)
        fun _ _ => rfl, h.markers, h.order⟩
    | deletePrePrompt id =>
      exact ⟨created, rowid, h.sessions, h.prePrompts.erase (f := fun k => k) (fun _ => rfl)
        Function.injective_id id, h.markers, h.order⟩
    | createPreTaskMarker state =>
      obtain ⟨c, hrow, hlast⟩ := exists_rowid rowid state (hkeeps hvalid)
      refine ⟨created, Function.update rowid state.toolUseId c, h.sessions, h.prePrompts, ?_,
        h.order_create hsound hnow hlast⟩
      dsimp only
      rw [hrow]
      refine h.markers.upsert (f := id) (fun _ => rfl) Function.injective_id trivial ?_
        fun _ _ => rfl
      intro saved _ hne
      rw [markerRow, markerRow, Function.update_of_ne hne]
    | deletePreTaskMarker id =>
      refine ⟨created, rowid, h.sessions, h.prePrompts, h.markers.erase (f := fun k => k)
        (fun _ => rfl) Function.injective_id id, fun a ha b hb => ?_⟩
      exact h.order a (mem_erase.mp ha).1 b (mem_erase.mp hb).1
    | _ => exact ⟨created, rowid, h⟩

/-- The one row that is greater than all others is found. -/
theorem argmax_eq_some_of_lt {α β : Type} [LinearOrder β] {f : α → β} {l : List α} {m : α}
    (hm : m ∈ l) (hlt : ∀ a ∈ l, a ≠ m → f a < f m) : l.argmax f = some m := by
  cases hfound : l.argmax f with
  | none =>
    rw [List.argmax_eq_none.mp hfound] at hm
    exact absurd hm List.not_mem_nil
  | some a =>
    have ha : a ∈ l.argmax f := hfound
    by_contra hne
    have hless := hlt a (List.argmax_mem ha) fun heq => hne (congrArg some heq)
    exact absurd (List.le_of_mem_argmax hm ha) (not_le_of_gt hless)

theorem Store.Sound.lt_latest (h : store.Sound codecs bound) {m a : Saved PreTaskState}
    (hm : m ∈ store.preTasks.rows.argmax Saved.savedAt) (ha : a ∈ store.preTasks.rows)
    (hne : a ≠ m) : a.savedAt < m.savedAt := by
  refine lt_of_le_of_ne (List.le_of_mem_argmax ha hm) fun heq => hne ?_
  exact h.times a ha m (List.argmax_mem hm) heq

theorem DbRepresents.latestMarker (h : DbRepresents codecs created rowid db store)
    (hsound : store.Sound codecs bound) :
    (latestMarker db.preTaskMarkers.rows).map MarkerRow.toolUseId =
      (store.preTasks.rows.argmax Saved.savedAt).map fun saved => saved.state.toolUseId := by
  cases hfound : store.preTasks.rows.argmax Saved.savedAt with
  | none =>
    have hempty : db.preTaskMarkers.rows = [] := by
      rw [List.eq_nil_iff_forall_not_mem]
      intro row hrow
      obtain ⟨saved, hsaved, -⟩ := (h.markers.mem_iff row trivial).mp hrow
      rw [List.argmax_eq_none.mp hfound] at hsaved
      exact List.not_mem_nil hsaved
    rw [hempty]
    rfl
  | some m =>
    have hm : m ∈ store.preTasks.rows.argmax Saved.savedAt := hfound
    have hlatest : SessionBackends.latestMarker db.preTaskMarkers.rows =
        some (markerRow rowid m) := by
      refine argmax_eq_some_of_lt (h.markers.mem_image (List.argmax_mem hm)) fun row hrow hne => ?_
      obtain ⟨a, ha, rfl⟩ := (h.markers.mem_iff row trivial).mp hrow
      have hne' : a ≠ m := fun heq => hne (heq ▸ rfl)
      exact h.order a ha m (List.argmax_mem hm) (hsound.lt_latest hm ha hne')
    rw [hlatest]
    rfl

/-- **The database answers as the store does.** -/
theorem DbRepresents.answer (h : DbRepresents codecs created rowid db store)
    (hsound : store.Sound codecs bound) :
    ((db.step codecs now op).2).Same (store.step now op).2 := by
  unfold Db.step Store.step
  split
  · exact .refl _
  · cases op with
    | listSessions =>
      have hperm : (orderBy (fun row => toLex (-(row.updatedAt : ℤ), -(row.createdAt : ℤ)))
          db.sessions.rows).Perm
            (store.sessions.rows.map (savedRow codecs.toStateCodecs created)) :=
        (perm_orderBy _ _).trans
          (h.sessions.perm (f := fun k => k) (fun _ => rfl) Function.injective_id
            fun _ _ => trivial)
      have hread : (store.sessions.rows.map (savedRow codecs.toStateCodecs created)).filterMap
          (mapSessionRow codecs.toStateCodecs) =
            store.sessions.rows.map fun saved => saved.state.normalizeAfterLoad := by
        rw [List.filterMap_map, ← List.filterMap_eq_map]
        exact List.filterMap_congr fun saved hsaved =>
          mapSessionRow_savedRow (hsound.session saved hsaved).2
      exact .sessions (hread ▸ hperm.filterMap _)
    | loadSession id =>
      have hrow := h.sessions.findRow (f := fun k => k) (k := id) (fun _ => rfl)
        Function.injective_id trivial
      change Answer.Same (found .session _ (findRow SessionRow.sessionId id db.sessions.rows)) _
      rw [hrow, found_map _ fun saved hsaved => mapSessionRow_savedRow
        (hsound.session saved (findRow_eq_some.mp hsaved).1).2]
      exact .refl _
    | loadPrePrompt id =>
      have hrow := h.prePrompts.findRow (f := fun k => k) (k := id) (fun _ => rfl)
        Function.injective_id trivial
      change Answer.Same (found .prePrompt _ (findRow Prod.fst id db.prePromptStates.rows)) _
      rw [hrow, found_map (fun row : String × JsonValue =>
        (PrePromptState.fromJson codecs.prefetch row.2).map PrePromptState.normalizeAfterLoad)
        fun saved hsaved => fromJson_prompt (hsound.prePrompt saved (findRow_eq_some.mp hsaved).1)]
      exact .refl _
    | loadPreTaskMarker id =>
      have hrow := h.markers.findRow (f := fun k => k) (k := id) (fun _ => rfl)
        Function.injective_id trivial
      change Answer.Same (found .preTask _
        (findRow MarkerRow.toolUseId id db.preTaskMarkers.rows)) _
      rw [hrow, found_map _ fun saved _ => PreTaskState.fromJson_toJson saved.state]
      exact .refl _
    | findActivePreTask =>
      change Answer.Same (.active _) (.active _)
      rw [h.latestMarker hsound]
      exact .refl _
    | _ => exact .refl _

/-! ## Steps of the files -/

def sessionFile (codecs : StateCodecs U A) (saved : Saved (SessionState U A)) : File :=
  ⟨sessionName saved.state.sessionId, saved.state.toJson codecs, saved.savedAt⟩

def promptFile (codec : JsonCodec Q) (saved : Saved (PrePromptState Q)) : File :=
  ⟨prePromptName saved.state.sessionId, saved.state.toJson codec, saved.savedAt⟩

def taskFile (saved : Saved PreTaskState) : File :=
  ⟨preTaskName saved.state.toolUseId, saved.state.toJson, saved.savedAt⟩

/-- Prompts and tasks share a directory, where their names tell them apart. -/
structure FilesRepresents (codecs : Codecs U A Q) (files : Files) (store : Store U A Q) :
    Prop where
  sessions : IsImage (fun _ => True) (sessionFile codecs.toStateCodecs) files.sessions
    store.sessions
  prePrompts : IsImage (prePromptPrefix <+: ·) (promptFile codecs.prefetch) files.tmp
    store.prePrompts
  preTasks : IsImage (preTaskPrefix <+: ·) taskFile files.tmp store.preTasks
  kinds : ∀ file ∈ files.tmp.rows, prePromptPrefix <+: file.name ∨ preTaskPrefix <+: file.name

variable {files : Files} {readDir : List File → List File}

theorem filesRepresents_empty (codecs : Codecs U A Q) : FilesRepresents codecs {} {} where
  sessions := .empty
  prePrompts := .empty
  preTasks := .empty
  kinds _ h := absurd h List.not_mem_nil

/-- **The files stay those of the store.** -/
theorem FilesRepresents.step (h : FilesRepresents codecs files store) :
    FilesRepresents codecs (files.step codecs readDir now op).1 (store.step now op).1 := by
  unfold Files.step Store.step
  split
  · exact h
  · cases op with
    | saveSession state =>
      exact ⟨h.sessions.upsert (r := ⟨state, now⟩) (fun _ => rfl) sessionName_injective trivial
        (fun _ _ _ => rfl) fun _ _ => rfl, h.prePrompts, h.preTasks, h.kinds⟩
    | deleteSession id =>
      exact ⟨h.sessions.erase (fun _ => rfl) sessionName_injective id, h.prePrompts, h.preTasks,
        h.kinds⟩
    | savePrePrompt state =>
      refine ⟨h.sessions, h.prePrompts.upsert (r := ⟨state, now⟩) (fun _ => rfl)
        prePromptName_injective (List.prefix_append _ _) (fun _ _ _ => rfl) fun _ _ => rfl,
        h.preTasks.upsert_of_not (prePrompt_ne_preTask _), fun file hfile => ?_⟩
      rcases mem_upsert.mp hfile with rfl | ⟨hold, -⟩
      · exact Or.inl (List.prefix_append _ _)
      · exact h.kinds file hold
    | deletePrePrompt id =>
      exact ⟨h.sessions, h.prePrompts.erase (fun _ => rfl) prePromptName_injective id,
        h.preTasks.erase_of_not (prePrompt_ne_preTask _),
        fun file hfile => h.kinds file (mem_erase.mp hfile).1⟩
    | createPreTaskMarker state =>
      refine ⟨h.sessions, h.prePrompts.upsert_of_not (preTask_ne_prePrompt _),
        h.preTasks.upsert (r := ⟨state, now⟩) (fun _ => rfl) preTaskName_injective
        (List.prefix_append _ _) (fun _ _ _ => rfl) fun _ _ => rfl, fun file hfile => ?_⟩
      rcases mem_upsert.mp hfile with rfl | ⟨hold, -⟩
      · exact Or.inr (List.prefix_append _ _)
      · exact h.kinds file hold
    | deletePreTaskMarker id =>
      exact ⟨h.sessions, h.prePrompts.erase_of_not (preTask_ne_prePrompt _),
        h.preTasks.erase (fun _ => rfl) preTaskName_injective id,
        fun file hfile => h.kinds file (mem_erase.mp hfile).1⟩
    | _ => exact h

/-- The time and the id of a marker's file. -/
def markerOf (entry : File) : Option (ℕ × String) :=
  (markerId entry.name).map fun id => (entry.modified, id)

theorem foldl_latestStep (entries : List File) :
    entries.foldl latestStep none = (entries.filterMap markerOf).argmax Prod.fst := by
  rw [List.argmax]
  generalize (none : Option (ℕ × String)) = latest
  induction entries generalizing latest with
  | nil => rfl
  | cons entry entries ih =>
    rw [List.foldl_cons, ih, List.filterMap_cons]
    cases hid : markerId entry.name with
    | none => simp only [latestStep, markerOf, hid, Option.map_none]
    | some id =>
      have hstep : latestStep latest entry =
          List.argAux (fun b c => c.1 < b.1) latest (entry.modified, id) := by
        cases latest with
        | none => simp only [latestStep, hid, List.argAux]
        | some found => simp only [latestStep, hid, List.argAux, gt_iff_lt]
      simp only [markerOf, hid, Option.map_some, List.foldl_cons, hstep]

theorem FilesRepresents.markerOf_eq_some (h : FilesRepresents codecs files store)
    (hsound : store.Sound codecs bound) {file : File} (hfile : file ∈ files.tmp.rows)
    {marker : ℕ × String} :
    markerOf file = some marker ↔ ∃ saved ∈ store.preTasks.rows,
      taskFile saved = file ∧ (saved.savedAt, saved.state.toolUseId) = marker := by
  have htask : ∀ saved ∈ store.preTasks.rows,
      markerOf (taskFile saved) = some (saved.savedAt, saved.state.toolUseId) := by
    intro saved hsaved
    obtain ⟨hvalid, hleading⟩ := hsound.preTask saved hsaved
    rw [markerOf, taskFile, markerId_preTaskName hvalid hleading]
    rfl
  constructor
  · intro hmarker
    rcases h.kinds file hfile with hprompt | hkind
    · rw [markerOf, markerId_of_prePromptPrefix hprompt] at hmarker
      exact nomatch hmarker
    · obtain ⟨saved, hsaved, rfl⟩ := (h.preTasks.mem_iff file hkind).mp hfile
      rw [htask saved hsaved] at hmarker
      exact ⟨saved, hsaved, rfl, Option.some.inj hmarker⟩
  · rintro ⟨saved, hsaved, rfl, rfl⟩
    exact htask saved hsaved

theorem FilesRepresents.latest (h : FilesRepresents codecs files store)
    (hsound : store.Sound codecs bound) (hdir : (readDir files.tmp.rows).Perm files.tmp.rows) :
    ((readDir files.tmp.rows).foldl latestStep none).map Prod.snd =
      (store.preTasks.rows.argmax Saved.savedAt).map fun saved => saved.state.toolUseId := by
  have hmem : ∀ marker, marker ∈ (readDir files.tmp.rows).filterMap markerOf ↔
      ∃ saved ∈ store.preTasks.rows, (saved.savedAt, saved.state.toolUseId) = marker := by
    intro marker
    rw [List.mem_filterMap]
    constructor
    · rintro ⟨file, hfile, hmarker⟩
      obtain ⟨saved, hsaved, -, heq⟩ :=
        (h.markerOf_eq_some hsound (hdir.mem_iff.mp hfile)).mp hmarker
      exact ⟨saved, hsaved, heq⟩
    · rintro ⟨saved, hsaved, heq⟩
      have hfile := h.preTasks.mem_image hsaved
      exact ⟨taskFile saved, hdir.mem_iff.mpr hfile,
        (h.markerOf_eq_some hsound hfile).mpr ⟨saved, hsaved, rfl, heq⟩⟩
  rw [foldl_latestStep]
  cases hfound : store.preTasks.rows.argmax Saved.savedAt with
  | none =>
    have hempty : (readDir files.tmp.rows).filterMap markerOf = [] := by
      rw [List.eq_nil_iff_forall_not_mem]
      intro marker hmarker
      obtain ⟨saved, hsaved, -⟩ := (hmem marker).mp hmarker
      rw [List.argmax_eq_none.mp hfound] at hsaved
      exact List.not_mem_nil hsaved
    rw [hempty]
    rfl
  | some m =>
    have hm : m ∈ store.preTasks.rows.argmax Saved.savedAt := hfound
    have hlatest : ((readDir files.tmp.rows).filterMap markerOf).argmax Prod.fst =
        some (m.savedAt, m.state.toolUseId) := by
      refine argmax_eq_some_of_lt ((hmem _).mpr ⟨m, List.argmax_mem hm, rfl⟩)
        fun marker hmarker hne => ?_
      obtain ⟨a, ha, rfl⟩ := (hmem marker).mp hmarker
      exact hsound.lt_latest hm ha fun heq => hne (heq ▸ rfl)
    rw [hlatest]
    rfl

/-- **The files answer as the store does.** -/
theorem FilesRepresents.answer (h : FilesRepresents codecs files store)
    (hsound : store.Sound codecs bound) (hdir : ∀ entries, (readDir entries).Perm entries) :
    ((files.step codecs readDir now op).2).Same (store.step now op).2 := by
  have hread : ∀ state : SessionState U A,
      (SessionState.fromJson codecs.toStateCodecs (state.toJson codecs.toStateCodecs)).map
        SessionState.normalizeAfterLoad = some state.normalizeAfterLoad := fun state =>
    congrArg (Option.map SessionState.normalizeAfterLoad) (SessionState.fromJson_toJson _ state)
  unfold Files.step Store.step
  split
  · exact .refl _
  · cases op with
    | listSessions =>
      have hperm : (readDir files.sessions.rows).Perm
          (store.sessions.rows.map (sessionFile codecs.toStateCodecs)) :=
        (hdir _).trans (h.sessions.perm (fun _ => rfl) sessionName_injective fun _ _ => trivial)
      have hall : (store.sessions.rows.map (sessionFile codecs.toStateCodecs)).filter
          (fun entry => extension entry.name = some "json".toList) =
            store.sessions.rows.map (sessionFile codecs.toStateCodecs) := by
        refine List.filter_eq_self.mpr fun entry hentry => ?_
        obtain ⟨saved, hsaved, rfl⟩ := List.mem_map.mp hentry
        rw [decide_eq_true_iff]
        exact extension_sessionName (hsound.session saved hsaved).1
      have hstates : (store.sessions.rows.map (sessionFile codecs.toStateCodecs)).filterMap
          (fun entry => (SessionState.fromJson codecs.toStateCodecs entry.content).map
            SessionState.normalizeAfterLoad) =
            store.sessions.rows.map fun saved => saved.state.normalizeAfterLoad := by
        rw [List.filterMap_map, ← List.filterMap_eq_map]
        exact List.filterMap_congr fun saved _ => hread saved.state
      exact .sessions (hstates ▸ (hall ▸ hperm.filter _).filterMap _)
    | loadSession id =>
      have hrow := h.sessions.findRow (k := id) (fun _ => rfl) sessionName_injective trivial
      change Answer.Same (found .session _
        (findRow File.name (sessionName id) files.sessions.rows)) _
      rw [hrow, found_map (fun file : File =>
        (SessionState.fromJson codecs.toStateCodecs file.content).map
          SessionState.normalizeAfterLoad) fun saved _ => hread saved.state]
      exact .refl _
    | loadPrePrompt id =>
      have hrow := h.prePrompts.findRow (k := id) (fun _ => rfl) prePromptName_injective
        (List.prefix_append _ _)
      change Answer.Same (found .prePrompt _
        (findRow File.name (prePromptName id) files.tmp.rows)) _
      rw [hrow, found_map (fun file : File =>
        (PrePromptState.fromJson codecs.prefetch file.content).map
          PrePromptState.normalizeAfterLoad)
        fun saved hsaved => fromJson_prompt (hsound.prePrompt saved (findRow_eq_some.mp hsaved).1)]
      exact .refl _
    | loadPreTaskMarker id =>
      have hrow := h.preTasks.findRow (k := id) (fun _ => rfl) preTaskName_injective
        (List.prefix_append _ _)
      change Answer.Same (found .preTask _
        (findRow File.name (preTaskName id) files.tmp.rows)) _
      rw [hrow, found_map _ fun saved _ => PreTaskState.fromJson_toJson saved.state]
      exact .refl _
    | findActivePreTask =>
      change Answer.Same (.active _) (.active _)
      rw [h.latest hsound (hdir _)]
      exact .refl _
    | _ => exact .refl _

end SessionBackends
end Bitloops
