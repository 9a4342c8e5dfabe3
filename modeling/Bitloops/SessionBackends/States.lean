import Bitloops.ArchitectureRoles.Taxonomy
import Mathlib

/-!
# Session states and their JSON

The states that a session backend keeps, with their JSON documents, in which fields with empty
values are left out, and `normalizeAfterLoad`, which carries the fields of older documents over.
-/

namespace Bitloops
namespace SessionBackends

open ArchitectureRoles

/-- How the values of a nested type are written and read.  `reread` is what a written value is read
as. -/
structure JsonCodec (α : Type) where
  write : α → JsonValue
  read : JsonValue → Option α
  reread : α → α
  read_write : ∀ a, read (write a) = some (reread a)
  write_ne_null : ∀ a, write a ≠ .null

/-! ## Fields -/

/-- A JSON object without the fields that are skipped. -/
def objectOf (fields : List (String × Option JsonValue)) : JsonValue :=
  .object (fields.filterMap fun field => field.2.map fun value => (field.1, value))

/-- `skip_serializing_if = "String::is_empty"`. -/
def textField (text : String) : Option JsonValue :=
  if text = "" then none else some (.string text)

/-- `skip_serializing_if = "Vec::is_empty"`. -/
def textsField (texts : List String) : Option JsonValue :=
  if texts = [] then none else some (.array (texts.map .string))

/-- `skip_serializing_if = "Option::is_none"`. -/
def optTextField (text : Option String) : Option JsonValue := text.map .string

def int64Field (n : Int64) : Option JsonValue := some (.number n.toInt)

/-- `skip_serializing_if = "is_zero_i64"`. -/
def nonzeroField (n : Int64) : Option JsonValue := if n = 0 then none else int64Field n

def uint32Field (n : UInt32) : Option JsonValue := some (.number n.toNat)

def readText : Option JsonValue → Option String
  | none => some ""
  | some (.string text) => some text
  | some _ => none

def readTextArray : JsonValue → Option (List String)
  | .array items => items.mapM JsonValue.asStr
  | _ => none

def readTexts : Option JsonValue → Option (List String)
  | none => some []
  | some value => readTextArray value

def readOptText : Option JsonValue → Option (Option String)
  | none | some .null => some none
  | some (.string text) => some (some text)
  | some _ => none

def readInt64 : Option JsonValue → Option Int64
  | none => some 0
  | some (.number n) =>
    if n.den = 1 ∧ -2 ^ 63 ≤ n.num ∧ n.num < 2 ^ 63 then some (Int64.ofInt n.num) else none
  | some _ => none

def readUInt32 : Option JsonValue → Option UInt32
  | none => some 0
  | some (.number n) =>
    if n.den = 1 ∧ 0 ≤ n.num ∧ n.num < 2 ^ 32 then some (UInt32.ofNat n.num.toNat) else none
  | some _ => none

def readBool : Option JsonValue → Option Bool
  | none => some false
  | some (.bool b) => some b
  | some _ => none

/-- A required text. -/
def readRequiredText : Option JsonValue → Option String
  | some (.string text) => some text
  | _ => none

variable {α U A Q : Type}

def readNested (codec : JsonCodec α) : Option JsonValue → Option (Option α)
  | none | some .null => some none
  | some value => (codec.read value).map some

def readNestedArray (codec : JsonCodec α) : JsonValue → Option (List α)
  | .array items => items.mapM codec.read
  | _ => none

def readNestedList (codec : JsonCodec α) : Option JsonValue → Option (List α)
  | none => some []
  | some value => readNestedArray codec value

def nestedListField (codec : JsonCodec α) (values : List α) : Option JsonValue :=
  if values = [] then none else some (.array (values.map codec.write))

/-! ## Phases -/

inductive SessionPhase where
  | idle
  | active
  | ended
  deriving DecidableEq

namespace SessionPhase

def fromString (value : String) : SessionPhase :=
  if value = "active" ∨ value = "active_committed" then active
  else if value = "idle" then idle
  else if value = "ended" then ended
  else idle

def asStr : SessionPhase → String
  | idle => "idle"
  | active => "active"
  | ended => "ended"

/-- Whatever is no text is read as idle. -/
def read : Option JsonValue → Option SessionPhase
  | some (.string text) => some (fromString text)
  | _ => some idle

theorem fromString_asStr (phase : SessionPhase) : fromString phase.asStr = phase := by
  cases phase <;> decide

end SessionPhase

/-! ## Session states -/

structure PendingCheckpointState (U : Type) where
  stepCount : UInt32
  checkpointTranscriptStart : Int64
  filesTouched : List String
  tokenUsage : Option U
  transcriptIdentifierAtStart : String

/-- `U` are usages of tokens and `A` attributions of prompts. -/
structure SessionState (U A : Type) where
  sessionId : String
  cliVersion : String
  baseCommit : String
  worktreePath : String
  worktreeId : String
  startedAt : String
  endedAt : Option String
  phase : SessionPhase
  turnId : String
  turnCheckpointIds : List String
  lastInteractionTime : Option String
  condensedTranscriptLines : Int64
  transcriptLinesAtStart : Int64
  untrackedFilesAtStart : List String
  transcriptPath : String
  firstPrompt : String
  agentType : String
  isAuxiliary : Bool
  lastCheckpointId : String
  attributionBaseCommit : String
  promptAttributions : List A
  pendingPromptAttribution : Option A
  pending : PendingCheckpointState U

/-- The types that both backends write as JSON, and read exactly. -/
structure StateCodecs (U A : Type) where
  usage : JsonCodec U
  attribution : JsonCodec A
  reread_usage : ∀ u, usage.reread u = u
  reread_attribution : ∀ a, attribution.reread a = a

namespace SessionState

def fields (codecs : StateCodecs U A) (s : SessionState U A) :
    List (String × Option JsonValue) :=
  [("session_id", some (.string s.sessionId)),
    ("cli_version", textField s.cliVersion),
    ("base_commit", textField s.baseCommit),
    ("worktree_path", textField s.worktreePath),
    ("worktree_id", textField s.worktreeId),
    ("started_at", textField s.startedAt),
    ("ended_at", optTextField s.endedAt),
    ("phase", some (.string s.phase.asStr)),
    ("turn_id", textField s.turnId),
    ("turn_checkpoint_ids", textsField s.turnCheckpointIds),
    ("last_interaction_time", optTextField s.lastInteractionTime),
    ("condensed_transcript_lines", nonzeroField s.condensedTranscriptLines),
    ("transcript_lines_at_start", nonzeroField s.transcriptLinesAtStart),
    ("untracked_files_at_start", textsField s.untrackedFilesAtStart),
    ("transcript_path", textField s.transcriptPath),
    ("first_prompt", textField s.firstPrompt),
    ("agent_type", textField s.agentType),
    ("is_auxiliary", some (.bool s.isAuxiliary)),
    ("last_checkpoint_id", textField s.lastCheckpointId),
    ("attribution_base_commit", textField s.attributionBaseCommit),
    ("prompt_attributions", nestedListField codecs.attribution s.promptAttributions),
    ("pending_prompt_attribution", s.pendingPromptAttribution.map codecs.attribution.write),
    ("checkpoint_count", uint32Field s.pending.stepCount),
    ("checkpoint_transcript_start", int64Field s.pending.checkpointTranscriptStart),
    ("files_touched", textsField s.pending.filesTouched),
    ("token_usage", s.pending.tokenUsage.map codecs.usage.write),
    ("transcript_identifier_at_start", textField s.pending.transcriptIdentifierAtStart)]

/-- `serde_json::to_string_pretty`. -/
def toJson (codecs : StateCodecs U A) (s : SessionState U A) : JsonValue :=
  objectOf (s.fields codecs)

/-- `serde_json::from_slice`. -/
def fromJson (codecs : StateCodecs U A) (json : JsonValue) : Option (SessionState U A) := do
  let sessionId ← readRequiredText (json.get "session_id")
  let cliVersion ← readText (json.get "cli_version")
  let baseCommit ← readText (json.get "base_commit")
  let worktreePath ← readText (json.get "worktree_path")
  let worktreeId ← readText (json.get "worktree_id")
  let startedAt ← readText (json.get "started_at")
  let endedAt ← readOptText (json.get "ended_at")
  let phase ← SessionPhase.read (json.get "phase")
  let turnId ← readText (json.get "turn_id")
  let turnCheckpointIds ← readTexts (json.get "turn_checkpoint_ids")
  let lastInteractionTime ← readOptText (json.get "last_interaction_time")
  let condensedTranscriptLines ← readInt64 (json.get "condensed_transcript_lines")
  let transcriptLinesAtStart ← readInt64 (json.get "transcript_lines_at_start")
  let untrackedFilesAtStart ← readTexts (json.get "untracked_files_at_start")
  let transcriptPath ← readText (json.get "transcript_path")
  let firstPrompt ← readText (json.get "first_prompt")
  let agentType ← readText (json.get "agent_type")
  let isAuxiliary ← readBool (json.get "is_auxiliary")
  let lastCheckpointId ← readText (json.get "last_checkpoint_id")
  let attributionBaseCommit ← readText (json.get "attribution_base_commit")
  let promptAttributions ← readNestedList codecs.attribution (json.get "prompt_attributions")
  let pendingPromptAttribution ←
    readNested codecs.attribution (json.get "pending_prompt_attribution")
  let stepCount ← readUInt32 (json.get "checkpoint_count")
  let checkpointTranscriptStart ← readInt64 (json.get "checkpoint_transcript_start")
  let filesTouched ← readTexts (json.get "files_touched")
  let tokenUsage ← readNested codecs.usage (json.get "token_usage")
  let transcriptIdentifierAtStart ← readText (json.get "transcript_identifier_at_start")
  some
    { sessionId, cliVersion, baseCommit, worktreePath, worktreeId, startedAt, endedAt, phase,
      turnId, turnCheckpointIds, lastInteractionTime, condensedTranscriptLines,
      transcriptLinesAtStart, untrackedFilesAtStart, transcriptPath, firstPrompt, agentType,
      isAuxiliary, lastCheckpointId, attributionBaseCommit, promptAttributions,
      pendingPromptAttribution,
      pending :=
        { stepCount, checkpointTranscriptStart, filesTouched, tokenUsage,
          transcriptIdentifierAtStart } }

def normalizeAfterLoad (s : SessionState U A) : SessionState U A :=
  let start :=
    if s.pending.checkpointTranscriptStart = 0 then
      if 0 < s.condensedTranscriptLines then s.condensedTranscriptLines
      else if 0 < s.transcriptLinesAtStart then s.transcriptLinesAtStart
      else s.pending.checkpointTranscriptStart
    else s.pending.checkpointTranscriptStart
  { s with
    phase := SessionPhase.fromString s.phase.asStr
    pending := { s.pending with checkpointTranscriptStart := start }
    condensedTranscriptLines := 0
    transcriptLinesAtStart := 0
    attributionBaseCommit :=
      if s.attributionBaseCommit = "" ∧ s.baseCommit ≠ "" then s.baseCommit
      else s.attributionBaseCommit }

end SessionState

/-! ## Prompts and tasks -/

/-- `Q` are the results of a prefetch. -/
structure PrePromptState (Q : Type) where
  sessionId : String
  timestamp : String
  source : String
  prompt : String
  transcriptPath : String
  untrackedFiles : List String
  transcriptOffset : Int64
  lastTranscriptIdentifier : String
  startMessageIndex : Int64
  stepTranscriptStart : Int64
  lastTranscriptLineCount : Int64
  devqlPrefetch : Option Q

namespace PrePromptState

def fields (codec : JsonCodec Q) (s : PrePromptState Q) : List (String × Option JsonValue) :=
  [("session_id", some (.string s.sessionId)),
    ("timestamp", textField s.timestamp),
    ("source", textField s.source),
    ("prompt", textField s.prompt),
    ("transcript_path", textField s.transcriptPath),
    ("untracked_files", textsField s.untrackedFiles),
    ("transcript_offset", int64Field s.transcriptOffset),
    ("last_transcript_identifier", textField s.lastTranscriptIdentifier),
    ("start_message_index", nonzeroField s.startMessageIndex),
    ("step_transcript_start", nonzeroField s.stepTranscriptStart),
    ("last_transcript_line_count", nonzeroField s.lastTranscriptLineCount),
    ("devql_prefetch", s.devqlPrefetch.map codec.write)]

def toJson (codec : JsonCodec Q) (s : PrePromptState Q) : JsonValue := objectOf (s.fields codec)

def fromJson (codec : JsonCodec Q) (json : JsonValue) : Option (PrePromptState Q) := do
  let sessionId ← readRequiredText (json.get "session_id")
  let timestamp ← readText (json.get "timestamp")
  let source ← readText (json.get "source")
  let prompt ← readText (json.get "prompt")
  let transcriptPath ← readText (json.get "transcript_path")
  let untrackedFiles ← readTexts (json.get "untracked_files")
  let transcriptOffset ← readInt64 (json.get "transcript_offset")
  let lastTranscriptIdentifier ← readText (json.get "last_transcript_identifier")
  let startMessageIndex ← readInt64 (json.get "start_message_index")
  let stepTranscriptStart ← readInt64 (json.get "step_transcript_start")
  let lastTranscriptLineCount ← readInt64 (json.get "last_transcript_line_count")
  let devqlPrefetch ← readNested codec (json.get "devql_prefetch")
  some
    { sessionId, timestamp, source, prompt, transcriptPath, untrackedFiles, transcriptOffset,
      lastTranscriptIdentifier, startMessageIndex, stepTranscriptStart, lastTranscriptLineCount,
      devqlPrefetch }

def normalizeAfterLoad (s : PrePromptState Q) : PrePromptState Q :=
  let step :=
    if s.stepTranscriptStart = 0 ∧ 0 < s.lastTranscriptLineCount then s.lastTranscriptLineCount
    else s.stepTranscriptStart
  let offset :=
    if s.transcriptOffset = 0 then
      if 0 < step then step
      else if 0 < s.startMessageIndex then s.startMessageIndex
      else s.transcriptOffset
    else s.transcriptOffset
  { s with
    lastTranscriptLineCount := 0
    transcriptOffset := offset
    stepTranscriptStart := 0
    startMessageIndex := 0 }

end PrePromptState

structure PreTaskState where
  toolUseId : String
  sessionId : String
  timestamp : String
  untrackedFiles : List String
  deriving DecidableEq

namespace PreTaskState

def fields (s : PreTaskState) : List (String × Option JsonValue) :=
  [("tool_use_id", some (.string s.toolUseId)),
    ("session_id", some (.string s.sessionId)),
    ("timestamp", textField s.timestamp),
    ("untracked_files", textsField s.untrackedFiles)]

def toJson (s : PreTaskState) : JsonValue := objectOf s.fields

def fromJson (json : JsonValue) : Option PreTaskState := do
  let toolUseId ← readRequiredText (json.get "tool_use_id")
  let sessionId ← readRequiredText (json.get "session_id")
  let timestamp ← readText (json.get "timestamp")
  let untrackedFiles ← readTexts (json.get "untracked_files")
  some { toolUseId, sessionId, timestamp, untrackedFiles }

end PreTaskState

/-! ## What is written is read -/

theorem get_objectOf {fields : List (String × Option JsonValue)} {name : String}
    {value : Option JsonValue} (hnodup : (fields.map Prod.fst).Nodup)
    (hlookup : fields.lookup name = some value) : (objectOf fields).get name = value := by
  rw [objectOf, JsonValue.get]
  induction fields with
  | nil => exact nomatch hlookup
  | cons field fields ih =>
    obtain ⟨hnotMem, hnodup⟩ := List.nodup_cons.mp hnodup
    rw [List.filterMap_cons]
    by_cases heq : name = field.1
    · rw [List.lookup_cons, heq, beq_self_eq_true] at hlookup
      obtain rfl := Option.some.inj hlookup
      have hnone : ((fields.filterMap fun field =>
          field.2.map fun v => (field.1, v)).find? fun f => f.1 = name) = none := by
        rw [List.find?_eq_none]
        intro entry hentry hname
        obtain ⟨other, hother, hvalue⟩ := List.mem_filterMap.mp hentry
        obtain ⟨v, -, rfl⟩ := Option.map_eq_some_iff.mp hvalue
        rw [decide_eq_true_eq] at hname
        have hfirst : other.1 = field.1 := hname.trans heq
        exact hnotMem (hfirst ▸ List.mem_map_of_mem hother)
      cases hvalue : field.2 with
      | none => simp [hnone]
      | some v => simp [heq]
    · rw [List.lookup_cons, beq_false_of_ne heq] at hlookup
      have hrest := ih hnodup hlookup
      have hne : ¬ field.1 = name := fun h => heq h.symm
      cases hvalue : field.2 with
      | none => exact hrest
      | some v => simpa [List.find?_cons, hne] using hrest

@[simp] theorem readText_textField (text : String) : readText (textField text) = some text := by
  rw [textField]
  split_ifs with h
  · rw [h]
    rfl
  · rfl

theorem mapM_asStr (texts : List String) :
    (texts.map JsonValue.string).mapM JsonValue.asStr = some texts := by
  induction texts with
  | nil => rfl
  | cons text texts ih =>
    rw [List.map_cons, List.mapM_cons, ih]
    rfl

@[simp] theorem readTexts_textsField (texts : List String) :
    readTexts (textsField texts) = some texts := by
  rw [textsField]
  split_ifs with h
  · rw [h]
    rfl
  · exact mapM_asStr texts

@[simp] theorem readOptText_optTextField (text : Option String) :
    readOptText (optTextField text) = some text := by
  cases text <;> rfl

@[simp] theorem readInt64_int64Field (n : Int64) : readInt64 (int64Field n) = some n := by
  have hbounds : ((n.toInt : ℚ)).den = 1 ∧ -2 ^ 63 ≤ ((n.toInt : ℚ)).num ∧
      ((n.toInt : ℚ)).num < 2 ^ 63 :=
    ⟨Rat.den_intCast _, Int64.le_toInt n, Int64.toInt_lt n⟩
  rw [int64Field, readInt64, if_pos hbounds]
  exact congrArg some (Int64.ofInt_toInt n)

@[simp] theorem readInt64_nonzeroField (n : Int64) : readInt64 (nonzeroField n) = some n := by
  rw [nonzeroField]
  split_ifs with h
  · rw [h]
    rfl
  · exact readInt64_int64Field n

@[simp] theorem readUInt32_uint32Field (n : UInt32) : readUInt32 (uint32Field n) = some n := by
  have hnum : ((n.toNat : ℚ)).num = n.toNat := Rat.num_natCast _
  have hbounds : ((n.toNat : ℚ)).den = 1 ∧ 0 ≤ ((n.toNat : ℚ)).num ∧
      ((n.toNat : ℚ)).num < 2 ^ 32 := by
    rw [hnum]
    exact ⟨Rat.den_natCast _, Int.natCast_nonneg _, Int.ofNat_lt.mpr n.toNat_lt⟩
  rw [uint32Field, readUInt32, if_pos hbounds, hnum, Int.toNat_natCast, UInt32.ofNat_toNat]

@[simp] theorem readNested_write {codec : JsonCodec α} (value : Option α) :
    readNested codec (value.map codec.write) = some (value.map codec.reread) := by
  cases value with
  | none => rfl
  | some a =>
    have hread := codec.read_write a
    have hne := codec.write_ne_null a
    rw [Option.map_some]
    generalize codec.write a = value at hread hne
    cases value with
    | null => exact absurd rfl hne
    | _ => exact congrArg (Option.map some) hread

theorem mapM_read {codec : JsonCodec α} (values : List α) :
    (values.map codec.write).mapM codec.read = some (values.map codec.reread) := by
  induction values with
  | nil => rfl
  | cons value values ih =>
    rw [List.map_cons, List.mapM_cons, codec.read_write, ih]
    rfl

@[simp] theorem readNestedList_nestedListField {codec : JsonCodec α} (values : List α) :
    readNestedList codec (nestedListField codec values) = some (values.map codec.reread) := by
  rw [nestedListField]
  split_ifs with h
  · rw [h]
    rfl
  · exact mapM_read values

theorem SessionState.fromJson_toJson (codecs : StateCodecs U A) (s : SessionState U A) :
    SessionState.fromJson codecs (s.toJson codecs) = some s := by
  have hnodup : ((s.fields codecs).map Prod.fst).Nodup := by
    change ["session_id", "cli_version", "base_commit", "worktree_path", "worktree_id",
      "started_at", "ended_at", "phase", "turn_id", "turn_checkpoint_ids",
      "last_interaction_time", "condensed_transcript_lines", "transcript_lines_at_start",
      "untracked_files_at_start", "transcript_path", "first_prompt", "agent_type", "is_auxiliary",
      "last_checkpoint_id", "attribution_base_commit", "prompt_attributions",
      "pending_prompt_attribution", "checkpoint_count", "checkpoint_transcript_start",
      "files_touched", "token_usage", "transcript_identifier_at_start"].Nodup
    decide
  have hget : ∀ (name : String) {value : Option JsonValue},
      (s.fields codecs).lookup name = some value → (s.toJson codecs).get name = value :=
    fun _ _ => get_objectOf hnodup
  have husage : s.pending.tokenUsage.map codecs.usage.reread = s.pending.tokenUsage := by
    rw [show codecs.usage.reread = id from funext codecs.reread_usage, Option.map_id]
    rfl
  have hattribution : s.pendingPromptAttribution.map codecs.attribution.reread =
      s.pendingPromptAttribution := by
    rw [show codecs.attribution.reread = id from funext codecs.reread_attribution, Option.map_id]
    rfl
  have hattributions : s.promptAttributions.map codecs.attribution.reread =
      s.promptAttributions := by
    rw [show codecs.attribution.reread = id from funext codecs.reread_attribution, List.map_id]
  have hphase : SessionPhase.read (some (.string s.phase.asStr)) = some s.phase :=
    congrArg some (SessionPhase.fromString_asStr s.phase)
  rw [SessionState.fromJson, hget "session_id" rfl, hget "cli_version" rfl,
    hget "base_commit" rfl, hget "worktree_path" rfl, hget "worktree_id" rfl,
    hget "started_at" rfl, hget "ended_at" rfl, hget "phase" rfl, hget "turn_id" rfl,
    hget "turn_checkpoint_ids" rfl, hget "last_interaction_time" rfl,
    hget "condensed_transcript_lines" rfl, hget "transcript_lines_at_start" rfl,
    hget "untracked_files_at_start" rfl, hget "transcript_path" rfl, hget "first_prompt" rfl,
    hget "agent_type" rfl, hget "is_auxiliary" rfl, hget "last_checkpoint_id" rfl,
    hget "attribution_base_commit" rfl, hget "prompt_attributions" rfl,
    hget "pending_prompt_attribution" rfl, hget "checkpoint_count" rfl,
    hget "checkpoint_transcript_start" rfl, hget "files_touched" rfl, hget "token_usage" rfl,
    hget "transcript_identifier_at_start" rfl]
  simp only [readText_textField, readTexts_textsField, readOptText_optTextField,
    readInt64_int64Field, readInt64_nonzeroField, readUInt32_uint32Field, readNested_write,
    readNestedList_nestedListField, hphase, husage, hattribution, hattributions, readRequiredText,
    readBool, Option.bind_eq_bind, Option.bind_some]

theorem PrePromptState.fromJson_toJson (codec : JsonCodec Q) (s : PrePromptState Q) :
    PrePromptState.fromJson codec (s.toJson codec) =
      some { s with devqlPrefetch := s.devqlPrefetch.map codec.reread } := by
  have hnodup : ((s.fields codec).map Prod.fst).Nodup := by
    change ["session_id", "timestamp", "source", "prompt", "transcript_path", "untracked_files",
      "transcript_offset", "last_transcript_identifier", "start_message_index",
      "step_transcript_start", "last_transcript_line_count", "devql_prefetch"].Nodup
    decide
  have hget : ∀ (name : String) {value : Option JsonValue},
      (s.fields codec).lookup name = some value → (s.toJson codec).get name = value :=
    fun _ _ => get_objectOf hnodup
  rw [PrePromptState.fromJson, hget "session_id" rfl, hget "timestamp" rfl, hget "source" rfl,
    hget "prompt" rfl, hget "transcript_path" rfl, hget "untracked_files" rfl,
    hget "transcript_offset" rfl, hget "last_transcript_identifier" rfl,
    hget "start_message_index" rfl, hget "step_transcript_start" rfl,
    hget "last_transcript_line_count" rfl, hget "devql_prefetch" rfl]
  simp only [readText_textField, readTexts_textsField, readInt64_int64Field,
    readInt64_nonzeroField, readNested_write, readRequiredText, Option.bind_eq_bind,
    Option.bind_some]

theorem PreTaskState.fromJson_toJson (s : PreTaskState) :
    PreTaskState.fromJson s.toJson = some s := by
  have hnodup : (s.fields.map Prod.fst).Nodup := by
    change ["tool_use_id", "session_id", "timestamp", "untracked_files"].Nodup
    decide
  have hget : ∀ (name : String) {value : Option JsonValue},
      s.fields.lookup name = some value → s.toJson.get name = value :=
    fun _ _ => get_objectOf hnodup
  rw [PreTaskState.fromJson, hget "tool_use_id" rfl, hget "session_id" rfl, hget "timestamp" rfl,
    hget "untracked_files" rfl]
  simp only [readText_textField, readTexts_textsField, readRequiredText, Option.bind_eq_bind,
    Option.bind_some]

/-! ## Normalising again -/

theorem SessionState.normalizeAfterLoad_idem (s : SessionState U A) :
    s.normalizeAfterLoad.normalizeAfterLoad = s.normalizeAfterLoad := by
  have hphase := SessionPhase.fromString_asStr s.phase
  have hzero : ¬ (0 : Int64) < 0 := by decide
  have hcommit : (if (if s.attributionBaseCommit = "" ∧ s.baseCommit ≠ "" then s.baseCommit
      else s.attributionBaseCommit) = "" ∧ s.baseCommit ≠ "" then s.baseCommit
      else if s.attributionBaseCommit = "" ∧ s.baseCommit ≠ "" then s.baseCommit
        else s.attributionBaseCommit) =
      if s.attributionBaseCommit = "" ∧ s.baseCommit ≠ "" then s.baseCommit
        else s.attributionBaseCommit := by
    split_ifs <;> rfl
  simp only [SessionState.normalizeAfterLoad, hphase, hzero, if_false, hcommit, ite_self]

theorem PrePromptState.normalizeAfterLoad_idem (s : PrePromptState Q) :
    s.normalizeAfterLoad.normalizeAfterLoad = s.normalizeAfterLoad := by
  have hzero : ¬ (0 : Int64) < 0 := by decide
  simp only [PrePromptState.normalizeAfterLoad, hzero, and_false, if_false, ite_self]

end SessionBackends
end Bitloops
