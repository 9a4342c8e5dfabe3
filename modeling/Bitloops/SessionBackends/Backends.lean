import Bitloops.Daemon.SyncMode
import Bitloops.Foundation.OrderBy
import Bitloops.Foundation.TableImages
import Bitloops.LanguageAdapter.RustImports
import Bitloops.SessionBackends.States
import Mathlib

/-!
# Two backends for sessions

`DbSessionBackend` keeps the states in three tables of a database, and `LocalFileBackend` in files
of two directories.  The clock gives nanoseconds; the database stores whole seconds.  The third
step function is what both are for: a store of the states with the times at which they were saved.
-/

namespace Bitloops
namespace SessionBackends

open ArchitectureRoles
open LanguageAdapter (trim)

variable {U A Q : Type}

/-! ## Operations -/

inductive Operation (U A Q : Type) where
  | listSessions
  | loadSession (sessionId : String)
  | saveSession (state : SessionState U A)
  | deleteSession (sessionId : String)
  | loadPrePrompt (sessionId : String)
  | savePrePrompt (state : PrePromptState Q)
  | deletePrePrompt (sessionId : String)
  | createPreTaskMarker (state : PreTaskState)
  | loadPreTaskMarker (toolUseId : String)
  | deletePreTaskMarker (toolUseId : String)
  | findActivePreTask

inductive Answer (U A Q : Type) where
  | done
  | sessions (states : List (SessionState U A))
  | session (state : Option (SessionState U A))
  | prePrompt (state : Option (PrePromptState Q))
  | preTask (state : Option PreTaskState)
  | active (toolUseId : Option String)
  | invalidId
  | unreadable

def validSessionId (id : String) : Bool :=
  id ≠ "" && !(id.toList.contains '/' || id.toList.contains '\\')

def validToolUseId (id : String) : Bool :=
  id.toList.all fun c => c.isAlphanum || c = '_' || c = '-'

/-- The id that an operation is checked for. -/
def Operation.valid : Operation U A Q → Bool
  | .listSessions | .findActivePreTask => true
  | .loadSession id | .deleteSession id | .loadPrePrompt id | .deletePrePrompt id =>
    validSessionId id
  | .saveSession state => validSessionId state.sessionId
  | .savePrePrompt state => validSessionId state.sessionId
  | .createPreTaskMarker state => validToolUseId state.toolUseId
  | .loadPreTaskMarker id | .deletePreTaskMarker id => validToolUseId id

/-- What was found and could be read. -/
def found {α β : Type} (answer : Option β → Answer U A Q) (read : α → Option β) :
    Option α → Answer U A Q
  | none => answer none
  | some a =>
    match read a with
    | some b => answer (some b)
    | none => .unreadable

/-- The codecs of the nested types. -/
structure Codecs (U A Q : Type) extends StateCodecs U A where
  prefetch : JsonCodec Q

/-! ## The database -/

structure SessionRow where
  sessionId : String
  cliVersion : String
  baseCommit : String
  attributionBaseCommit : String
  worktreePath : String
  worktreeId : String
  startedAt : Option String
  endedAt : Option String
  phase : String
  turnId : String
  stepCount : Int64
  checkpointTranscriptStart : Int64
  transcriptPath : String
  firstPrompt : String
  agentType : String
  lastCheckpointId : String
  lastInteractionTime : Option String
  filesTouched : JsonValue
  untrackedFilesAtStart : JsonValue
  turnCheckpointIds : JsonValue
  transcriptIdentifierAtStart : String
  tokenUsage : Option JsonValue
  promptAttributions : JsonValue
  pendingPromptAttribution : Option JsonValue
  isAuxiliary : Int64
  createdAt : ℕ
  updatedAt : ℕ

structure MarkerRow where
  toolUseId : String
  sessionId : String
  data : JsonValue
  createdAt : ℕ
  rowid : ℕ

structure Db where
  sessions : UniqueTable SessionRow SessionRow.sessionId := .empty
  prePromptStates : UniqueTable (String × JsonValue) Prod.fst := .empty
  preTaskMarkers : UniqueTable MarkerRow MarkerRow.toolUseId := .empty

/-- `datetime('now')`. -/
def seconds (now : ℕ) : ℕ := now / 10 ^ 9

def emptyAsNone (value : String) : Option String := if trim value.toList = [] then none else some value

/-- `serde_json::to_string` of an optional value. -/
def optionJson {α : Type} (codec : JsonCodec α) (value : Option α) : JsonValue :=
  value.elim .null codec.write

def sessionRow (codecs : StateCodecs U A) (now : ℕ) (s : SessionState U A) : SessionRow where
  sessionId := s.sessionId
  cliVersion := s.cliVersion
  baseCommit := s.baseCommit
  attributionBaseCommit := s.attributionBaseCommit
  worktreePath := s.worktreePath
  worktreeId := s.worktreeId
  startedAt := emptyAsNone s.startedAt
  endedAt := s.endedAt
  phase := s.phase.asStr
  turnId := s.turnId
  stepCount := Int64.ofNat s.pending.stepCount.toNat
  checkpointTranscriptStart := s.pending.checkpointTranscriptStart
  transcriptPath := s.transcriptPath
  firstPrompt := s.firstPrompt
  agentType := s.agentType
  lastCheckpointId := s.lastCheckpointId
  lastInteractionTime := s.lastInteractionTime
  filesTouched := .array (s.pending.filesTouched.map .string)
  untrackedFilesAtStart := .array (s.untrackedFilesAtStart.map .string)
  turnCheckpointIds := .array (s.turnCheckpointIds.map .string)
  transcriptIdentifierAtStart := s.pending.transcriptIdentifierAtStart
  tokenUsage := some (optionJson codecs.usage s.pending.tokenUsage)
  promptAttributions := .array (s.promptAttributions.map codecs.attribution.write)
  pendingPromptAttribution := some (optionJson codecs.attribution s.pendingPromptAttribution)
  isAuxiliary := if s.isAuxiliary then 1 else 0
  createdAt := seconds now
  updatedAt := seconds now

/-- `u32::try_from(value).unwrap_or_default()`. -/
def uint32OfInt64 (n : Int64) : UInt32 :=
  if 0 ≤ n.toInt ∧ n.toInt < 2 ^ 32 then UInt32.ofNat n.toInt.toNat else 0

/-- `parse_optional_json_column`: a missing text and `null` are no value. -/
def parseOptionalJsonColumn {α : Type} (codec : JsonCodec α) (raw : Option JsonValue) :
    Option (Option α) :=
  readNested codec raw

def mapSessionRow (codecs : StateCodecs U A) (row : SessionRow) : Option (SessionState U A) := do
  let turnCheckpointIds ← readTextArray row.turnCheckpointIds
  let filesTouched ← readTextArray row.filesTouched
  let tokenUsage ← parseOptionalJsonColumn codecs.usage row.tokenUsage
  let untrackedFilesAtStart ← readTextArray row.untrackedFilesAtStart
  let promptAttributions ← readNestedArray codecs.attribution row.promptAttributions
  let pendingPromptAttribution ←
    parseOptionalJsonColumn codecs.attribution row.pendingPromptAttribution
  let state : SessionState U A :=
    { sessionId := row.sessionId
      cliVersion := row.cliVersion
      baseCommit := row.baseCommit
      attributionBaseCommit := row.attributionBaseCommit
      worktreePath := row.worktreePath
      worktreeId := row.worktreeId
      startedAt := row.startedAt.getD ""
      endedAt := row.endedAt
      phase := SessionPhase.fromString row.phase
      turnId := row.turnId
      turnCheckpointIds := turnCheckpointIds
      lastInteractionTime := row.lastInteractionTime
      condensedTranscriptLines := 0
      transcriptLinesAtStart := 0
      untrackedFilesAtStart := untrackedFilesAtStart
      transcriptPath := row.transcriptPath
      firstPrompt := row.firstPrompt
      agentType := row.agentType
      isAuxiliary := row.isAuxiliary = 1
      lastCheckpointId := row.lastCheckpointId
      promptAttributions := promptAttributions
      pendingPromptAttribution := pendingPromptAttribution
      pending :=
        { stepCount := uint32OfInt64 row.stepCount
          checkpointTranscriptStart := row.checkpointTranscriptStart
          filesTouched := filesTouched
          tokenUsage := tokenUsage
          transcriptIdentifierAtStart := row.transcriptIdentifierAtStart } }
  some state.normalizeAfterLoad

/-- The rowid of a new row. -/
def nextRowid (markers : List MarkerRow) : ℕ := (markers.map MarkerRow.rowid).foldr max 0 + 1

/-- `ORDER BY created_at DESC, rowid DESC LIMIT 1`. -/
def latestMarker (markers : List MarkerRow) : Option MarkerRow :=
  markers.argmax fun row => toLex (row.createdAt, row.rowid)

def Db.step (codecs : Codecs U A Q) (now : ℕ) (db : Db) (op : Operation U A Q) :
    Db × Answer U A Q :=
  if !op.valid then (db, .invalidId)
  else
    match op with
    | .listSessions =>
      let rows := orderBy
        (fun row => toLex (-(row.updatedAt : ℤ), -(row.createdAt : ℤ))) db.sessions.rows
      (db, .sessions (rows.filterMap (mapSessionRow codecs.toStateCodecs)))
    | .loadSession id =>
      (db, found .session (mapSessionRow codecs.toStateCodecs)
        (findRow SessionRow.sessionId id db.sessions.rows))
    | .saveSession state =>
      -- a conflict updates every column but `created_at`
      ({ db with
          sessions := db.sessions.upsertMerged
            (fun old new => { new with createdAt := old.createdAt })
            (sessionRow codecs.toStateCodecs now state) }, .done)
    | .deleteSession id => ({ db with sessions := db.sessions.erase id }, .done)
    | .loadPrePrompt id =>
      (db, found .prePrompt
        (fun row => (PrePromptState.fromJson codecs.prefetch row.2).map
          PrePromptState.normalizeAfterLoad)
        (findRow Prod.fst id db.prePromptStates.rows))
    | .savePrePrompt state =>
      ({ db with
          prePromptStates :=
            db.prePromptStates.upsert (state.sessionId, state.toJson codecs.prefetch) }, .done)
    | .deletePrePrompt id => ({ db with prePromptStates := db.prePromptStates.erase id }, .done)
    | .createPreTaskMarker state =>
      -- a conflict keeps the row and with it the rowid
      ({ db with
          preTaskMarkers := db.preTaskMarkers.upsertMerged
            (fun old new => { new with rowid := old.rowid })
            { toolUseId := state.toolUseId
              sessionId := state.sessionId
              data := state.toJson
              createdAt := seconds now
              rowid := nextRowid db.preTaskMarkers.rows } }, .done)
    | .loadPreTaskMarker id =>
      (db, found .preTask (fun row => PreTaskState.fromJson row.data)
        (findRow MarkerRow.toolUseId id db.preTaskMarkers.rows))
    | .deletePreTaskMarker id => ({ db with preTaskMarkers := db.preTaskMarkers.erase id }, .done)
    | .findActivePreTask =>
      (db, .active ((latestMarker db.preTaskMarkers.rows).map MarkerRow.toolUseId))

/-! ## The files -/

structure File where
  name : List Char
  content : JsonValue
  modified : ℕ

/-- The directory of the sessions, and the directory for prompts and tasks. -/
structure Files where
  sessions : UniqueTable File File.name := .empty
  tmp : UniqueTable File File.name := .empty

def jsonSuffix : List Char := ".json".toList

def preTaskPrefix : List Char := "pre-task-".toList

def prePromptPrefix : List Char := "pre-prompt-".toList

def sessionName (id : String) : List Char := id.toList ++ jsonSuffix

def prePromptName (id : String) : List Char := prePromptPrefix ++ (id.toList ++ jsonSuffix)

def preTaskName (id : String) : List Char := preTaskPrefix ++ (id.toList ++ jsonSuffix)

/-- `Path::extension`. -/
def extension (name : List Char) : Option (List Char) :=
  let last := (name.reverse.takeWhile (· ≠ '.')).reverse
  let stem := name.take (name.length - last.length - 1)
  if last.length = name.length ∨ stem = [] then none else some last

/-- `trim_start_matches`. -/
def trimStartMatches (pattern : List Char) : ℕ → List Char → List Char
  | 0, text => text
  | fuel + 1, text =>
    if pattern.isPrefixOf text then trimStartMatches pattern fuel (text.drop pattern.length)
    else text

/-- `trim_end_matches`. -/
def trimEndMatches (pattern : List Char) (text : List Char) : List Char :=
  (trimStartMatches pattern.reverse text.length text.reverse).reverse

/-- The id in the name of a marker's file. -/
def markerId (name : List Char) : Option String :=
  if !preTaskPrefix.isPrefixOf name || !jsonSuffix.isSuffixOf name then none
  else
    some (String.ofList
      (trimEndMatches jsonSuffix (trimStartMatches preTaskPrefix name.length name)))

/-- The loop over the entries of the directory. -/
def latestStep (latest : Option (ℕ × String)) (entry : File) : Option (ℕ × String) :=
  match markerId entry.name with
  | none => latest
  | some toolUseId =>
    match latest with
    | none => some (entry.modified, toolUseId)
    | some (ts, id) =>
      if entry.modified > ts then some (entry.modified, toolUseId) else some (ts, id)

/-- `readDir` gives the entries of a directory in the order of the file system. -/
def Files.step (codecs : Codecs U A Q) (readDir : List File → List File) (now : ℕ)
    (files : Files) (op : Operation U A Q) : Files × Answer U A Q :=
  if !op.valid then (files, .invalidId)
  else
    match op with
    | .listSessions =>
      let entries := (readDir files.sessions.rows).filter fun entry =>
        extension entry.name = some "json".toList
      (files, .sessions (entries.filterMap fun entry =>
        (SessionState.fromJson codecs.toStateCodecs entry.content).map
          SessionState.normalizeAfterLoad))
    | .loadSession id =>
      (files, found .session
        (fun file => (SessionState.fromJson codecs.toStateCodecs file.content).map
          SessionState.normalizeAfterLoad)
        (findRow File.name (sessionName id) files.sessions.rows))
    | .saveSession state =>
      ({ files with
          sessions := files.sessions.upsert
            ⟨sessionName state.sessionId, state.toJson codecs.toStateCodecs, now⟩ }, .done)
    | .deleteSession id => ({ files with sessions := files.sessions.erase (sessionName id) }, .done)
    | .loadPrePrompt id =>
      (files, found .prePrompt
        (fun file => (PrePromptState.fromJson codecs.prefetch file.content).map
          PrePromptState.normalizeAfterLoad)
        (findRow File.name (prePromptName id) files.tmp.rows))
    | .savePrePrompt state =>
      ({ files with
          tmp := files.tmp.upsert
            ⟨prePromptName state.sessionId, state.toJson codecs.prefetch, now⟩ }, .done)
    | .deletePrePrompt id => ({ files with tmp := files.tmp.erase (prePromptName id) }, .done)
    | .createPreTaskMarker state =>
      ({ files with
          tmp := files.tmp.upsert ⟨preTaskName state.toolUseId, state.toJson, now⟩ }, .done)
    | .loadPreTaskMarker id =>
      (files, found .preTask (fun file => PreTaskState.fromJson file.content)
        (findRow File.name (preTaskName id) files.tmp.rows))
    | .deletePreTaskMarker id => ({ files with tmp := files.tmp.erase (preTaskName id) }, .done)
    | .findActivePreTask =>
      (files, .active (((readDir files.tmp.rows).foldl latestStep none).map Prod.snd))

/-! ## What the backends are for -/

/-- A state and when it was saved. -/
structure Saved (α : Type) where
  state : α
  savedAt : ℕ

structure Store (U A Q : Type) where
  sessions : UniqueTable (Saved (SessionState U A)) (fun saved => saved.state.sessionId) := .empty
  prePrompts : UniqueTable (Saved (PrePromptState Q)) (fun saved => saved.state.sessionId) := .empty
  preTasks : UniqueTable (Saved PreTaskState) (fun saved => saved.state.toolUseId) := .empty

/-- A load gives the saved state in its normal form, and the active task is the latest one. -/
def Store.step (now : ℕ) (store : Store U A Q) (op : Operation U A Q) :
    Store U A Q × Answer U A Q :=
  if !op.valid then (store, .invalidId)
  else
    match op with
    | .listSessions =>
      (store, .sessions (store.sessions.rows.map fun saved => saved.state.normalizeAfterLoad))
    | .loadSession id =>
      (store, .session ((findRow (fun saved => saved.state.sessionId) id store.sessions.rows).map
        fun saved => saved.state.normalizeAfterLoad))
    | .saveSession state => ({ store with sessions := store.sessions.upsert ⟨state, now⟩ }, .done)
    | .deleteSession id => ({ store with sessions := store.sessions.erase id }, .done)
    | .loadPrePrompt id =>
      (store, .prePrompt
        ((findRow (fun saved => saved.state.sessionId) id store.prePrompts.rows).map
          fun saved => saved.state.normalizeAfterLoad))
    | .savePrePrompt state =>
      ({ store with prePrompts := store.prePrompts.upsert ⟨state, now⟩ }, .done)
    | .deletePrePrompt id => ({ store with prePrompts := store.prePrompts.erase id }, .done)
    | .createPreTaskMarker state =>
      ({ store with preTasks := store.preTasks.upsert ⟨state, now⟩ }, .done)
    | .loadPreTaskMarker id =>
      (store, .preTask ((findRow (fun saved => saved.state.toolUseId) id store.preTasks.rows).map
        Saved.state))
    | .deletePreTaskMarker id => ({ store with preTasks := store.preTasks.erase id }, .done)
    | .findActivePreTask =>
      (store, .active ((store.preTasks.rows.argmax Saved.savedAt).map
        fun saved => saved.state.toolUseId))

end SessionBackends
end Bitloops
