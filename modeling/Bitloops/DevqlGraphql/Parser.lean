import Bitloops.DevqlGraphql.Query
import Bitloops.Foundation.Separators
import Bitloops.LanguageAdapter.RustImports

/-!
# Parsing DevQL queries

The text of a query is split at its arrows into stages.  A stage is the call of a core stage or of
one that a capability pack registers; its arguments are split at the commas outside of quotes, and
each argument at its first colon.

What a stage says about its arguments is told apart from what is wrong with the text.
-/

namespace Bitloops
namespace DevqlGraphql

open LanguageAdapter (Text trim)
open Separators

/-! ## Errors -/

inductive DevqlError where
  | emptyQuery
  | unsupportedStage (stage : Text)
  | expectedQuotedString (input : Text)
  | invalidArgumentSegment (piece : Text)
  | rejected (message : String)
  deriving DecidableEq

def DevqlError.message : DevqlError → String
  | emptyQuery => "empty DevQL query"
  | unsupportedStage stage => "unsupported DevQL stage: " ++ String.ofList stage
  | expectedQuotedString input => "expected quoted string, got: " ++ String.ofList input
  | invalidArgumentSegment piece => "invalid argument segment: " ++ String.ofList piece
  | rejected message => message

/-! ## Numbers -/

def parseDigits (text : Text) : Option ℕ :=
  if text = [] then none
  else text.foldlM (fun n c => if c.isDigit then some (10 * n + (c.toNat - 48)) else none) 0

/-- `parse` for a signed integer type with these bounds. -/
def parseInt (low high : ℤ) (text : Text) : Option ℤ := do
  let (negative, digits) :=
    match text with
    | '-' :: rest => (true, rest)
    | '+' :: rest => (false, rest)
    | _ => (false, text)
  let n ← parseDigits digits
  let value : ℤ := if negative then -n else n
  if low ≤ value ∧ value ≤ high then some value else none

def parseI32 (text : Text) : Option ℤ := parseInt (-2 ^ 31) (2 ^ 31 - 1) text

def parseI64 (text : Text) : Option ℤ := parseInt (-2 ^ 63) (2 ^ 63 - 1) text

def parseUsize (text : Text) : Option ℕ :=
  if text.head? = some '-' then none else (parseInt 0 (2 ^ 64 - 1) text).map Int.toNat

def parseLinesRange (lines : String) : Except String (ℤ × ℤ) :=
  match splitFirst "..".toList lines.toList with
  | none => .error ("invalid lines range: " ++ lines)
  | some (start, last) =>
    match parseI32 (trim start) with
    | none => .error ("invalid line start: " ++ String.ofList start)
    | some first =>
      match parseI32 (trim last) with
      | none => .error ("invalid line end: " ++ String.ofList last)
      | some final =>
        if first ≤ 0 ∨ final ≤ 0 ∨ final < first then .error ("invalid lines range: " ++ lines)
        else .ok (first, final)

/-! ## Arguments -/

abbrev StageArgs := UniqueTable (String × String) (·.1)

def StageArgs.get (args : StageArgs) (key : String) : Option String :=
  (findRow (·.1) key args.rows).map (·.2)

def isQuote (c : Char) : Bool := c = '\'' || c = '"'

/-- The pieces between the commas outside of quotes; a last piece without text is left out. -/
def scanPieces (quote : Option Char) (current : Text) : Text → List Text
  | [] => if trim current = [] then [] else [trim current]
  | ch :: input =>
    if isQuote ch then
      if quote = some ch then scanPieces none (current ++ [ch]) input
      else if quote = none then scanPieces (some ch) (current ++ [ch]) input
      else scanPieces quote (current ++ [ch]) input
    else if ch = ',' ∧ quote = none then trim current :: scanPieces none [] input
    else scanPieces quote (current ++ [ch]) input

def parseSingleQuotedOrDouble (input : Text) : Except DevqlError Text :=
  let s := trim input
  if s.length < 2 then .error (.expectedQuotedString input)
  else if (s.head? = some '"' ∧ s.getLast? = some '"') ∨
      (s.head? = some '\'' ∧ s.getLast? = some '\'') then .ok (s.drop 1).dropLast
  else .error (.expectedQuotedString input)

def parsePiece (piece : Text) : Except DevqlError (String × String) :=
  match splitOnce ':' piece with
  | none => .error (.invalidArgumentSegment piece)
  | some (key, value) => do
    let value := trim value
    let value ←
      if value.head? = some '"' ∨ value.head? = some '\'' then parseSingleQuotedOrDouble value
      else .ok value
    return (String.ofList (trim key), String.ofList value)

def insertPiece (args : StageArgs) (piece : Text) : Except DevqlError StageArgs :=
  (parsePiece piece).map args.upsert

def parseNamedArgs (input : Text) : Except DevqlError StageArgs :=
  if trim input = [] then .ok UniqueTable.empty
  else (scanPieces none [] input).foldlM insertPiece UniqueTable.empty

/-! ## What the stages do -/

section Stages

variable (parseF32 : String → Option Score)

def applyAsOf (args : StageArgs) (parsed : ParsedDevqlQuery) : Except String ParsedDevqlQuery :=
  match args.get "commit" with
  | some commit => .ok { parsed with asOf := some (.commit commit) }
  | none =>
    match args.get "ref" with
    | some reference => .ok { parsed with asOf := some (.ref reference) }
    | none =>
      match args.get "save" with
      | some save =>
        if toAsciiLowercase save = "current" then .ok { parsed with asOf := some .saveCurrent }
        else .error "asOf(save:...) only supports save:\"current\""
      | none =>
        match args.get "saveRevision" with
        | some revision => .ok { parsed with asOf := some (.saveRevision revision) }
        | none =>
          .error ("asOf(...) requires \x60commit:\x60, \x60ref:\x60, \x60save:\x60, or " ++
            "\x60saveRevision:\x60")

def applySelectArtefacts (args : StageArgs) (parsed : ParsedDevqlQuery) :
    Except String ParsedDevqlQuery := do
  let deps :=
    if parsed.hasDepsStage then parsed.deps
    else { parsed.deps with direction := .both, includeUnresolved := true }
  let lines ← (args.get "lines").mapM parseLinesRange
  return { parsed with
    deps
    selectArtefacts := some {
      symbolFqn := args.get "symbol_fqn"
      search := args.get "search"
      searchMode := args.get "search_mode"
      path := args.get "path"
      lines } }

def applyFiles (args : StageArgs) (parsed : ParsedDevqlQuery) : Except String ParsedDevqlQuery :=
  .ok { parsed with filesPath := args.get "path" }

/-- Lines that are not given stay as they are. -/
def applyArtefacts (args : StageArgs) (parsed : ParsedDevqlQuery) :
    Except String ParsedDevqlQuery := do
  let lines ← (args.get "lines").mapM parseLinesRange
  return { parsed with
    hasArtefactsStage := true
    artefacts := {
      kind := args.get "kind"
      symbolFqn := args.get "symbol_fqn"
      lines := lines.or parsed.artefacts.lines
      agent := args.get "agent"
      since := args.get "since" } }

def applyClones (args : StageArgs) (parsed : ParsedDevqlQuery) :
    Except String ParsedDevqlQuery := do
  let minScore ← (args.get "min_score").mapM fun minScore =>
    (parseF32 minScore).elim (.error ("invalid clones min_score value: " ++ minScore)) .ok
  let neighbors ← (args.get "neighbors").mapM fun neighbors =>
    (parseI64 neighbors.toList).elim
      (.error ("invalid clones neighbors value: " ++ neighbors)) .ok
  let raw ← (args.get "raw").mapM (parseBoolLiteral "clones raw")
  return { parsed with
    hasClonesStage := true
    clones := {
      relationKind := args.get "relation_kind"
      minScore := minScore.or parsed.clones.minScore
      neighbors := neighbors.or parsed.clones.neighbors
      raw := raw.getD parsed.clones.raw } }

def applyDependencies (args : StageArgs) (parsed : ParsedDevqlQuery) :
    Except String ParsedDevqlQuery := do
  let kind ← parseArg (args.get "kind") DepsKind.fromStr
    ("dependencies(kind:...) must be one of: " ++ ", ".intercalate DepsKind.allNames)
  let direction ← parseArg (args.get "direction") DepsDirection.fromStr
    ("dependencies(direction:...) must be one of: " ++ ", ".intercalate DepsDirection.allNames)
  let includeUnresolved := (args.get "include_unresolved").map fun value =>
    decide (toAsciiLowercase value ∈ ["1", "true", "yes"])
  return { parsed with
    hasDepsStage := true
    deps := {
      kind := kind.or parsed.deps.kind
      direction := direction.getD parsed.deps.direction
      includeUnresolved := includeUnresolved.getD parsed.deps.includeUnresolved } }

def applyCheckpoints (args : StageArgs) (parsed : ParsedDevqlQuery) :
    Except String ParsedDevqlQuery :=
  .ok { parsed with
    hasCheckpointsStage := true
    checkpoints := { agent := args.get "agent", since := args.get "since" } }

def applyHistoricalContext (args : StageArgs) (parsed : ParsedDevqlQuery) :
    Except String ParsedDevqlQuery :=
  .ok { parsed with
    hasHistoricalContextStage := true
    historicalContext := {
      agent := args.get "agent"
      since := args.get "since"
      evidenceKind := (args.get "evidence_kind").or (args.get "evidenceKind") } }

def applyContextGuidance (args : StageArgs) (parsed : ParsedDevqlQuery) :
    Except String ParsedDevqlQuery :=
  .ok { parsed with
    hasContextGuidanceStage := true
    contextGuidance := {
      agent := args.get "agent"
      since := args.get "since"
      evidenceKind := (args.get "evidence_kind").or (args.get "evidenceKind")
      category := args.get "category"
      kind := args.get "kind" } }

def applyTelemetry (args : StageArgs) (parsed : ParsedDevqlQuery) :
    Except String ParsedDevqlQuery :=
  .ok { parsed with
    hasTelemetryStage := true
    telemetry := {
      eventType := args.get "event_type"
      agent := args.get "agent"
      since := args.get "since" } }

def applySelect (inner : Text) (parsed : ParsedDevqlQuery) : ParsedDevqlQuery :=
  { parsed with
    selectFields := (((inner.splitOn ',').map trim).filter (· ≠ [])).map String.ofList }

def applyLimit (inner : Text) (parsed : ParsedDevqlQuery) : Except String ParsedDevqlQuery :=
  match parseUsize (trim inner) with
  | none => .error ("invalid limit value: " ++ String.ofList inner)
  | some limit => .ok { parsed with limit, hasLimitStage := true }

/-! ## Stages -/

abbrev StageAction := ParsedDevqlQuery → Except DevqlError ParsedDevqlQuery

/-- What a stage does is done, and what it says about its arguments is reported. -/
def reporting (action : ParsedDevqlQuery → Except String ParsedDevqlQuery) : StageAction :=
  fun parsed => (action parsed).mapError .rejected

def withQuoted (action : String → ParsedDevqlQuery → ParsedDevqlQuery) (inner : Text) :
    StageAction := fun parsed =>
  (parseSingleQuotedOrDouble inner).map fun value => action (String.ofList value) parsed

def withArgs (action : StageArgs → ParsedDevqlQuery → Except String ParsedDevqlQuery)
    (inner : Text) : StageAction := fun parsed =>
  (parseNamedArgs inner).bind fun args => reporting (action args) parsed

/-- A stage is recognised as a call, or by its whole text. -/
inductive StageRule where
  | call (name : String) (action : Text → StageAction)
  | exact (name : String) (action : ParsedDevqlQuery → ParsedDevqlQuery)

/-- `strip_prefix("name(")` and `strip_suffix(')')`. -/
def stripCall (name : String) (stage : Text) : Option Text :=
  if (name.toList ++ ['(']).isPrefixOf stage then
    let rest := stage.drop (name.toList.length + 1)
    if rest.getLast? = some ')' then some rest.dropLast else none
  else none

def StageRule.matches : StageRule → Text → Option StageAction
  | call name action, stage => (stripCall name stage).map action
  | exact name action, stage =>
    if stage = name.toList ++ "()".toList then some fun parsed => .ok (action parsed) else none

/-- The core stages, in the order in which they are tried. -/
def stageRules : List StageRule :=
  [.call "repo" (withQuoted fun repo parsed => { parsed with repo := some repo }),
    .call "project" (withQuoted fun path parsed => { parsed with projectPath := some path }),
    .call "asOf" (withArgs applyAsOf),
    .call "selectArtefacts" (withArgs applySelectArtefacts),
    .call "file" (withQuoted fun file parsed => { parsed with file := some file }),
    .call "files" (withArgs applyFiles),
    .call "artefacts" (withArgs applyArtefacts),
    .exact "artefacts" (fun parsed => { parsed with hasArtefactsStage := true }),
    .call "clones" (withArgs (applyClones parseF32)),
    .exact "clones" (fun parsed => { parsed with hasClonesStage := true }),
    .call "dependencies" (withArgs applyDependencies),
    .exact "dependencies" (fun parsed => { parsed with hasDepsStage := true }),
    .exact "chatHistory" (fun parsed => { parsed with hasChatHistoryStage := true }),
    .call "checkpoints" (withArgs applyCheckpoints),
    .exact "checkpoints" (fun parsed => { parsed with hasCheckpointsStage := true }),
    .call "historicalContext" (withArgs applyHistoricalContext),
    .exact "historicalContext" (fun parsed => { parsed with hasHistoricalContextStage := true }),
    .call "contextGuidance" (withArgs applyContextGuidance),
    .exact "contextGuidance" (fun parsed => { parsed with hasContextGuidanceStage := true }),
    .call "telemetry" (withArgs applyTelemetry),
    .exact "telemetry" (fun parsed => { parsed with hasTelemetryStage := true }),
    .call "select" (fun inner parsed => .ok (applySelect inner parsed)),
    .call "limit" (fun inner => reporting (applyLimit inner))]

def isNameChar (c : Char) : Bool := c.isAlphanum || c = '_'

def parseRegisteredStage (stage : Text) : Except DevqlError (Option RegisteredStageCall) :=
  match splitOnce '(' stage with
  | none => .ok none
  | some (front, rest) =>
    if stage.getLast? ≠ some ')' ∨ front = [] then .ok none
    else
      let stageName := trim front
      if stageName = [] ∨ ¬(stageName.all isNameChar = true) then .ok none
      else if "__core_".toList.isPrefixOf stageName then .ok none
      else (parseNamedArgs rest.dropLast).map fun args => some ⟨String.ofList stageName, args⟩

def parseStage (parsed : ParsedDevqlQuery) (stage : Text) : Except DevqlError ParsedDevqlQuery :=
  match (stageRules parseF32).findSome? (·.matches stage) with
  | some action => action parsed
  | none => do
    match ← parseRegisteredStage stage with
    | some call => return { parsed with registeredStages := parsed.registeredStages ++ [call] }
    | none => throw (.unsupportedStage stage)

/-- The texts of the stages. -/
def stageTexts (query : Text) : List Text :=
  ((splitAll "->".toList query).map trim).filter (· ≠ [])

def parseDevqlQuery (query : Text) : Except DevqlError ParsedDevqlQuery :=
  if stageTexts query = [] then .error .emptyQuery
  else (stageTexts query).foldlM (parseStage parseF32) {}

end Stages

end DevqlGraphql
end Bitloops
