import Mathlib.Data.Int.Notation
import Mathlib.Order.Lattice
import Bitloops.Foundation.UniqueTable
import Bitloops.Checkpoints.Storage

/-!
# Parsed DevQL queries and what the compiler accepts

A DevQL query is a record of stages, scopes and filters.  `resolveRegisteredStage` finds the
capability-pack stage of the query, and `validateGraphqlCompilerSupport` rejects the combinations
that the compiler to GraphQL does not support.
-/

namespace Bitloops
namespace DevqlGraphql

open Checkpoints

/-! ## Vocabulary -/

def toAsciiLowercase (text : String) : String := text.map Char.toLower

def toAsciiUppercase (text : String) : String := text.map Char.toUpper

inductive DepsKind where
  | imports
  | calls
  | references
  | extends
  | implements
  | exports
  deriving DecidableEq, Repr

def DepsKind.asStr : DepsKind → String
  | .imports => "imports"
  | .calls => "calls"
  | .references => "references"
  | .extends => "extends"
  | .implements => "implements"
  | .exports => "exports"

def DepsKind.fromStr (value : String) : Option DepsKind :=
  match toAsciiLowercase (trimText value) with
  | "imports" => some .imports
  | "calls" => some .calls
  | "references" => some .references
  | "extends" => some .extends
  | "inherits" => some .extends
  | "implements" => some .implements
  | "exports" => some .exports
  | _ => none

def DepsKind.allNames : List String :=
  ["imports", "calls", "references", "extends", "implements", "exports"]

inductive DepsDirection where
  | out
  | in
  | both
  deriving DecidableEq, Repr

def DepsDirection.asStr : DepsDirection → String
  | .out => "out"
  | .in => "in"
  | .both => "both"

def DepsDirection.fromStr (value : String) : Option DepsDirection :=
  match toAsciiLowercase (trimText value) with
  | "out" => some .out
  | "in" => some .in
  | "both" => some .both
  | _ => none

def DepsDirection.allNames : List String := ["out", "in", "both"]

def parseBoolLiteral (fieldName value : String) : Except String Bool :=
  match toAsciiLowercase (trimText value) with
  | "1" => .ok true
  | "true" => .ok true
  | "yes" => .ok true
  | "0" => .ok false
  | "false" => .ok false
  | "no" => .ok false
  | _ => .error ("invalid boolean value for " ++ fieldName ++ ": " ++ value)

/-- The `f32` values, with the decimal that `Display` writes. -/
inductive Score where
  | nan
  | infinite (negative : Bool)
  | finite (negative : Bool) (whole : ℕ) (fraction : List (Fin 10))
  deriving DecidableEq, Repr

def Score.display : Score → String
  | nan => "NaN"
  | infinite negative => (if negative then "-" else "") ++ "inf"
  | finite negative whole fraction =>
    (if negative then "-" else "") ++ whole.repr ++
      (if fraction.isEmpty then ""
      else "." ++ String.join (fraction.map fun digit => digit.val.repr))

/-! ## Queries -/

inductive AsOfSelector where
  | ref (reference : String)
  | commit (commit : String)
  | saveCurrent
  | saveRevision (revision : String)
  deriving DecidableEq, Repr

structure ArtefactFilter where
  kind : Option String := none
  symbolFqn : Option String := none
  lines : Option (ℤ × ℤ) := none
  agent : Option String := none
  since : Option String := none

structure SelectArtefactsFilter where
  symbolFqn : Option String := none
  search : Option String := none
  searchMode : Option String := none
  path : Option String := none
  lines : Option (ℤ × ℤ) := none

structure CloneFilter where
  relationKind : Option String := none
  minScore : Option Score := none
  neighbors : Option ℤ := none
  raw : Bool := false

structure CheckpointFilter where
  agent : Option String := none
  since : Option String := none

structure HistoricalContextFilter where
  agent : Option String := none
  since : Option String := none
  evidenceKind : Option String := none

structure ContextGuidanceFilter where
  agent : Option String := none
  since : Option String := none
  evidenceKind : Option String := none
  category : Option String := none
  kind : Option String := none

structure TelemetryFilter where
  eventType : Option String := none
  agent : Option String := none
  since : Option String := none

structure DepsFilter where
  kind : Option DepsKind := none
  direction : DepsDirection := .out
  includeUnresolved : Bool := true

/-- A call of a capability-pack stage; each argument is given once. -/
structure RegisteredStageCall where
  stageName : String
  args : UniqueTable (String × String) (·.1)

def RegisteredStageCall.get (stage : RegisteredStageCall) (key : String) : Option String :=
  (findRow (·.1) key stage.args.rows).map (·.2)

structure ParsedDevqlQuery where
  repo : Option String := none
  projectPath : Option String := none
  asOf : Option AsOfSelector := none
  selectArtefacts : Option SelectArtefactsFilter := none
  file : Option String := none
  filesPath : Option String := none
  artefacts : ArtefactFilter := {}
  clones : CloneFilter := {}
  checkpoints : CheckpointFilter := {}
  historicalContext : HistoricalContextFilter := {}
  contextGuidance : ContextGuidanceFilter := {}
  telemetry : TelemetryFilter := {}
  deps : DepsFilter := {}
  hasArtefactsStage : Bool := false
  hasClonesStage : Bool := false
  hasDepsStage : Bool := false
  hasCheckpointsStage : Bool := false
  hasHistoricalContextStage : Bool := false
  hasContextGuidanceStage : Bool := false
  hasTelemetryStage : Bool := false
  hasChatHistoryStage : Bool := false
  registeredStages : List RegisteredStageCall := []
  limit : ℕ := 100
  hasLimitStage : Bool := false
  selectFields : List String := []

inductive GraphqlCompileMode where
  | global
  | slim
  deriving DecidableEq, Repr

structure DepsSummaryStageSpec where
  kind : Option DepsKind
  direction : Option DepsDirection
  unresolved : Option Bool

inductive RegisteredStageKind where
  | cloneSummary
  | depsSummary (spec : DepsSummaryStageSpec)
  | tests (stage : RegisteredStageCall)
  | coverage
  | testsSummary
  | knowledge (stage : RegisteredStageCall)
  | selectionOverview
  | httpSearch (stage : RegisteredStageCall)
  | httpContext (stage : RegisteredStageCall)
  | httpHeaderProducers (stage : RegisteredStageCall)
  | httpLifecycleBoundaries (stage : RegisteredStageCall)
  | httpLossyTransforms (stage : RegisteredStageCall)
  | httpPatchImpact (stage : RegisteredStageCall)

namespace RegisteredStageKind

/-- The stages that look up HTTP facts without a selection. -/
def isDirectHttp : RegisteredStageKind → Bool
  | httpSearch _ => true
  | httpHeaderProducers _ => true
  | httpLifecycleBoundaries _ => true
  | httpLossyTransforms _ => true
  | httpPatchImpact _ => true
  | _ => false

def isTests : RegisteredStageKind → Bool
  | tests _ => true
  | _ => false

def isCoverage : RegisteredStageKind → Bool
  | coverage => true
  | _ => false

def isCloneSummary : RegisteredStageKind → Bool
  | cloneSummary => true
  | _ => false

def isDepsSummary : RegisteredStageKind → Bool
  | depsSummary _ => true
  | _ => false

def isTestsSummary : RegisteredStageKind → Bool
  | testsSummary => true
  | _ => false

def isKnowledge : RegisteredStageKind → Bool
  | knowledge _ => true
  | _ => false

def isSelectionOverview : RegisteredStageKind → Bool
  | selectionOverview => true
  | _ => false

def isHttpContext : RegisteredStageKind → Bool
  | httpContext _ => true
  | _ => false

def isHttpLossyTransforms : RegisteredStageKind → Bool
  | httpLossyTransforms _ => true
  | _ => false

end RegisteredStageKind

/-! ## The capability-pack stage -/

def summaryArgs : List String := ["dependencies", "kind", "direction", "unresolved"]

/-- An argument that is there has to be accepted. -/
def parseArg {α : Type} (arg : Option String) (fromStr : String → Option α) (message : String) :
    Except String (Option α) :=
  match arg with
  | none => .ok none
  | some value =>
    match fromStr value with
    | some a => .ok (some a)
    | none => .error message

def resolveSummaryStageKind (stage : RegisteredStageCall) : Except String RegisteredStageKind :=
  match stage.get "dependencies" with
  | none =>
    if stage.args.rows.isEmpty then .ok .cloneSummary
    else
      .error ("summary() for clones does not accept arguments; use " ++
        "summary(dependencies:true, ...) for dependency summary")
  | some depsArg => do
    let depsEnabled ← parseBoolLiteral "summary dependencies" depsArg
    if !depsEnabled then throw "summary(dependencies:...) requires dependencies:true"
    match stage.args.rows.find? fun arg => !summaryArgs.contains arg.1 with
    | some arg =>
      throw ("summary(dependencies:true, ...) received unsupported argument \x60" ++ arg.1 ++
        "\x60; allowed args: dependencies, kind, direction, unresolved")
    | none => pure ()
    let kind ←
      parseArg (stage.get "kind") DepsKind.fromStr
        ("summary(kind:...) must be one of: " ++ ", ".intercalate DepsKind.allNames)
    let direction ←
      parseArg (stage.get "direction") DepsDirection.fromStr
        ("summary(direction:...) must be one of: " ++ ", ".intercalate DepsDirection.allNames)
    let unresolved ←
      parseArg (stage.get "unresolved") (fun value => (parseBoolLiteral "" value).toOption)
        "summary(unresolved:...) must be boolean true/false"
    return .depsSummary { kind, direction, unresolved }

def resolveRegisteredStage (parsed : ParsedDevqlQuery) :
    Except String (Option RegisteredStageKind) :=
  match parsed.registeredStages with
  | [] => .ok none
  | [stage] =>
    match stage.stageName with
    | "summary" => (resolveSummaryStageKind stage).map some
    | "tests" => .ok (some (.tests stage))
    | "coverage" => .ok (some .coverage)
    | "test_harness_tests_summary" => .ok (some .testsSummary)
    | "knowledge" => .ok (some (.knowledge stage))
    | "overview" => .ok (some .selectionOverview)
    | "httpSearch" => .ok (some (.httpSearch stage))
    | "http_search" => .ok (some (.httpSearch stage))
    | "httpContext" => .ok (some (.httpContext stage))
    | "http_context" => .ok (some (.httpContext stage))
    | "httpHeaderProducers" => .ok (some (.httpHeaderProducers stage))
    | "http_header_producers" => .ok (some (.httpHeaderProducers stage))
    | "httpLifecycleBoundaries" => .ok (some (.httpLifecycleBoundaries stage))
    | "http_lifecycle_boundaries" => .ok (some (.httpLifecycleBoundaries stage))
    | "httpLossyTransforms" => .ok (some (.httpLossyTransforms stage))
    | "http_lossy_transforms" => .ok (some (.httpLossyTransforms stage))
    | "httpPatchImpact" => .ok (some (.httpPatchImpact stage))
    | "http_patch_impact" => .ok (some (.httpPatchImpact stage))
    | name =>
      .error ("the GraphQL compiler does not support capability-pack stage \x60" ++ name ++
        "\x60; register an explicit typed GraphQL/DSL contribution")
  | _ :: _ :: _ =>
    .error ("the GraphQL compiler does not yet support multiple registered capability-pack " ++
      "stages in one query")

/-! ## Validation -/

/-- The checks in order; the first one that holds rejects the query. -/
def firstRejection (checks : List (Bool × String)) : Except String Unit :=
  match checks.find? (·.1) with
  | some check => .error check.2
  | none => .ok ()

def isBlank (text : String) : Bool := trimText text = ""

/-- `as_deref().map(str::trim).filter(|value| !value.is_empty()).is_some()`. -/
def isGiven (text : Option String) : Bool := text.any fun text => !isBlank text

def searchModes : List String :=
  ["auto", "identity", "architecture", "code", "summary", "lexical"]

def selectorChecks (selector : SelectArtefactsFilter) : List (Bool × String) :=
  let pathSelectorRequested := isGiven selector.path || selector.lines.isSome
  let selectorCount :=
    (isGiven selector.symbolFqn).toNat + (isGiven selector.search).toNat +
      pathSelectorRequested.toNat
  [(selector.search.any isBlank, "selectArtefacts(...) requires search: to be non-empty"),
    (selectorCount = 0, "selectArtefacts(...) requires symbol_fqn:, search:, or path:"),
    (selectorCount > 1,
      "selectArtefacts(...) allows exactly one of symbol_fqn:, search:, or path:/lines:"),
    (pathSelectorRequested && !isGiven selector.path,
      "selectArtefacts(...) requires path: when lines: is provided"),
    (selector.searchMode.any isBlank,
      "selectArtefacts(...) requires search_mode: to be non-empty"),
    (isGiven selector.searchMode && !isGiven selector.search,
      "selectArtefacts(...) only allows search_mode: when search: is provided"),
    (selector.searchMode.any fun searchMode =>
        !isBlank searchMode && !searchModes.contains (toAsciiLowercase (trimText searchMode)),
      "selectArtefacts(search_mode:...) must be one of: auto, identity, architecture, code, " ++
        "summary, lexical")]

def contextGuidanceCategories : List String :=
  ["decision", "constraint", "pattern", "risk", "verification", "context"]

def contextGuidanceEvidenceKinds : List String :=
  ["symbol_provenance", "file_relation", "line_overlap"]

def choiceCheck (label : String) (value : Option String) (supported : List String) :
    Bool × String :=
  (value.any fun value => !supported.contains (toAsciiLowercase (trimText value)),
    label ++ " must be one of: " ++ ", ".intercalate supported)

def historicalContextChecks (filter : HistoricalContextFilter) : List (Bool × String) :=
  [choiceCheck "historicalContext(evidenceKind:...)" filter.evidenceKind
    contextGuidanceEvidenceKinds]

def contextGuidanceChecks (filter : ContextGuidanceFilter) : List (Bool × String) :=
  [choiceCheck "contextGuidance(evidenceKind:...)" filter.evidenceKind
      contextGuidanceEvidenceKinds,
    choiceCheck "contextGuidance(category:...)" filter.category contextGuidanceCategories,
    (filter.kind.any isBlank, "contextGuidance(kind:...) must be non-empty")]

section Checks

variable (parsed : ParsedDevqlQuery) (stage : Option RegisteredStageKind)
  (mode : GraphqlCompileMode)

def terminalStageCount : ℕ :=
  parsed.hasCheckpointsStage.toNat + parsed.hasHistoricalContextStage.toNat +
    parsed.hasContextGuidanceStage.toNat + parsed.hasClonesStage.toNat +
    parsed.hasDepsStage.toNat +
    (stage.any fun s => s.isTests || s.isSelectionOverview || s.isHttpContext).toNat

/-- The checks of the stages and scopes next to `selectArtefacts`. -/
def selectionChecks : List (Bool × String) :=
  [(mode ≠ .slim,
      "selectArtefacts(...) is repo-scoped slim only; compile it against the slim DevQL " ++
        "endpoint"),
    (parsed.file.isSome || parsed.filesPath.isSome,
      "selectArtefacts(...) cannot be combined with file() or files()"),
    (parsed.asOf.isSome, "selectArtefacts(...) does not support asOf(...) in v1"),
    (parsed.hasArtefactsStage || parsed.hasChatHistoryStage || parsed.hasTelemetryStage,
      "selectArtefacts(...) cannot be combined with artefacts(), chatHistory(), or telemetry()"),
    (parsed.hasLimitStage && !stage.any (·.isHttpContext),
      "selectArtefacts(...) only supports limit() with httpContext() in the GraphQL compiler"),
    (terminalStageCount parsed stage = 0,
      "selectArtefacts(...) requires overview(), checkpoints(), historicalContext(), " ++
        "contextGuidance(), clones(), dependencies(), tests(), or httpContext()"),
    (terminalStageCount parsed stage > 1,
      "selectArtefacts(...) supports exactly one terminal stage in v1")]

def selectionRegisteredCheck : Bool × String :=
  (stage.any fun s =>
      s.isCoverage || s.isCloneSummary || s.isDepsSummary || s.isTestsSummary || s.isKnowledge ||
        s.isDirectHttp,
    "selectArtefacts(...) does not support that registered stage in v1")

/-- The checks of a query with `selectArtefacts`. -/
def selectArtefactsChecks (selector : SelectArtefactsFilter) : List (Bool × String) :=
  selectorChecks selector ++ selectionChecks parsed stage mode ++
    historicalContextChecks parsed.historicalContext ++
    contextGuidanceChecks parsed.contextGuidance ++ [selectionRegisteredCheck stage]

def hasFileScope : Bool := parsed.file.isSome || parsed.filesPath.isSome

/-- The checks of the other queries. -/
def pipelineChecks : List (Bool × String) :=
  let hasTestsStage := stage.any (·.isTests)
  let hasCoverageStage := stage.any (·.isCoverage)
  let hasCloneSummaryStage := stage.any (·.isCloneSummary)
  let hasDepsSummaryStage := stage.any (·.isDepsSummary)
  let hasTestsSummaryStage := stage.any (·.isTestsSummary)
  let hasDirectHttpStage := stage.any (·.isDirectHttp)
  let hasKnowledgeStage := stage.any (·.isKnowledge)
  [(parsed.file.isSome && parsed.filesPath.isSome,
      "file() cannot be combined with files() in one query"),
    ((parsed.hasCheckpointsStage || parsed.hasTelemetryStage) &&
        (hasFileScope parsed || parsed.hasArtefactsStage),
      "MVP limitation: telemetry/checkpoints stages cannot be combined with artefact traversal " ++
        "in one query"),
    (parsed.hasChatHistoryStage && !parsed.hasArtefactsStage,
      "chatHistory() requires an artefacts() stage in the query"),
    (parsed.hasHistoricalContextStage,
      "historicalContext() is only supported after selectArtefacts(...) in v1"),
    (parsed.hasContextGuidanceStage,
      "contextGuidance() is only supported after selectArtefacts(...)"),
    (parsed.hasClonesStage && !parsed.hasArtefactsStage,
      "clones() requires an artefacts() stage in the query"),
    (parsed.hasDepsStage && parsed.hasChatHistoryStage,
      "dependencies() cannot be combined with chatHistory() stage"),
    (parsed.hasClonesStage && parsed.hasDepsStage,
      "clones() cannot be combined with dependencies() stage"),
    (parsed.hasChatHistoryStage && (parsed.hasCheckpointsStage || parsed.hasTelemetryStage),
      "chatHistory() cannot be combined with checkpoints()/telemetry() stages"),
    (parsed.hasClonesStage && parsed.hasChatHistoryStage,
      "clones() cannot be combined with chatHistory() stage"),
    (hasCloneSummaryStage && !parsed.hasClonesStage,
      "summary() requires a clones() stage in the query"),
    (hasCloneSummaryStage && !parsed.selectFields.isEmpty,
      "summary() does not support select() in the GraphQL compiler yet"),
    (hasDepsSummaryStage && !parsed.hasArtefactsStage,
      "summary(dependencies:true, ...) requires an artefacts() stage in the query"),
    (hasDepsSummaryStage && parsed.hasDepsStage,
      "summary(dependencies:true, ...) cannot be combined with dependencies() stage"),
    (hasDepsSummaryStage && parsed.hasClonesStage,
      "summary(dependencies:true, ...) cannot be combined with clones() stage"),
    (hasTestsStage && !parsed.hasArtefactsStage,
      "tests() requires an artefacts() stage in the query"),
    (hasTestsStage && parsed.hasDepsStage,
      "tests() cannot be combined with dependencies() stage"),
    (hasTestsStage && parsed.hasClonesStage, "tests() cannot be combined with clones() stage"),
    (hasTestsStage && parsed.hasChatHistoryStage,
      "tests() cannot be combined with chatHistory() stage"),
    (hasCoverageStage && hasTestsStage, "coverage() cannot be combined with tests() stage"),
    (hasCoverageStage && !parsed.hasArtefactsStage,
      "coverage() requires an artefacts() stage in the query"),
    (hasCoverageStage && parsed.hasDepsStage,
      "coverage() cannot be combined with dependencies() stage"),
    (hasCoverageStage && parsed.hasClonesStage,
      "coverage() cannot be combined with clones() stage"),
    (hasCoverageStage && parsed.hasChatHistoryStage,
      "coverage() cannot be combined with chatHistory() stage"),
    (hasTestsSummaryStage && parsed.hasArtefactsStage,
      "test_harness_tests_summary() does not support artefacts() traversal"),
    (hasTestsSummaryStage && parsed.hasDepsStage,
      "test_harness_tests_summary() cannot be combined with dependencies() stage"),
    (hasTestsSummaryStage && parsed.hasClonesStage,
      "test_harness_tests_summary() cannot be combined with clones() stage"),
    (hasTestsSummaryStage && parsed.hasChatHistoryStage,
      "test_harness_tests_summary() cannot be combined with chatHistory() stage"),
    (hasTestsSummaryStage && hasFileScope parsed,
      "test_harness_tests_summary() does not support file() or files() scopes"),
    (stage.any (·.isSelectionOverview),
      "overview() is only supported after selectArtefacts(...) in the GraphQL compiler"),
    (stage.any (·.isHttpContext),
      "httpContext() is only supported after selectArtefacts(...) in the GraphQL compiler"),
    (parsed.hasDepsStage && parsed.hasArtefactsStage,
      "dependencies() after artefacts() is not yet supported by the GraphQL compiler"),
    (hasDirectHttpStage &&
        (parsed.hasCheckpointsStage || parsed.hasTelemetryStage || parsed.hasDepsStage ||
          parsed.hasClonesStage || parsed.hasChatHistoryStage),
      "HTTP direct lookup stages cannot be combined with checkpoints(), telemetry(), " ++
        "dependencies(), clones(), or chatHistory()"),
    (parsed.hasArtefactsStage && hasDirectHttpStage && !stage.any (·.isHttpLossyTransforms),
      "only httpLossyTransforms() can be nested under artefacts() in the GraphQL compiler"),
    (mode = .global && parsed.hasTelemetryStage && parsed.projectPath.isSome,
      "telemetry() does not support project() scoping in the GraphQL schema yet"),
    (parsed.hasTelemetryStage && parsed.asOf.isSome,
      "telemetry() does not support asOf(...) in the GraphQL schema yet"),
    (parsed.hasCheckpointsStage && parsed.asOf.isSome,
      "checkpoints() does not support asOf(...) in the GraphQL schema yet"),
    (parsed.hasDepsStage && !parsed.hasArtefactsStage && parsed.projectPath.isNone &&
        !hasFileScope parsed,
      "dependencies() requires project(), file(), or files() when compiling to GraphQL"),
    (parsed.hasDepsStage && parsed.asOf.isSome && !hasFileScope parsed,
      "dependencies() with asOf(...) is only supported when further scoped through file() or " ++
        "files()"),
    (hasKnowledgeStage &&
        (parsed.hasArtefactsStage || parsed.hasCheckpointsStage || parsed.hasTelemetryStage ||
          parsed.hasDepsStage || parsed.hasClonesStage || parsed.hasChatHistoryStage),
      "knowledge() cannot currently be combined with other query stages in the GraphQL compiler"),
    (hasKnowledgeStage && (parsed.asOf.isSome || hasFileScope parsed),
      "knowledge() does not support asOf(...), file(), or files() scopes in the GraphQL schema " ++
        "yet"),
    (!(parsed.hasArtefactsStage || parsed.hasCheckpointsStage || parsed.hasTelemetryStage ||
        parsed.hasDepsStage || hasKnowledgeStage || hasTestsSummaryStage ||
        hasDepsSummaryStage || hasDirectHttpStage),
      "the GraphQL compiler could not determine a queryable leaf stage")]

def validateGraphqlCompilerSupport : Except String Unit :=
  match parsed.selectArtefacts with
  | some selector => firstRejection (selectArtefactsChecks parsed stage mode selector)
  | none => firstRejection (pipelineChecks parsed stage mode)

def shouldCompileProjectStage : Bool :=
  match stage with
  | none => false
  | some stage =>
    if parsed.asOf.isSome || parsed.selectArtefacts.isSome || parsed.file.isSome ||
        parsed.filesPath.isSome || parsed.hasChatHistoryStage || parsed.hasClonesStage ||
        parsed.hasDepsStage || !parsed.selectFields.isEmpty then false
    else
      match stage with
      | .tests _ => parsed.projectPath.isSome
      | .coverage => parsed.projectPath.isSome
      | .testsSummary => parsed.projectPath.isSome
      | stage => stage.isDirectHttp && parsed.projectPath.isSome

end Checks

end DevqlGraphql
end Bitloops
