import Bitloops.DevqlGraphql.Fields

/-!
# The compiler

The terminal field is made from one of the stages, with its arguments, and is put into the fields
of the scopes.  Dates are parsed by functions that are parameters here.
-/

namespace Bitloops
namespace DevqlGraphql

open Checkpoints

/-- The parsers of dates, each with the RFC 3339 text of what it parsed. -/
structure DateParsers where
  naiveDate : String → Option String
  rfc3339 : String → Option String

variable (dates : DateParsers)

def compileDatetimeLiteral (input : String) : Except String GraphqlLiteral :=
  match dates.naiveDate (trimText input) with
  | some midnight => .ok (.quoted midnight)
  | none =>
    match dates.rfc3339 (trimText input) with
    | some datetime => .ok (.quoted datetime)
    | none => .error ("invalid datetime value \x60" ++ input ++ "\x60")

/-! ## Arguments -/

def optionalField (name : String) (value : Option GraphqlLiteral) :
    List (String × GraphqlLiteral) :=
  (value.map fun value => (name, value)).toList

def optionalArg (name : String) (value : Option GraphqlLiteral) : List GraphqlArgument :=
  (value.map fun value => { name, value := .literal value }).toList

def valueArg (name : String) (value : Option GraphqlValue) : List GraphqlArgument :=
  (value.map fun value => { name, value }).toList

/-- A date that is there has to be a date. -/
def compileSince (since : Option String) : Except String (Option GraphqlLiteral) :=
  match since with
  | none => .ok none
  | some since => (compileDatetimeLiteral dates since).map some

section Args

variable (parsed : ParsedDevqlQuery) (stage : RegisteredStageCall) (first : Option ℕ)

def compileArtefactFilterInput : Except String (Option GraphqlValue) := do
  let filter := parsed.artefacts
  let since ← compileSince dates filter.since
  return GraphqlValue.object?
    (optionalField "kind" (filter.kind.map .enum) ++
      optionalField "symbolFqn" (filter.symbolFqn.map .quoted) ++
      optionalField "lines" (filter.lines.map fun l => .lines l.1 l.2) ++
      optionalField "agent" (filter.agent.map .quoted) ++ optionalField "since" since)

def compileDepsFilterInput : GraphqlValue :=
  .object
    (optionalField "kind" (parsed.deps.kind.map fun kind => .enum kind.asStr) ++
      [("direction", .enum parsed.deps.direction.asStr),
        ("includeUnresolved", .bool parsed.deps.includeUnresolved)])

def clampNeighbors (neighbors : ℤ) : ℤ := max 1 (min neighbors 50)

def compileClonesFilterInput : Option GraphqlValue :=
  let filter := parsed.clones
  GraphqlValue.object?
    (optionalField "relationKind" (filter.relationKind.map .quoted) ++
      optionalField "minScore" (filter.minScore.map fun score => .raw score.display) ++
      optionalField "neighbors"
        (filter.neighbors.map fun n => .raw (toString (clampNeighbors n))))

def compileArtefactArgs : Except String (List GraphqlArgument) := do
  let filter ← compileArtefactFilterInput dates parsed
  return valueArg "filter" filter ++ firstArg first

def compileSelectArtefactsArgs (selector : SelectArtefactsFilter) : List GraphqlArgument :=
  [{ name := "by"
     value :=
      .object
        (optionalField "symbolFqn" (selector.symbolFqn.map .quoted) ++
          optionalField "search" (selector.search.map .quoted) ++
          optionalField "searchMode" (selector.searchMode.map .enum) ++
          optionalField "path" (selector.path.map .quoted) ++
          optionalField "lines" (selector.lines.map fun l => .lines l.1 l.2)) }]

def limitArg : Option ℕ := if parsed.hasLimitStage then some parsed.limit else none

def compileSelectionCheckpointArgs : Except String (List GraphqlArgument) := do
  let since ← compileSince dates parsed.checkpoints.since
  return optionalArg "agent" (parsed.checkpoints.agent.map .quoted) ++ optionalArg "since" since

def compileCheckpointArgs : Except String (List GraphqlArgument) := do
  let args ← compileSelectionCheckpointArgs dates parsed
  return args ++ firstArg (limitArg parsed)

def compileSelectionHistoricalContextArgs : Except String (List GraphqlArgument) := do
  let filter := parsed.historicalContext
  let since ← compileSince dates filter.since
  return optionalArg "agent" (filter.agent.map .quoted) ++ optionalArg "since" since ++
    optionalArg "evidenceKind" (filter.evidenceKind.map .enum)

def compileSelectionContextGuidanceArgs : Except String (List GraphqlArgument) := do
  let filter := parsed.contextGuidance
  let since ← compileSince dates filter.since
  return optionalArg "agent" (filter.agent.map .quoted) ++ optionalArg "since" since ++
    optionalArg "evidenceKind" (filter.evidenceKind.map .enum) ++
    optionalArg "category" (filter.category.map .enum) ++
    optionalArg "kind" (filter.kind.map .quoted)

def compileTelemetryArgs : Except String (List GraphqlArgument) := do
  let filter := parsed.telemetry
  let since ← compileSince dates filter.since
  return optionalArg "eventType" (filter.eventType.map .quoted) ++
    optionalArg "agent" (filter.agent.map .quoted) ++ optionalArg "since" since ++
    firstArg (limitArg parsed)

def compileDepsArgs : List GraphqlArgument :=
  { name := "filter", value := compileDepsFilterInput parsed } :: firstArg first

def compileSelectionDepsArgs : List GraphqlArgument :=
  optionalArg "kind" (parsed.deps.kind.map fun kind => .enum kind.asStr) ++
    optionalArg "direction"
      (if parsed.deps.direction = .both then none
      else some (.enum parsed.deps.direction.asStr)) ++
    optionalArg "includeUnresolved" (some (.bool parsed.deps.includeUnresolved))

def compileClonesArgs : List GraphqlArgument :=
  valueArg "filter" (compileClonesFilterInput parsed) ++ firstArg first

def compileSelectionClonesArgs : List GraphqlArgument :=
  optionalArg "relationKind" (parsed.clones.relationKind.map .quoted) ++
    optionalArg "minScore" (parsed.clones.minScore.map fun score => .raw score.display)

def compileCloneSummaryArgs : Except String (List GraphqlArgument) := do
  let filter ← compileArtefactFilterInput dates parsed
  return valueArg "filter" filter ++ valueArg "cloneFilter" (compileClonesFilterInput parsed)

def compileDepsSummaryArgs (spec : DepsSummaryStageSpec) : List GraphqlArgument :=
  [{ name := "filter"
     value :=
      .object
        (optionalField "kind" (spec.kind.map fun kind => .enum kind.asStr) ++
          optionalField "direction" (spec.direction.map fun d => .enum d.asStr) ++
          [("unresolved", .bool (spec.unresolved.getD false))]) }]

def compileKnowledgeArgs : List GraphqlArgument :=
  optionalArg "provider" ((stage.get "provider").map .enum) ++ firstArg first

/-- The confidence is printed as it was written. -/
def compileSelectionTestsArgs : List GraphqlArgument :=
  optionalArg "minConfidence" ((stage.get "min_confidence").map .raw) ++
    optionalArg "linkageSource" ((stage.get "linkage_source").map .quoted)

def compileTestsArgs (includeFilter : Bool) : Except String (List GraphqlArgument) := do
  let filter ← if includeFilter then compileArtefactFilterInput dates parsed else pure none
  return valueArg "filter" filter ++ compileSelectionTestsArgs stage ++ firstArg first

def compileCoverageArgs (includeFilter : Bool) : Except String (List GraphqlArgument) := do
  let filter ← if includeFilter then compileArtefactFilterInput dates parsed else pure none
  return valueArg "filter" filter ++ firstArg first

def compileHttpSearchArgs : Except String (List GraphqlArgument) :=
  match stage.get "terms" with
  | none => .error (stage.stageName ++ "() requires terms:")
  | some terms => .ok (valueArg "terms" (some (compileTermsList terms)) ++ firstArg first)

/-- The first of the names that is given. -/
def RegisteredStageCall.getFirst (stage : RegisteredStageCall) (names : List String) :
    Option String :=
  names.findSome? stage.get

def headerNames : List String := ["header", "header_name", "headerName"]

def compileHttpHeaderProducersArgs : Except String (List GraphqlArgument) :=
  match stage.getFirst headerNames with
  | none => .error "httpHeaderProducers() requires header:"
  | some header => .ok (optionalArg "headerName" (some (.quoted header)) ++ firstArg first)

def compileHttpLifecycleBoundariesArgs : List GraphqlArgument :=
  valueArg "terms" ((stage.get "terms").map compileTermsList) ++ firstArg first

/-- The fields of `around`, each with the names of its argument. -/
def aroundFields : List (String × List String) :=
  [("symbolFqn", ["symbol_fqn", "symbolFqn"]), ("symbolId", ["symbol_id", "symbolId"]),
    ("artefactId", ["artefact_id", "artefactId"]), ("path", ["path"])]

def compileHttpLossyTransformsArgs (includeAround : Bool) : List GraphqlArgument :=
  valueArg "around"
      (if includeAround then
        GraphqlValue.object?
          (aroundFields.flatMap fun f => optionalField f.1 ((stage.getFirst f.2).map .quoted))
      else none) ++
    firstArg first

def fingerprintNames : List String := ["patch_fingerprint", "patchFingerprint"]

def compileHttpPatchImpactArgs : Except String (List GraphqlArgument) :=
  match stage.getFirst fingerprintNames with
  | none => .error "httpPatchImpact() requires patch_fingerprint:"
  | some fingerprint =>
    .ok (valueArg "input" (some (.object [("patchFingerprint", .quoted fingerprint)])))

end Args

/-! ## Terminal fields -/

section Leaves

variable (parsed : ParsedDevqlQuery) (stage : Option RegisteredStageKind)

/-- The stage field of a selection of artefacts. -/
def compileSelectionStage : Except String GraphqlSelection :=
  if parsed.hasCheckpointsStage then do
    let args ← compileSelectionCheckpointArgs dates parsed
    return .field "checkpoints" args (← selectionStageSelections parsed.selectFields)
  else if parsed.hasHistoricalContextStage then do
    let args ← compileSelectionHistoricalContextArgs dates parsed
    return .field "historicalContext" args (← selectionStageSelections parsed.selectFields)
  else if parsed.hasContextGuidanceStage then do
    let args ← compileSelectionContextGuidanceArgs dates parsed
    return .field "contextGuidance" args (← selectionStageSelections parsed.selectFields)
  else if parsed.hasClonesStage then do
    return .field "codeMatches" (compileSelectionClonesArgs parsed)
      (← selectionStageSelections parsed.selectFields)
  else if parsed.hasDepsStage then do
    return .field "dependencies" (compileSelectionDepsArgs parsed)
      (← dependencyStageSelections parsed.selectFields)
  else
    match stage with
    | some (.tests stage) => do
      return .field "tests" (compileSelectionTestsArgs stage)
        (← selectionStageSelections parsed.selectFields)
    | some .selectionOverview => .ok (.field "overview" [] [])
    | some (.httpContext _) =>
      .ok (.field "httpContext" (firstArg (limitArg parsed)) httpContextResultSelections)
    | _ =>
      .error ("selectArtefacts(...) requires overview(), checkpoints(), historicalContext(), " ++
        "contextGuidance(), clones(), dependencies(), tests(), or httpContext()")

def compileSelectArtefactsLeaf (selector : SelectArtefactsFilter) :
    Except String GraphqlSelection := do
  let stageField ← compileSelectionStage dates parsed stage
  return .field "selectArtefacts" (compileSelectArtefactsArgs selector) [stageField]

def compileHttpLeaf (stage : RegisteredStageKind) : Except String GraphqlSelection :=
  match stage with
  | .httpSearch stage => do
    return .field "httpSearch" (← compileHttpSearchArgs stage (limitArg parsed))
      httpSearchResultSelections
  | .httpHeaderProducers stage => do
    return .field "httpHeaderProducers"
      (← compileHttpHeaderProducersArgs stage (limitArg parsed)) httpHeaderProducerSelections
  | .httpLifecycleBoundaries stage =>
    .ok (.field "httpLifecycleBoundaries"
      (compileHttpLifecycleBoundariesArgs stage (limitArg parsed)) httpPrimitiveSelections)
  | .httpLossyTransforms stage =>
    .ok (.field "httpLossyTransforms"
      (compileHttpLossyTransformsArgs stage (limitArg parsed) true) httpPrimitiveSelections)
  | .httpPatchImpact stage => do
    return .field "httpPatchImpact" (← compileHttpPatchImpactArgs stage)
      httpPatchImpactResultSelections
  | _ => .error "unsupported HTTP stage in direct lookup compiler"

def compileProjectStageLeaf (stage : RegisteredStageKind) : Except String GraphqlSelection :=
  match stage with
  | .cloneSummary =>
    .error "summary() is not a project-level registered stage in the GraphQL compiler"
  | .depsSummary _ =>
    .error ("summary(dependencies:true, ...) is not a project-level registered stage in the " ++
      "GraphQL compiler")
  | .tests stage => do
    return .field "tests" (← compileTestsArgs dates parsed stage (limitArg parsed) true)
      testsResultSelections
  | .coverage => do
    return .field "coverage" (← compileCoverageArgs dates parsed (limitArg parsed) true)
      coverageResultSelections
  | .testsSummary => .ok (.field "testsSummary" [] testsSummaryResultSelections)
  | .knowledge _ =>
    .error "knowledge() is not a project-level registered stage in the GraphQL compiler"
  | .selectionOverview =>
    .error "that selection-only HTTP stage is not project-level in the GraphQL compiler"
  | .httpContext _ =>
    .error "that selection-only HTTP stage is not project-level in the GraphQL compiler"
  | stage => compileHttpLeaf parsed stage

def compileCheckpointsLeaf : Except String GraphqlSelection := do
  return connectionField "checkpoints" (← compileCheckpointArgs dates parsed)
    (← scalarSelectionsForLeaf .checkpoint parsed.selectFields)

def compileTelemetryLeaf : Except String GraphqlSelection := do
  return connectionField "telemetry" (← compileTelemetryArgs dates parsed)
    (← scalarSelectionsForLeaf .telemetry parsed.selectFields)

def compileDepsLeaf : Except String GraphqlSelection := do
  return connectionField "dependencies" (compileDepsArgs parsed (limitArg parsed))
    (← scalarSelectionsForLeaf .dependencyEdge parsed.selectFields)

def compileKnowledgeLeaf (stage : RegisteredStageCall) : Except String GraphqlSelection := do
  return connectionField "knowledge" (compileKnowledgeArgs stage (limitArg parsed))
    (← scalarSelectionsForLeaf .knowledgeItem parsed.selectFields)

def compileCloneSummaryLeaf : Except String GraphqlSelection := do
  return .field "cloneSummary" (← compileCloneSummaryArgs dates parsed) cloneSummarySelections

/-- The field of a registered stage among those of an artefact. -/
def compileNestedStage (stage : RegisteredStageKind) : Except String (List GraphqlSelection) :=
  match stage with
  | .tests stage => do
    return [.field "tests" (← compileTestsArgs dates parsed stage (limitArg parsed) false)
      testsResultSelections]
  | .coverage => do
    return [.field "coverage" (← compileCoverageArgs dates parsed (limitArg parsed) false)
      coverageResultSelections]
  | .cloneSummary =>
    .error "summary() cannot be nested under artefacts() in the GraphQL compiler"
  | .depsSummary spec =>
    .ok [.field "dependenciesSummary" (compileDepsSummaryArgs spec) depsSummarySelections]
  | .testsSummary => .error "test_harness_tests_summary() cannot be nested under artefacts()"
  | .knowledge _ =>
    .error "knowledge() cannot be nested under artefacts() when compiling to GraphQL"
  | .selectionOverview => .error "overview() cannot be nested under artefacts()"
  | .httpContext _ => .error "httpContext() is only supported after selectArtefacts(...)"
  | .httpLossyTransforms stage =>
    .ok [.field "httpLossyTransforms"
      (compileHttpLossyTransformsArgs stage (limitArg parsed) false) httpPrimitiveSelections]
  | _ => .error "that HTTP direct lookup cannot be nested under artefacts()"

/-- The limit goes to the innermost stage. -/
def outerFirst : Option ℕ :=
  if parsed.hasChatHistoryStage || parsed.hasClonesStage || stage.isSome then none
  else limitArg parsed

def compileArtefactsLeaf : Except String GraphqlSelection := do
  let selected ←
    if parsed.hasClonesStage then pure []
    else scalarSelectionsForLeaf .artefact parsed.selectFields
  let chatHistory ←
    if parsed.hasChatHistoryStage then do
      let entries ← scalarSelectionsForLeaf .chatEntry []
      pure [connectionField "chatHistory" (firstArg (limitArg parsed)) entries]
    else pure []
  let clones :=
    if parsed.hasClonesStage then
      [connectionField "clones" (compileClonesArgs parsed (limitArg parsed))
        (cloneResultSelections parsed.clones.raw)]
    else []
  let nested ←
    match stage with
    | none => pure []
    | some stage => compileNestedStage dates parsed stage
  return connectionField "artefacts"
    (← compileArtefactArgs dates parsed (outerFirst parsed stage))
    (selected ++ chatHistory ++ clones ++ nested)

def compileTerminalLeaf : Except String GraphqlSelection :=
  match parsed.selectArtefacts with
  | some selector => compileSelectArtefactsLeaf dates parsed stage selector
  | none =>
    if parsed.hasCheckpointsStage then compileCheckpointsLeaf dates parsed
    else if parsed.hasTelemetryStage then compileTelemetryLeaf dates parsed
    else if parsed.hasDepsStage && !parsed.hasArtefactsStage then compileDepsLeaf parsed
    else
      match stage, parsed.hasArtefactsStage with
      | some (.knowledge stage), false => compileKnowledgeLeaf parsed stage
      | some stage, hasArtefacts =>
        if stage.isDirectHttp && !hasArtefacts then compileHttpLeaf parsed stage
        else if stage.isCloneSummary then compileCloneSummaryLeaf dates parsed
        else if hasArtefacts then compileArtefactsLeaf dates parsed (some stage)
        else if stage.isTestsSummary then
          .ok (.field "testsSummary" [] testsSummaryResultSelections)
        else .error "the GraphQL compiler could not determine a queryable leaf stage"
      | none, true => compileArtefactsLeaf dates parsed none
      | none, false => .error "the GraphQL compiler could not determine a queryable leaf stage"

/-! ## Scopes -/

def compileAsOfInput (selector : AsOfSelector) : GraphqlArgument where
  name := "input"
  value :=
    .object
      (match selector with
      | .ref reference => [("ref", .quoted reference)]
      | .commit commit => [("commit", .quoted commit)]
      | .saveCurrent => [("save", .raw "CURRENT")]
      | .saveRevision revision => [("saveRevision", .quoted revision)])

/-- A field of a scope around the field. -/
def inScope (name : String) (arg : Option GraphqlArgument) (field : GraphqlSelection) :
    GraphqlSelection :=
  match arg with
  | none => field
  | some arg => .field name [arg] [field]

def pathArg (path : String) : GraphqlArgument where
  name := "path"
  value := .literal (.quoted path)

/-- `file()` goes before `files()`. -/
def inFileScope (field : GraphqlSelection) : GraphqlSelection :=
  match parsed.file with
  | some file => inScope "file" (some (pathArg file)) field
  | none => inScope "files" (parsed.filesPath.map pathArg) field

def wrapInScopes (field : GraphqlSelection) (mode : GraphqlCompileMode) : GraphqlSelection :=
  let inAsOf := inScope "asOf" (parsed.asOf.map compileAsOfInput) (inFileScope parsed field)
  match mode with
  | .global => inScope "project" (parsed.projectPath.map pathArg) inAsOf
  | .slim => inAsOf

end Leaves

/-! ## Documents -/

def repoArg (parsed : ParsedDevqlQuery) : GraphqlArgument where
  name := "name"
  value := .literal (.quoted (parsed.repo.getD "default"))

/-- The root field of the document. -/
def compileRootField (parsed : ParsedDevqlQuery) (mode : GraphqlCompileMode) :
    Except String GraphqlSelection := do
  let stage ← resolveRegisteredStage parsed
  validateGraphqlCompilerSupport parsed stage mode
  let terminalField ←
    match stage, shouldCompileProjectStage parsed stage with
    | some stage, true => compileProjectStageLeaf dates parsed stage
    | stage, _ => compileTerminalLeaf dates parsed stage
  let scopedField := wrapInScopes parsed terminalField mode
  return match mode with
    | .global => .field "repo" [repoArg parsed] [scopedField]
    | .slim => scopedField

def compileDevqlToGraphqlWithMode (parsed : ParsedDevqlQuery) (mode : GraphqlCompileMode) :
    Except String String := do
  let rootField ← compileRootField dates parsed mode
  return buildDocument [rootField]

end DevqlGraphql
end Bitloops
