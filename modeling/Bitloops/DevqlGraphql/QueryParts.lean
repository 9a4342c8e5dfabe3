import Bitloops.DevqlGraphql.Compiler

/-!
# What a query asks for and where a document has it

A query has parts: its scopes, its stages with their filters, `limit()` and `select()`.  A document
is read as the list of its fields, each with its arguments and the names that it selects, and a
part appears in a document when one of the fields has all that the part sets.
-/

namespace Bitloops
namespace DevqlGraphql

/-! ## The fields of a document -/

/-- A field with its arguments and the names that it selects. -/
structure CompiledField where
  name : String
  args : List GraphqlArgument
  selected : List String
  deriving DecidableEq

def GraphqlSelection.scalarName : GraphqlSelection → Option String
  | scalar name => some name
  | field _ _ _ => none

/-- The fields of a selection, the outer ones first. -/
def GraphqlSelection.compiledFields : GraphqlSelection → List CompiledField
  | scalar _ => []
  | field name args selectionSet =>
    { name, args, selected := selectionSet.filterMap scalarName } ::
      selectionSet.flatMap compiledFields

namespace CompiledField

/-- The value of an argument, or of a field of an input object that is an argument. -/
def Gives (f : CompiledField) (name : String) (value : GraphqlValue) : Prop :=
  ∃ arg ∈ f.args, (arg.name = name ∧ arg.value = value) ∨
    ∃ fields literal, arg.value = .object fields ∧ value = .literal literal ∧
      (name, literal) ∈ fields

/-- A value that is set is given. -/
def GivesAny (f : CompiledField) (name : String) (value : Option GraphqlLiteral) : Prop :=
  ∀ literal ∈ value, f.Gives name (.literal literal)

/-- A date that is set is given as a date. -/
def GivesDate (dates : DateParsers) (f : CompiledField) (since : Option String) : Prop :=
  ∀ date ∈ since, ∃ literal, compileDatetimeLiteral dates date = .ok literal ∧
    f.Gives "since" (.literal literal)

end CompiledField

/-! ## Filters -/

section Filters

variable (dates : DateParsers) (f : CompiledField)

structure ArtefactsInFull (filter : ArtefactFilter) : Prop where
  kind : f.GivesAny "kind" (filter.kind.map .enum)
  symbolFqn : f.GivesAny "symbolFqn" (filter.symbolFqn.map .quoted)
  lines : f.GivesAny "lines" (filter.lines.map fun l => .lines l.1 l.2)
  agent : f.GivesAny "agent" (filter.agent.map .quoted)
  since : f.GivesDate dates filter.since

structure SelectorInFull (filter : SelectArtefactsFilter) : Prop where
  symbolFqn : f.GivesAny "symbolFqn" (filter.symbolFqn.map .quoted)
  search : f.GivesAny "search" (filter.search.map .quoted)
  searchMode : f.GivesAny "searchMode" (filter.searchMode.map .enum)
  path : f.GivesAny "path" (filter.path.map .quoted)
  lines : f.GivesAny "lines" (filter.lines.map fun l => .lines l.1 l.2)

/-- The number of neighbours is given within its bounds. -/
structure ClonesInFull (filter : CloneFilter) : Prop where
  relationKind : f.GivesAny "relationKind" (filter.relationKind.map .quoted)
  minScore : f.GivesAny "minScore" (filter.minScore.map fun score => .raw score.display)
  neighbors :
    f.GivesAny "neighbors" (filter.neighbors.map fun n => .raw (toString (clampNeighbors n)))

structure CheckpointsInFull (filter : CheckpointFilter) : Prop where
  agent : f.GivesAny "agent" (filter.agent.map .quoted)
  since : f.GivesDate dates filter.since

structure HistoricalContextInFull (filter : HistoricalContextFilter) : Prop where
  agent : f.GivesAny "agent" (filter.agent.map .quoted)
  since : f.GivesDate dates filter.since
  evidenceKind : f.GivesAny "evidenceKind" (filter.evidenceKind.map .enum)

structure ContextGuidanceInFull (filter : ContextGuidanceFilter) : Prop where
  agent : f.GivesAny "agent" (filter.agent.map .quoted)
  since : f.GivesDate dates filter.since
  evidenceKind : f.GivesAny "evidenceKind" (filter.evidenceKind.map .enum)
  category : f.GivesAny "category" (filter.category.map .enum)
  kind : f.GivesAny "kind" (filter.kind.map .quoted)

structure TelemetryInFull (filter : TelemetryFilter) : Prop where
  eventType : f.GivesAny "eventType" (filter.eventType.map .quoted)
  agent : f.GivesAny "agent" (filter.agent.map .quoted)
  since : f.GivesDate dates filter.since

/-- Where `defaultDirection` is the direction, it may be left out. -/
structure DepsInFull (filter : DepsFilter) (defaultDirection : Option DepsDirection) : Prop where
  kind : f.GivesAny "kind" (filter.kind.map fun kind => .enum kind.asStr)
  direction :
    some filter.direction = defaultDirection ∨
      f.Gives "direction" (.literal (.enum filter.direction.asStr))
  includeUnresolved : f.Gives "includeUnresolved" (.literal (.bool filter.includeUnresolved))

/-- `summary(dependencies: true, ...)`: what is set is read and given. -/
structure DepsSummaryInFull (call : RegisteredStageCall) : Prop where
  kind :
    ∀ value ∈ call.get "kind", ∃ kind, DepsKind.fromStr value = some kind ∧
      f.Gives "kind" (.literal (.enum kind.asStr))
  direction :
    ∀ value ∈ call.get "direction", ∃ direction, DepsDirection.fromStr value = some direction ∧
      f.Gives "direction" (.literal (.enum direction.asStr))
  unresolved :
    ∀ value ∈ call.get "unresolved", ∃ unresolved, parseBoolLiteral "" value = .ok unresolved ∧
      f.Gives "unresolved" (.literal (.bool unresolved))

end Filters

/-! ## Arguments of registered stages -/

/-- An argument of a registered stage: its name in GraphQL, the names that it may have in the query
and its value. -/
structure StageArgument where
  name : String
  keys : List String
  encode : String → GraphqlValue

def quotedValue (text : String) : GraphqlValue := .literal (.quoted text)

def RegisteredStageKind.arguments : RegisteredStageKind → List StageArgument
  | tests _ =>
    [{ name := "minConfidence", keys := ["min_confidence"], encode := fun v => .literal (.raw v) },
      { name := "linkageSource", keys := ["linkage_source"], encode := quotedValue }]
  | knowledge _ =>
    [{ name := "provider", keys := ["provider"], encode := fun v => .literal (.enum v) }]
  | httpSearch _ => [{ name := "terms", keys := ["terms"], encode := compileTermsList }]
  | httpLifecycleBoundaries _ =>
    [{ name := "terms", keys := ["terms"], encode := compileTermsList }]
  | httpHeaderProducers _ =>
    [{ name := "headerName", keys := headerNames, encode := quotedValue }]
  | httpLossyTransforms _ =>
    aroundFields.map fun f => { name := f.1, keys := f.2, encode := quotedValue }
  | httpPatchImpact _ =>
    [{ name := "patchFingerprint", keys := fingerprintNames, encode := quotedValue }]
  | _ => []

/-- The names of the arguments that are read: for each argument the first of its names that is
given. -/
def RegisteredStageCall.readKeys (call : RegisteredStageCall) (arguments : List StageArgument) :
    List String :=
  arguments.filterMap fun argument => argument.keys.find? fun key => (call.get key).isSome

/-- Each argument that is set is given under its GraphQL name. -/
def ArgumentsInFull (f : CompiledField) (call : RegisteredStageCall)
    (arguments : List StageArgument) : Prop :=
  ∀ row ∈ call.args.rows, ∃ argument ∈ arguments, row.1 ∈ argument.keys ∧
    f.Gives argument.name (argument.encode row.2)

def RegisteredStageKind.fieldName : RegisteredStageKind → String
  | cloneSummary => "cloneSummary"
  | depsSummary _ => "dependenciesSummary"
  | tests _ => "tests"
  | coverage => "coverage"
  | testsSummary => "testsSummary"
  | knowledge _ => "knowledge"
  | selectionOverview => "overview"
  | httpSearch _ => "httpSearch"
  | httpContext _ => "httpContext"
  | httpHeaderProducers _ => "httpHeaderProducers"
  | httpLifecycleBoundaries _ => "httpLifecycleBoundaries"
  | httpLossyTransforms _ => "httpLossyTransforms"
  | httpPatchImpact _ => "httpPatchImpact"

/-- The field has what the call of the stage sets. -/
def RegisteredInFull (f : CompiledField) (call : RegisteredStageCall) :
    RegisteredStageKind → Prop
  | .depsSummary _ => DepsSummaryInFull f call
  | kind => ArgumentsInFull f call kind.arguments

/-! ## The parts of a query -/

inductive QueryPart where
  | project (path : String)
  | file (path : String)
  | files (path : String)
  | asOf (selector : AsOfSelector)
  | selectArtefacts (selector : SelectArtefactsFilter)
  | artefacts (filter : ArtefactFilter)
  | clones (filter : CloneFilter)
  | deps (filter : DepsFilter) (defaultDirection : Option DepsDirection)
  | checkpoints (filter : CheckpointFilter)
  | historicalContext (filter : HistoricalContextFilter)
  | contextGuidance (filter : ContextGuidanceFilter)
  | telemetry (filter : TelemetryFilter)
  | chatHistory
  | registered (kind : RegisteredStageKind) (call : RegisteredStageCall)
  | limit (count : ℕ)
  | select (names : List String)

/-- The GraphQL name of a field of `select()`; after `selectArtefacts` it is the overview or the
schema. -/
def selectedName (parsed : ParsedDevqlQuery) (field : String) : String :=
  if parsed.selectArtefacts.isSome then (if field = "schema" then "schema" else "overview")
  else dslFieldToGraphql field

def partIf (condition : Bool) (part : QueryPart) : List QueryPart :=
  if condition then [part] else []

section Parts

variable (parsed : ParsedDevqlQuery) (stage : Option RegisteredStageKind)
  (mode : GraphqlCompileMode)

/-- In the slim mode the project is implicit. -/
def scopeParts : List QueryPart :=
  (match mode with
    | .global => parsed.projectPath.toList.map .project
    | .slim => []) ++
  parsed.file.toList.map .file ++ parsed.filesPath.toList.map .files ++
  parsed.asOf.toList.map .asOf

/-- Dependencies of a selection go both ways unless they are told otherwise; `summary()` counts all
clones, whatever the limit. -/
def stageParts : List QueryPart :=
  parsed.selectArtefacts.toList.map .selectArtefacts ++
  partIf parsed.hasArtefactsStage (.artefacts parsed.artefacts) ++
  partIf parsed.hasClonesStage (.clones parsed.clones) ++
  partIf parsed.hasDepsStage
    (.deps parsed.deps (if parsed.selectArtefacts.isSome then some .both else none)) ++
  partIf parsed.hasCheckpointsStage (.checkpoints parsed.checkpoints) ++
  partIf parsed.hasHistoricalContextStage (.historicalContext parsed.historicalContext) ++
  partIf parsed.hasContextGuidanceStage (.contextGuidance parsed.contextGuidance) ++
  partIf parsed.hasTelemetryStage (.telemetry parsed.telemetry) ++
  partIf parsed.hasChatHistoryStage .chatHistory ++
  (stage.toList.flatMap fun kind => parsed.registeredStages.map (.registered kind)) ++
  partIf (parsed.hasLimitStage && !stage.any (·.isCloneSummary)) (.limit parsed.limit) ++
  partIf (!parsed.selectFields.isEmpty) (.select (parsed.selectFields.map (selectedName parsed)))

end Parts

/-- A field of the list has one of the names and the property. -/
def HasField (fields : List CompiledField) (names : List String) (p : CompiledField → Prop) :
    Prop :=
  ∃ f ∈ fields, f.name ∈ names ∧ p f

namespace QueryPart

variable (dates : DateParsers) (fields : List CompiledField)

def AppearsIn : QueryPart → Prop
  | project path => HasField fields ["project"] fun f => f.Gives "path" (quotedValue path)
  | file path => HasField fields ["file"] fun f => f.Gives "path" (quotedValue path)
  | files path => HasField fields ["files"] fun f => f.Gives "path" (quotedValue path)
  | asOf selector =>
    HasField fields ["asOf"] fun f =>
      match selector with
      | .ref reference => f.Gives "ref" (quotedValue reference)
      | .commit commit => f.Gives "commit" (quotedValue commit)
      | .saveCurrent => f.Gives "save" (.literal (.raw "CURRENT"))
      | .saveRevision revision => f.Gives "saveRevision" (quotedValue revision)
  | selectArtefacts selector =>
    HasField fields ["selectArtefacts"] fun f => SelectorInFull f selector
  | artefacts filter =>
    HasField fields ["artefacts", "cloneSummary", "tests", "coverage"] fun f =>
      ArtefactsInFull dates f filter
  | clones filter =>
    (HasField fields ["clones", "cloneSummary", "codeMatches"] fun f => ClonesInFull f filter) ∧
      (filter.raw → ∃ f ∈ fields, f.selected = rawCloneFields)
  | deps filter defaultDirection =>
    HasField fields ["dependencies"] fun f => DepsInFull f filter defaultDirection
  | checkpoints filter =>
    HasField fields ["checkpoints"] fun f => CheckpointsInFull dates f filter
  | historicalContext filter =>
    HasField fields ["historicalContext"] fun f => HistoricalContextInFull dates f filter
  | contextGuidance filter =>
    HasField fields ["contextGuidance"] fun f => ContextGuidanceInFull dates f filter
  | telemetry filter => HasField fields ["telemetry"] fun f => TelemetryInFull dates f filter
  | chatHistory => HasField fields ["chatHistory"] fun _ => True
  | registered kind call =>
    HasField fields [kind.fieldName] fun f => RegisteredInFull f call kind
  | limit count => ∃ f ∈ fields, f.Gives "first" (.literal (.raw count.repr))
  | select names => ∃ f ∈ fields, f.selected = names

end QueryPart

/-- The document has every part of the query. -/
def CompiledInFull (dates : DateParsers) (parsed : ParsedDevqlQuery)
    (stage : Option RegisteredStageKind) (mode : GraphqlCompileMode)
    (document : GraphqlSelection) : Prop :=
  ∀ part ∈ scopeParts parsed mode ++ stageParts parsed stage,
    part.AppearsIn dates document.compiledFields

end DevqlGraphql
end Bitloops
