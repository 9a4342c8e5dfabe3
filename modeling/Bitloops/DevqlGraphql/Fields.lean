import Bitloops.DevqlGraphql.Document

/-!
# The fields that stages select

Each stage has the fields that it always selects, or those that `select()` may name, with the
names that they have in GraphQL.
-/

namespace Bitloops
namespace DevqlGraphql

open Checkpoints

def scalars (names : List String) : List GraphqlSelection := names.map .scalar

/-! ## Fields that `select()` names -/

inductive SelectableLeaf where
  | artefact
  | checkpoint
  | telemetry
  | dependencyEdge
  | clone
  | chatEntry
  | knowledgeItem
  deriving DecidableEq, Repr

namespace SelectableLeaf

def displayName : SelectableLeaf → String
  | artefact => "artefact"
  | checkpoint => "checkpoint"
  | telemetry => "telemetry"
  | dependencyEdge => "dependency edge"
  | clone => "clone"
  | chatEntry => "chat history"
  | knowledgeItem => "knowledge"

def defaultFields : SelectableLeaf → List String
  | artefact =>
    ["id", "path", "symbolFqn", "canonicalKind", "languageKind", "startLine", "endLine",
      "language"]
  | checkpoint =>
    ["id", "sessionId", "commitSha", "branch", "agent", "eventTime", "strategy", "filesTouched"]
  | telemetry => ["id", "sessionId", "eventType", "agent", "eventTime", "commitSha", "branch"]
  | dependencyEdge =>
    ["id", "edgeKind", "fromArtefactId", "toArtefactId", "toSymbolRef", "startLine", "endLine"]
  | clone =>
    ["id", "sourceArtefactId", "targetArtefactId", "sourceStartLine", "sourceEndLine",
      "targetStartLine", "targetEndLine", "relationKind", "score"]
  | chatEntry => ["sessionId", "agent", "timestamp", "role", "content"]
  | knowledgeItem => ["id", "provider", "sourceKind", "canonicalExternalId", "externalUrl", "title"]

def allowedFields : SelectableLeaf → List String
  | artefact =>
    ["id", "symbolId", "path", "language", "canonicalKind", "languageKind", "symbolFqn",
      "parentArtefactId", "startLine", "endLine", "startByte", "endByte", "signature",
      "modifiers", "docstring", "contentHash", "blobSha", "createdAt"]
  | checkpoint =>
    ["id", "sessionId", "commitSha", "branch", "agent", "eventTime", "strategy", "filesTouched",
      "payload", "checkpointsCount", "sessionCount", "agents", "firstPromptPreview", "createdAt",
      "isTask", "toolUseId"]
  | telemetry =>
    ["id", "sessionId", "eventType", "agent", "eventTime", "commitSha", "branch", "payload"]
  | dependencyEdge =>
    ["id", "edgeKind", "language", "fromArtefactId", "toArtefactId", "toSymbolRef", "startLine",
      "endLine", "metadata"]
  | clone =>
    ["id", "sourceArtefactId", "targetArtefactId", "sourceStartLine", "sourceEndLine",
      "targetStartLine", "targetEndLine", "relationKind", "score", "metadata"]
  | chatEntry => ["sessionId", "agent", "timestamp", "role", "content", "metadata"]
  | knowledgeItem =>
    ["id", "sourceId", "provider", "sourceKind", "canonicalExternalId", "externalUrl", "title"]

end SelectableLeaf

def snakeToCamelChars : List Char → Bool → List Char
  | [], _ => []
  | c :: rest, uppercaseNext =>
    if c = '_' then snakeToCamelChars rest true
    else (if uppercaseNext then c.toUpper else c) :: snakeToCamelChars rest false

def snakeToCamel (input : String) : String :=
  String.ofList (snakeToCamelChars input.toList false)

/-- The names that have a GraphQL name of their own; the other names of the table of the source
are the ones that `snakeToCamel` makes. -/
def dslFieldToGraphql (field : String) : String :=
  match trimText field with
  | "artefact_id" => "id"
  | "checkpoint_id" => "id"
  | "edge_id" => "id"
  | other => snakeToCamel other

def mapSelectedField (leaf : SelectableLeaf) (field : String) : Except String String :=
  let graphql := dslFieldToGraphql field
  if leaf.allowedFields.contains graphql then .ok graphql
  else
    .error ("unsupported select() field \x60" ++ field ++ "\x60 for " ++ leaf.displayName ++
      " results")

def scalarSelectionsForLeaf (leaf : SelectableLeaf) (selectFields : List String) :
    Except String (List GraphqlSelection) :=
  if selectFields.isEmpty then .ok (scalars leaf.defaultFields)
  else (selectFields.mapM (mapSelectedField leaf)).map scalars

/-! ## Fields that are always selected -/

def testsResultSelections : List GraphqlSelection :=
  [.field "artefact" []
      (scalars ["artefactId", "name", "kind", "filePath", "startLine", "endLine"]),
    .field "coveringTests" []
      (scalars
          ["testId", "testName", "suiteName", "filePath", "startLine", "endLine",
            "classification", "classificationSource", "fanOut"] ++
        [.field "lastRun" [] (scalars ["status", "durationMs", "commitSha"])]),
    .field "summary" []
      (scalars ["totalCoveringTests"] ++
        [.field "expandHint" [] (scalars ["intent", "template"])])]

def coverageResultSelections : List GraphqlSelection :=
  [.field "artefact" []
      (scalars ["artefactId", "name", "kind", "filePath", "startLine", "endLine"]),
    .field "coverage" []
      (scalars
          ["coverageSource", "lineCoveragePct", "branchCoveragePct", "lineDataAvailable",
            "branchDataAvailable", "uncoveredLines"] ++
        [.field "branches" [] (scalars ["line", "block", "branch", "covered", "hitCount"])]),
    .field "summary" []
      (scalars ["uncoveredLineCount", "uncoveredBranchCount", "diagnosticCount"])]

/-- The fields that `clones(raw: true)` selects. -/
def rawCloneFields : List String :=
  ["id", "sourceArtefactId", "targetArtefactId", "sourceStartLine", "sourceEndLine",
    "targetStartLine", "targetEndLine", "relationKind", "score", "metadata"]

def cloneResultSelections (raw : Bool) : List GraphqlSelection :=
  if raw then scalars rawCloneFields
  else
    scalars ["relationKind", "score"] ++
      [.field "sourceArtefact" [] (scalars ["path", "symbolFqn"]),
        .field "targetArtefact" [] (scalars ["path", "symbolFqn"])]

def testsSummaryResultSelections : List GraphqlSelection :=
  scalars ["capability", "stage", "status", "commitSha"] ++
    [.field "counts" []
      (scalars
        ["testArtefacts", "testArtefactEdges", "testClassifications", "coverageCaptures",
          "coverageHits"])] ++
    scalars ["coveragePresent"]

def cloneSummarySelections : List GraphqlSelection :=
  scalars ["totalCount"] ++ [.field "groups" [] (scalars ["relationKind", "count"])]

def depsSummarySelections : List GraphqlSelection :=
  scalars ["totalCount", "incomingCount", "outgoingCount"] ++
    [.field "kindCounts" []
      (scalars ["imports", "calls", "references", "extends", "implements", "exports"])]

def httpConfidenceSelections : List GraphqlSelection := scalars ["level", "score"]

def httpEvidenceSelections : List GraphqlSelection :=
  scalars
    ["kind", "path", "artefactId", "symbolId", "contentId", "startLine", "endLine",
      "dependencyPackage", "dependencyVersion", "sourceUrl"]

def httpUpstreamFactSelections : List GraphqlSelection :=
  scalars ["owner", "factId", "primitiveType", "subject", "roles"]

def httpCausalChainSelections : List GraphqlSelection :=
  scalars ["owner", "factId", "role", "primitiveType", "subject"]

def httpInvalidatedAssumptionSelections : List GraphqlSelection :=
  scalars ["id", "assumption", "invalidatedByPrimitiveIds", "scope"]

def httpObligationSelections : List GraphqlSelection :=
  scalars ["id", "requiredFollowUp", "targetSymbols", "blocking"]

def httpBundleSelections : List GraphqlSelection :=
  scalars ["bundleId", "kind", "riskKind", "severity", "matchedRoles", "status"] ++
    [.field "confidence" [] httpConfidenceSelections,
      .field "upstreamFacts" [] httpUpstreamFactSelections,
      .field "causalChain" [] httpCausalChainSelections,
      .field "invalidatedAssumptions" [] httpInvalidatedAssumptionSelections,
      .field "obligations" [] httpObligationSelections]

def httpPrimitiveSelections : List GraphqlSelection :=
  scalars ["id", "owner", "primitiveType", "subject", "roles", "terms", "status"] ++
    [.field "confidence" [] httpConfidenceSelections,
      .field "evidence" [] httpEvidenceSelections, .scalar "properties"]

def httpSearchResultSelections : List GraphqlSelection :=
  [.scalar "overview", .field "bundles" [] httpBundleSelections,
    .field "matchedFacts" [] httpPrimitiveSelections]

def httpContextResultSelections : List GraphqlSelection :=
  [.scalar "overview", .field "bundles" [] httpBundleSelections,
    .field "primitives" [] httpPrimitiveSelections,
    .field "obligations" [] httpObligationSelections]

def httpHeaderProducerSelections : List GraphqlSelection :=
  scalars ["primitiveId", "producerKind", "sourceSignal", "phase", "preconditions"] ++
    [.field "confidence" [] httpConfidenceSelections]

def httpPatchImpactResultSelections : List GraphqlSelection :=
  [.scalar "patchFingerprint",
    .field "invalidatedAssumptions" [] httpInvalidatedAssumptionSelections,
    .field "propagationObligations" [] httpObligationSelections]

/-! ## Fields of a selection of artefacts -/

def selectionFieldError (field : String) : String :=
  "selectArtefacts(...) only supports select(overview), select(schema), or selecting both " ++
    "overview and schema; unsupported field \x60" ++ field ++ "\x60"

/-- The selections of one field of `select()`. -/
def selectionStageField (overview : List GraphqlSelection) (field : String) :
    Except String (List GraphqlSelection) :=
  match field with
  | "overview" => .ok overview
  | "summary" => .ok overview
  | "schema" => .ok [.scalar "schema"]
  | other => .error (selectionFieldError other)

def selectedOrOverview (selectFields : List String) : List String :=
  if selectFields.isEmpty then ["overview"] else selectFields

def selectionStageSelections (selectFields : List String) :
    Except String (List GraphqlSelection) :=
  ((selectedOrOverview selectFields).mapM (selectionStageField [.scalar "overview"])).map
    List.flatten

def expandHintSelections : List GraphqlSelection :=
  scalars ["intent", "template"] ++
    [.field "parameters" [] (scalars ["name", "intent", "supportedValues"])]

def dependencyStageSelections (selectFields : List String) :
    Except String (List GraphqlSelection) :=
  ((selectedOrOverview selectFields).mapM
    (selectionStageField [.scalar "overview", .field "expandHint" [] expandHintSelections])).map
    List.flatten

end DevqlGraphql
end Bitloops
