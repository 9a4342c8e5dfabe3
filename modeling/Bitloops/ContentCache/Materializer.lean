import Bitloops.ContentCache.Extraction
import Mathlib

/-!
# Materialising a cache entry

The rows of a file are derived from the cache entry of its content: the names are rebuilt from
the file's own path, parent by parent, and the identifiers are hashed from the names.
-/

namespace Bitloops
namespace ContentCache

structure MaterializedArtefact where
  artifactKey : String
  symbolId : String
  artefactId : String
  canonicalKind : Option String
  languageKind : String
  symbolFqn : String
  parentSymbolId : Option String
  parentArtefactId : Option String
  startLine : ℤ
  endLine : ℤ
  startByte : ℤ
  endByte : ℤ
  signature : Option String
  modifiers : List String
  docstring : Option String
  deriving DecidableEq, Repr

structure MaterializedEdge where
  edgeId : String
  fromSymbolId : String
  fromArtefactId : String
  toSymbolId : Option String
  toArtefactId : Option String
  toSymbolRef : Option String
  edgeKind : String
  language : String
  startLine : Option ℤ
  endLine : Option ℤ
  metadata : String
  deriving DecidableEq, Repr

structure PreparedMaterialisationRows where
  materializedArtefacts : List MaterializedArtefact
  materializedEdges : List MaterializedEdge
  deriving DecidableEq, Repr

/-- The parameters of a materialisation: the repository and the desired state of the file. -/
structure MaterializationTarget where
  repoId : String
  path : String
  effectiveContentId : String
  language : String
  extractionFingerprint : String
  deriving DecidableEq, Repr

/-- A computation that returns, fails with a message, or recurses too deeply. -/
abbrev Outcome := ExceptT String Option

/-! ## Names -/

def nonEmptyText (value : String) : Option String :=
  let trimmed := Sync.trim value
  if trimmed = "" then none else some trimmed

def isFileCachedArtefact (artefact : CachedArtefact) : Bool :=
  artefact.canonicalKind = some "file" && artefact.languageKind = "file"

def isFileArtefact (artefact : MaterializedArtefact) : Bool :=
  artefact.canonicalKind = some "file" && artefact.languageKind = "file"

def isImportLikeArtefact (artefact : CachedArtefact) : Bool :=
  artefact.canonicalKind = some "import" ||
    decide ("import".toList <:+: artefact.languageKind.toList)

def fallbackLocalSymbolSuffix (artefact : CachedArtefact) : String :=
  if isImportLikeArtefact artefact then "import::" ++ artefact.name else artefact.name

def cachedSymbolFqnHelper (artefact : CachedArtefact) : Option String :=
  artefact.metadata.lookup "symbol_fqn"

/-- `str::strip_prefix`. -/
def stripPrefix? (start text : String) : Option String :=
  if start.toList <+: text.toList then
    some (String.ofList (text.toList.drop start.toList.length))
  else none

/-- The part of the cached name that the artefact adds to its parent's. -/
def helperSuffix (artefact : CachedArtefact) (parentCached : Option CachedArtefact) :
    Option String :=
  (cachedSymbolFqnHelper artefact).bind fun helper =>
    match parentCached.bind cachedSymbolFqnHelper with
    | some parentHelper => stripPrefix? (parentHelper ++ "::") helper
    | none => (afterColons? helper.toList).map String.ofList

def reconstructSymbolFqn (artefact : CachedArtefact) (parentCached : Option CachedArtefact)
    (parentMaterialized : Option MaterializedArtefact) (path : String) : String :=
  if isFileCachedArtefact artefact then path
  else
    let localSuffix := ((helperSuffix artefact parentCached).filter (· ≠ "")).getD
      (fallbackLocalSymbolSuffix artefact)
    match parentMaterialized with
    | some parent => parent.symbolFqn ++ "::" ++ localSuffix
    | none => path ++ "::" ++ localSuffix

/-! ## Artefacts -/

variable {κ : Type} (ident : Identity κ) (target : MaterializationTarget)

/-- The symbol identifier of a cached artefact under its rebuilt name. -/
def symbolIdOf (language : String) (artefact : CachedArtefact) (symbolFqn : String)
    (parent : Option MaterializedArtefact) : Outcome String :=
  if isFileCachedArtefact artefact then pure (fileSymbolId ident target.path)
  else
    match ident.parseKind language artefact.languageKind with
    | none =>
      throw ("unsupported cached language_kind `" ++ artefact.languageKind ++ "` for `" ++
        language ++ "`")
    | some languageKind =>
      pure <| structuralSymbolIdForArtefact ident
        { canonicalKind := artefact.canonicalKind
          languageKind
          name := artefact.name
          startLine := artefact.startLine
          endLine := artefact.endLine
          startByte := artefact.startByte
          endByte := artefact.endByte
          signature := artefact.signature
          modifiers := artefact.modifiers
          docstring := artefact.docstring }
        symbolFqn ((parent.filter fun parent => !isFileArtefact parent).map (·.symbolId))

def materializedArtefact (artefact : CachedArtefact) (symbolFqn symbolId : String)
    (parent : Option MaterializedArtefact) : MaterializedArtefact :=
  { artifactKey := artefact.artifactKey
    symbolId
    artefactId := revisionArtefactId ident target.repoId target.effectiveContentId symbolId
    canonicalKind := artefact.canonicalKind
    languageKind := artefact.languageKind
    symbolFqn
    parentSymbolId := parent.map (·.symbolId)
    parentArtefactId := parent.map (·.artefactId)
    startLine := artefact.startLine
    endLine := artefact.endLine
    startByte := artefact.startByte
    endByte := artefact.endByte
    signature := nonEmptyText artefact.signature
    modifiers := artefact.modifiers
    docstring := artefact.docstring }

/-- `by_key.get`. -/
def byKey (extraction : CachedExtraction) (artifactKey : String) : Option CachedArtefact :=
  lastRow CachedArtefact.artifactKey artifactKey extraction.artefacts

/-- The recursion follows the parents; `resolved` holds the artefacts that are done.  The
source has no bound on its depth and does not return on a cycle of parents. -/
def resolveArtefact (extraction : CachedExtraction) :
    ℕ → String → List MaterializedArtefact →
      Outcome (MaterializedArtefact × List MaterializedArtefact)
  | 0, _, _ => ExceptT.mk none
  | depth + 1, artifactKey, resolved =>
    match findRow MaterializedArtefact.artifactKey artifactKey resolved with
    | some existing => pure (existing, resolved)
    | none =>
      match byKey extraction artifactKey with
      | none => throw ("missing cached artefact for key `" ++ artifactKey ++ "`")
      | some artefact => do
        let (parent, resolved) ← (match artefact.parentArtifactKey with
          | none => pure (none, resolved)
          | some parentKey => do
            let (parent, resolved) ← resolveArtefact extraction depth parentKey resolved
            pure (some parent, resolved) :
          Outcome (Option MaterializedArtefact × List MaterializedArtefact))
        let parentCached := artefact.parentArtifactKey.bind (byKey extraction)
        let symbolFqn := reconstructSymbolFqn artefact parentCached parent target.path
        let symbolId ← symbolIdOf ident target extraction.key.language artefact symbolFqn parent
        let materialized := materializedArtefact ident target artefact symbolFqn symbolId parent
        pure (materialized, resolved ++ [materialized])

def deriveMaterializedArtefacts (depth : ℕ) (extraction : CachedExtraction) :
    Outcome (List MaterializedArtefact) := do
  let resolved ← extraction.artefacts.foldlM
    (fun resolved artefact => do
      let (_, resolved) ←
        resolveArtefact ident target extraction depth artefact.artifactKey resolved
      pure resolved)
    []
  pure (orderBy (fun row => toLex (row.symbolFqn, toLex (row.artefactId, row.artifactKey)))
    resolved)

/-! ## Edges -/

/-- The row of a cached edge; none without a start, or without an end and a reference. -/
def materializedEdge (language : String) (artefactsByKey : List MaterializedArtefact)
    (edge : CachedEdge) : Option MaterializedEdge := do
  let source ← lastRow MaterializedArtefact.artifactKey edge.fromArtifactKey artefactsByKey
  let goal := edge.toArtifactKey.bind fun artifactKey =>
    lastRow MaterializedArtefact.artifactKey artifactKey artefactsByKey
  let toSymbolId := goal.map (·.symbolId)
  if toSymbolId.isNone && edge.toSymbolRef.isNone then none
  else
    some
      { edgeId := ident.deterministicUuid <|
          target.repoId ++ "|" ++ target.path ++ "|" ++ source.symbolId ++ "|" ++
          edge.edgeKind ++ "|" ++ toSymbolId.getD "" ++ "|" ++ edge.toSymbolRef.getD "" ++
          "|" ++ toString (edge.startLine.getD (-1)) ++ "|" ++
          toString (edge.endLine.getD (-1)) ++ "|" ++ edge.metadata
        fromSymbolId := source.symbolId
        fromArtefactId := source.artefactId
        toSymbolId
        toArtefactId := goal.map (·.artefactId)
        toSymbolRef := edge.toSymbolRef
        edgeKind := edge.edgeKind
        language
        startLine := edge.startLine
        endLine := edge.endLine
        metadata := edge.metadata }

/-- The last edge with each identifier, in the order of the identifiers. -/
def dedupeMaterializedEdgesByEdgeId (edges : List MaterializedEdge) : List MaterializedEdge :=
  orderBy (·.edgeId) (dedupeLastWins (·.edgeId) edges)

def deriveMaterializedEdges (extraction : CachedExtraction)
    (artefactsByKey : List MaterializedArtefact) : List MaterializedEdge :=
  dedupeMaterializedEdgesByEdgeId <|
    extraction.edges.filterMap (materializedEdge ident target extraction.key.language artefactsByKey)

/-! ## Rows -/

def validateMaterializationInputs (extraction : CachedExtraction)
    (parserVersion extractorVersion : String) : Outcome Unit :=
  if target.effectiveContentId ≠ extraction.key.contentId then
    throw ("content mismatch for `" ++ target.path ++ "`: desired effective_content_id `" ++
      target.effectiveContentId ++ "` != cached content_id `" ++ extraction.key.contentId ++ "`")
  else if target.language ≠ extraction.key.language then
    throw ("language mismatch for `" ++ target.path ++ "`: desired `" ++ target.language ++
      "` != cached `" ++ extraction.key.language ++ "`")
  else if target.extractionFingerprint ≠ extraction.key.extractionFingerprint then
    throw ("extraction fingerprint mismatch for `" ++ target.path ++ "`: desired `" ++
      target.extractionFingerprint ++ "` != cached `" ++
      extraction.key.extractionFingerprint ++ "`")
  else if extraction.key.parserVersion ≠ parserVersion then
    throw ("parser version mismatch for `" ++ target.path ++ "`: expected `" ++ parserVersion ++
      "` != cached `" ++ extraction.key.parserVersion ++ "`")
  else if extraction.key.extractorVersion ≠ extractorVersion then
    throw ("extractor version mismatch for `" ++ target.path ++ "`: expected `" ++
      extractorVersion ++ "` != cached `" ++ extraction.key.extractorVersion ++ "`")
  else pure ()

def prepareMaterializationRows (depth : ℕ) (extraction : CachedExtraction)
    (parserVersion extractorVersion : String) : Outcome PreparedMaterialisationRows := do
  validateMaterializationInputs target extraction parserVersion extractorVersion
  let artefacts ← deriveMaterializedArtefacts ident target depth extraction
  pure
    { materializedArtefacts := dedupeLastWins (·.artefactId) artefacts
      materializedEdges := dedupeMaterializedEdgesByEdgeId
        (deriveMaterializedEdges ident target extraction artefacts) }

end ContentCache
end Bitloops
