import Bitloops.Foundation.LastWins
import Bitloops.Sync.FileState

/-!
# The content cache

The extraction of a content is cached under a key that has no path: the content id, the
language, the fingerprint of the extraction, and the versions of the parser and of the
extractor.  An entry is a header row, and the artefact and edge rows under its key.
-/

namespace Bitloops
namespace ContentCache

/-! ## Extractions -/

structure CacheKey where
  contentId : String
  language : String
  extractionFingerprint : String
  parserVersion : String
  extractorVersion : String
  deriving DecidableEq, Repr

/-- A cached artefact; its metadata is a JSON object of texts. -/
structure CachedArtefact where
  artifactKey : String
  canonicalKind : Option String
  languageKind : String
  name : String
  parentArtifactKey : Option String
  startLine : ℤ
  endLine : ℤ
  startByte : ℤ
  endByte : ℤ
  signature : String
  modifiers : List String
  docstring : Option String
  metadata : List (String × String)
  deriving DecidableEq, Repr

/-- A cached edge; its metadata is the text of a JSON value. -/
structure CachedEdge where
  edgeKey : String
  fromArtifactKey : String
  toArtifactKey : Option String
  toSymbolRef : Option String
  edgeKind : String
  startLine : Option ℤ
  endLine : Option ℤ
  metadata : String
  deriving DecidableEq, Repr

structure CachedExtraction where
  key : CacheKey
  parseStatus : String
  artefacts : List CachedArtefact
  edges : List CachedEdge
  deriving DecidableEq, Repr

/-! ## Tables -/

inductive RetentionClass where
  | gitBacked
  | worktreeOnly
  deriving DecidableEq, Repr

/-- A row of `content_cache`; the times are seconds. -/
structure ContentCacheRow where
  key : CacheKey
  retentionClass : RetentionClass
  parseStatus : String
  parsedAt : ℕ
  lastAccessedAt : ℕ
  deriving DecidableEq, Repr

/-- A row of `content_cache_artefacts`. -/
structure CachedArtefactRow where
  key : CacheKey
  artefact : CachedArtefact
  deriving DecidableEq, Repr

/-- A row of `content_cache_edges`. -/
structure CachedEdgeRow where
  key : CacheKey
  edge : CachedEdge
  deriving DecidableEq, Repr

def CachedArtefactRow.primaryKey (row : CachedArtefactRow) : CacheKey × String :=
  (row.key, row.artefact.artifactKey)

def CachedEdgeRow.primaryKey (row : CachedEdgeRow) : CacheKey × String :=
  (row.key, row.edge.edgeKey)

structure CacheStore where
  headers : UniqueTable ContentCacheRow ContentCacheRow.key
  artefacts : UniqueTable CachedArtefactRow CachedArtefactRow.primaryKey
  edges : UniqueTable CachedEdgeRow CachedEdgeRow.primaryKey

/-! ## Storing and reading -/

/-- `deduped_cached_content_parts`. -/
def dedupedCachedContentParts (extraction : CachedExtraction) :
    List CachedArtefact × List CachedEdge :=
  (dedupeLastWins (·.artifactKey) extraction.artefacts, dedupeLastWins (·.edgeKey) extraction.edges)

/-- `persist_cached_content_tx`: put the header and replace the rows under the key; `none` if an
insert violates a primary key. -/
def persistCachedContentTx (now : ℕ) (extraction : CachedExtraction)
    (retentionClass : RetentionClass) (s : CacheStore) : Option CacheStore := do
  let (artefacts, edges) := dedupedCachedContentParts extraction
  let artefactRows ← (s.artefacts.delete (·.key = extraction.key)).insertAll?
    (artefacts.map (CachedArtefactRow.mk extraction.key))
  let edgeRows ← (s.edges.delete (·.key = extraction.key)).insertAll?
    (edges.map (CachedEdgeRow.mk extraction.key))
  return {
    headers := s.headers.upsert
      { key := extraction.key, retentionClass, parseStatus := extraction.parseStatus,
        parsedAt := now, lastAccessedAt := now }
    artefacts := artefactRows
    edges := edgeRows }

/-- `touch_cache_entries_tx`; a touch may promote the entry to a git-backed one. -/
def touchCacheEntriesTx (now : ℕ) (touches : List (CacheKey × Bool)) (s : CacheStore) :
    CacheStore :=
  touches.foldl
    (fun s (touch : CacheKey × Bool) =>
      { s with
        headers := s.headers.modify (·.key = touch.1)
          (fun row =>
            { row with
              retentionClass := if touch.2 then .gitBacked else row.retentionClass
              lastAccessedAt := now })
          fun _ => rfl })
    s

/-- `lookup_cached_content`: the rows under the key, in the order of their own keys. -/
def lookupCachedContent (key : CacheKey) (s : CacheStore) : Option CachedExtraction :=
  (findRow ContentCacheRow.key key s.headers.rows).map fun header =>
    { key
      parseStatus := header.parseStatus
      artefacts := orderBy (·.artifactKey)
        ((s.artefacts.rows.filter (·.key = key)).map (·.artefact))
      edges := orderBy (·.edgeKey) ((s.edges.rows.filter (·.key = key)).map (·.edge)) }

end ContentCache
end Bitloops
