import Bitloops.ContentCache.Cache
import Bitloops.Foundation.OrderBy
import Bitloops.Sync.Orchestrator

/-!
# From an extraction to a cache entry

A language pack extracts the artefacts and the edges of a file under fully qualified names.
The cache entry replaces the names by keys: an artefact's key is hashed from what the artefact
is, not from where its file is.
-/

namespace Bitloops
namespace ContentCache

/-! ## Extracted artefacts and edges -/

/-- What an extracted artefact says apart from its names; `κ` is the type of language kinds. -/
structure ArtefactBody (κ : Type) where
  canonicalKind : Option String
  languageKind : κ
  name : String
  startLine : ℤ
  endLine : ℤ
  startByte : ℤ
  endByte : ℤ
  signature : String
  modifiers : List String
  docstring : Option String
  deriving DecidableEq, Repr

structure LanguageArtefact (κ : Type) extends ArtefactBody κ where
  symbolFqn : String
  parentSymbolFqn : Option String
  deriving DecidableEq, Repr

inductive EdgeKind where
  | imports
  | calls
  | references
  | extends
  | implements
  | exports
  deriving DecidableEq, Repr

def EdgeKind.asStr : EdgeKind → String
  | .imports => "imports"
  | .calls => "calls"
  | .references => "references"
  | .extends => "extends"
  | .implements => "implements"
  | .exports => "exports"

/-- What an extracted edge says apart from its endpoints; the metadata is the text of a JSON
value. -/
structure EdgeBody where
  edgeKind : EdgeKind
  startLine : Option ℤ
  endLine : Option ℤ
  metadata : String
  deriving DecidableEq, Repr

structure DependencyEdge extends EdgeBody where
  fromSymbolFqn : String
  toTargetSymbolFqn : Option String
  toSymbolRef : Option String
  deriving DecidableEq, Repr

/-! ## Identities -/

/-- What the identities are built from and the model leaves open: the hash, the regular
expression that takes a modifier out of a signature, and the kinds of the languages. -/
structure Identity (κ : Type) where
  deterministicUuid : String → String
  removeModifier : String → String → String
  kindText : κ → String
  /-- `parse_cached_language_kind`, from a language and the text of a kind. -/
  parseKind : String → String → Option κ

/-- `len as i32`. -/
def asI32 (n : ℕ) : ℤ := (n : ℤ).bmod (2 ^ 32)

/-- `line_count_from_bytes`. -/
def lineCount (content : String) : ℤ :=
  if content = "" then 1
  else
    let newlines := asI32 (content.toList.count '\n')
    max (if content.toList.getLast? = some '\n' then newlines else newlines + 1) 1

/-- The name ends in `@` and digits. -/
def hasPositionalIdentityName (name : String) : Bool :=
  let suffix := name.toList.reverse.takeWhile (· ≠ '@')
  '@' ∈ name.toList && !suffix.isEmpty && suffix.all Char.isDigit

def normalizeIdentityFragment (input : String) : String :=
  let normalized := String.ofList (input.toList.filter fun c => !Daemon.isWhitespace c)
  if normalized = "" then Sync.trim input else normalized

variable {κ : Type}

section Identity

variable (ident : Identity κ)

/-- The signature without its modifiers, the longest first. -/
def identitySignatureForArtefact (item : ArtefactBody κ) : String :=
  let modifiers := item.modifiers.filter fun modifier => modifier ∉ ["get", "set"]
  (orderBy (fun modifier => OrderDual.toDual modifier.utf8ByteSize) modifiers).foldl
    (fun signature modifier => ident.removeModifier modifier signature) item.signature

def semanticNameForArtefact (item : ArtefactBody κ) : String :=
  if hasPositionalIdentityName item.name then
    normalizeIdentityFragment (identitySignatureForArtefact ident item)
  else normalizeIdentityFragment item.name

/-- `source_path_from_symbol_fqn`: the text before the first `::`. -/
def beforeColons : List Char → List Char
  | ':' :: ':' :: _ => []
  | c :: chars => c :: beforeColons chars
  | [] => []

def sourcePathFromSymbolFqn (symbolFqn : String) : String :=
  String.ofList (beforeColons symbolFqn.toList)

/-- The text after the first `::`, as in `split_once`. -/
def afterColons? : List Char → Option (List Char)
  | ':' :: ':' :: rest => some rest
  | _ :: chars => afterColons? chars
  | [] => none

def structuralSymbolIdForArtefact (item : ArtefactBody κ) (symbolFqn : String)
    (parentSymbolId : Option String) : String :=
  ident.deterministicUuid <|
    sourcePathFromSymbolFqn symbolFqn ++ "|" ++ item.canonicalKind.getD "<null>" ++ "|" ++
    ident.kindText item.languageKind ++ "|" ++ parentSymbolId.getD "" ++ "|" ++
    semanticNameForArtefact ident item ++ "|" ++
    normalizeIdentityFragment (identitySignatureForArtefact ident item)

def fileSymbolId (path : String) : String := ident.deterministicUuid (path ++ "|file")

def revisionArtefactId (repoId blobSha symbolId : String) : String :=
  ident.deterministicUuid (repoId ++ "|" ++ blobSha ++ "|" ++ symbolId)

def fileArtifactKey (content : String) : String :=
  ident.deterministicUuid <|
    "cache-file|" ++ toString (lineCount content) ++ "|" ++ toString content.utf8ByteSize

def localArtifactFingerprint (item : ArtefactBody κ) : String :=
  item.canonicalKind.getD "<null>" ++ "|" ++ ident.kindText item.languageKind ++ "|" ++
  semanticNameForArtefact ident item ++ "|" ++ toString item.startLine ++ "|" ++
  toString item.endLine ++ "|" ++ toString item.startByte ++ "|" ++ toString item.endByte ++
  "|" ++ normalizeIdentityFragment (identitySignatureForArtefact ident item) ++ "|" ++
  JsonStrings.encode item.modifiers ++ "|" ++ item.docstring.getD ""

/-! ## Keys of artefacts -/

/-- The ordinal of a fingerprint counts the artefacts before it that have the same one; `seen`
holds the fingerprints met so far. -/
def assignOrdinals {ν : Type} : List String → List (String × ν) → List (ν × String)
  | _, [] => []
  | seen, (fingerprint, name) :: ranked =>
    (name, ident.deterministicUuid <|
      "cache-artefact|" ++ fingerprint ++ "|" ++ toString (seen.count fingerprint)) ::
    assignOrdinals (fingerprint :: seen) ranked

def assignArtifactKeys (items : List (LanguageArtefact κ)) : List (String × String) :=
  let ranked := orderBy toLex <|
    items.map fun item => (localArtifactFingerprint ident item.toArtefactBody, item.symbolFqn)
  assignOrdinals ident [] ranked

/-- The lookup in `symbol_to_artifact_key`, a map to which the pairs were added in their order. -/
def keyOf {ν : Type} [DecidableEq ν] (keys : List (ν × String)) (name : ν) : Option String :=
  (lastRow Prod.fst name keys).map Prod.snd

/-! ## The cache entry -/

structure ExtractionInput where
  path : String
  contentId : String
  extractionFingerprint : String
  parserVersion : String
  extractorVersion : String
  language : String
  content : String
  fileDocstring : Option String
  deriving DecidableEq, Repr

def ExtractionInput.cacheKey (input : ExtractionInput) : CacheKey :=
  { contentId := input.contentId
    language := input.language
    extractionFingerprint := input.extractionFingerprint
    parserVersion := input.parserVersion
    extractorVersion := input.extractorVersion }

def cachedFileArtefact (input : ExtractionInput) : CachedArtefact :=
  { artifactKey := fileArtifactKey ident input.content
    canonicalKind := some "file"
    languageKind := "file"
    name := input.path
    parentArtifactKey := none
    startLine := 1
    endLine := lineCount input.content
    startByte := 0
    endByte := asI32 input.content.utf8ByteSize
    signature := ""
    modifiers := []
    docstring := input.fileDocstring
    metadata := [("symbol_fqn", input.path)] }

/-- An artefact without a known parent is a child of the file. -/
def cachedArtefact (fileKey : String) (keys : List (String × String))
    (item : LanguageArtefact κ) : CachedArtefact :=
  { artifactKey := (keyOf keys item.symbolFqn).getD ""
    canonicalKind := item.canonicalKind
    languageKind := ident.kindText item.languageKind
    name := item.name
    parentArtifactKey := (item.parentSymbolFqn.bind (keyOf keys)).or (some fileKey)
    startLine := item.startLine
    endLine := item.endLine
    startByte := item.startByte
    endByte := item.endByte
    signature := item.signature
    modifiers := item.modifiers
    docstring := item.docstring
    metadata := [("symbol_fqn", item.symbolFqn)] }

/-- The edge of an entry, from the keys of its endpoints and its reference. -/
def cachedEdge (edge : EdgeBody) (fromKey : String) (toKey toSymbolRef : Option String) :
    CachedEdge :=
  { edgeKey := ident.deterministicUuid <|
      fromKey ++ "|" ++ edge.edgeKind.asStr ++ "|" ++ toKey.getD "" ++ "|" ++
      toSymbolRef.getD "" ++ "|" ++ toString (edge.startLine.getD (-1)) ++ "|" ++
      toString (edge.endLine.getD (-1)) ++ "|" ++ edge.metadata
    fromArtifactKey := fromKey
    toArtifactKey := toKey
    toSymbolRef
    edgeKind := edge.edgeKind.asStr
    startLine := edge.startLine
    endLine := edge.endLine
    metadata := edge.metadata }

/-- An edge from an unknown symbol is dropped; one to an unknown symbol keeps a reference, the
edge's own or else the name of its target. -/
def cachedEdgeFromExtraction (keys : List (String × String)) (edge : DependencyEdge) :
    Option CachedEdge := do
  let fromKey ← keyOf keys edge.fromSymbolFqn
  let toKey := edge.toTargetSymbolFqn.bind (keyOf keys)
  let toSymbolRef := if toKey.isSome then none else edge.toSymbolRef.or edge.toTargetSymbolFqn
  if toKey.isNone && toSymbolRef.isNone then none
  else some (cachedEdge ident edge.toEdgeBody fromKey toKey toSymbolRef)

def mapExtractionToCacheFormat (input : ExtractionInput) (items : List (LanguageArtefact κ))
    (edges : List DependencyEdge) : CachedExtraction :=
  let fileKey := fileArtifactKey ident input.content
  let keys := (input.path, fileKey) :: assignArtifactKeys ident items
  { key := input.cacheKey
    parseStatus := "ok"
    artefacts := orderBy (·.artifactKey)
      (cachedFileArtefact ident input :: items.map (cachedArtefact ident fileKey keys))
    edges := orderBy (·.edgeKey) (edges.filterMap (cachedEdgeFromExtraction ident keys)) }

end Identity

theorem map_fst_assignOrdinals {ν : Type} (ident : Identity κ) (seen : List String)
    (ranked : List (String × ν)) :
    (assignOrdinals ident seen ranked).map Prod.fst = ranked.map Prod.snd := by
  induction ranked generalizing seen with
  | nil => rfl
  | cons entry ranked ih =>
    obtain ⟨fingerprint, name⟩ := entry
    simp only [List.map_cons, assignOrdinals]
    rw [ih]

theorem keyOf_eq_none {ν : Type} [DecidableEq ν] {keys : List (ν × String)} {name : ν} :
    keyOf keys name = none ↔ name ∉ keys.map Prod.fst := by
  rw [keyOf, Option.map_eq_none_iff, lastRow_eq_none]

end ContentCache
end Bitloops
