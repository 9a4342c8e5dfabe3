import Mathlib.Data.Set.Finite.Basic
import Bitloops.ContentCache.Materializer

/-!
# Reusing a cache entry under another path

An extractor is path equivariant if what it finds in a content depends on the path only through
the names: a name is the path, or the path, `::` and a suffix that the path does not enter.
What such an extractor finds is a template, and its names are filled in with a path.
-/

namespace Bitloops
namespace ContentCache

/-! ## Templates -/

/-- The name of a symbol, relative to its file. -/
inductive SymbolName where
  | file
  | member (suffix : String)
  deriving DecidableEq, Repr

def SymbolName.fqn (path : String) : SymbolName → String
  | .file => path
  | .member suffix => path ++ "::" ++ suffix

/-- The reference of an edge: a text, or the name of a symbol of the file. -/
inductive SymbolRef where
  | text (value : String)
  | name (symbol : SymbolName)
  deriving DecidableEq, Repr

def SymbolRef.under (path : String) : SymbolRef → String
  | .text value => value
  | .name symbol => symbol.fqn path

structure ItemTemplate (κ : Type) extends ArtefactBody κ where
  suffix : String
  parent : Option SymbolName
  deriving DecidableEq, Repr

structure EdgeTemplate extends EdgeBody where
  source : SymbolName
  goal : Option SymbolName
  reference : Option SymbolRef
  deriving DecidableEq, Repr

variable {κ : Type}

def ItemTemplate.under (path : String) (item : ItemTemplate κ) : LanguageArtefact κ :=
  { item.toArtefactBody with
    symbolFqn := (SymbolName.member item.suffix).fqn path
    parentSymbolFqn := item.parent.map (SymbolName.fqn path) }

def EdgeTemplate.under (path : String) (edge : EdgeTemplate) : DependencyEdge :=
  { edge.toEdgeBody with
    fromSymbolFqn := edge.source.fqn path
    toTargetSymbolFqn := edge.goal.map (SymbolName.fqn path)
    toSymbolRef := edge.reference.map (SymbolRef.under path) }

/-- What a path-equivariant extractor finds in a content. -/
structure ExtractionTemplate (κ : Type) where
  contentId : String
  extractionFingerprint : String
  parserVersion : String
  extractorVersion : String
  language : String
  content : String
  fileDocstring : Option String
  items : List (ItemTemplate κ)
  edges : List EdgeTemplate
  deriving DecidableEq, Repr

namespace ExtractionTemplate

variable (ident : Identity κ) (t : ExtractionTemplate κ)

def input (path : String) : ExtractionInput :=
  { path
    contentId := t.contentId
    extractionFingerprint := t.extractionFingerprint
    parserVersion := t.parserVersion
    extractorVersion := t.extractorVersion
    language := t.language
    content := t.content
    fileDocstring := t.fileDocstring }

/-- The cache entry that an extraction under the path produces. -/
def cacheEntry (path : String) : CachedExtraction :=
  mapExtractionToCacheFormat ident (t.input path) (t.items.map (ItemTemplate.under path))
    (t.edges.map (EdgeTemplate.under path))

def materializationTarget (repoId path : String) : MaterializationTarget :=
  { repoId
    path
    effectiveContentId := t.contentId
    language := t.language
    extractionFingerprint := t.extractionFingerprint }

/-- The rows of `path`, from the entry that was extracted under `entryPath`. -/
def rowsFrom (repoId : String) (depth : ℕ) (entryPath path : String) :
    Outcome PreparedMaterialisationRows :=
  prepareMaterializationRows ident (t.materializationTarget repoId path) depth
    (t.cacheEntry ident entryPath) t.parserVersion t.extractorVersion

/-- Materialising from the entry of any other path gives what a direct extraction gives. -/
def PathIndependent : Prop :=
  ∀ repoId depth pathA pathB,
    t.rowsFrom ident repoId depth pathA pathB = t.rowsFrom ident repoId depth pathB pathB

/-- The file has rows at all: no cycle of parents, no kind that is not supported. -/
def HasRows : Prop :=
  ∃ repoId depth entryPath path rows, t.rowsFrom ident repoId depth entryPath path = pure rows

/-- The names that have a key. -/
def known : List SymbolName := .file :: t.items.map fun item => .member item.suffix

end ExtractionTemplate

/-- The reference that is kept for the edge if its end is not known names the file's path. -/
def EdgeTemplate.referenceNamesPath (edge : EdgeTemplate) : Bool :=
  match edge.reference, edge.goal with
  | some (.name _), _ => true
  | some (.text _), _ => false
  | none, goal => goal.isSome

/-- The edge enters the cache with a reference that names the file's path. -/
def EdgeTemplate.leaksPath (known : List SymbolName) (edge : EdgeTemplate) : Bool :=
  edge.source ∈ known && edge.goal.all (· ∉ known) && edge.referenceNamesPath

/-- No edge enters the cache with a reference that names the path. -/
def ExtractionTemplate.PathFree (t : ExtractionTemplate κ) : Prop :=
  ∀ edge ∈ t.edges, edge.leaksPath t.known = false

/-! ## Names under a path -/

theorem fqn_injective (path : String) : Function.Injective (SymbolName.fqn path) := by
  intro m n h
  have hlist := congrArg String.toList h
  cases m with
  | file =>
    cases n with
    | file => rfl
    | member suffix =>
      have hlength := congrArg List.length hlist
      simp [SymbolName.fqn] at hlength
  | member suffix =>
    cases n with
    | file =>
      have hlength := congrArg List.length hlist
      simp [SymbolName.fqn] at hlength
    | member suffix' =>
      have hsuffix : suffix.toList = suffix'.toList := by
        simpa [SymbolName.fqn] using hlist
      rw [String.toList_injective hsuffix]

/-- A common prefix of two names does not matter for their order. -/
theorem fqn_le_fqn (path suffix suffix' : String) :
    (SymbolName.member suffix).fqn path ≤ (SymbolName.member suffix').fqn path ↔
      suffix ≤ suffix' := by
  have hleading : ∀ front a b : List Char, front ++ a < front ++ b ↔ a < b := by
    intro front a b
    induction front with
    | nil => exact Iff.rfl
    | cons c front ih =>
      rw [List.cons_append, List.cons_append, List.cons_lt_cons_iff]
      simp [ih]
  rw [← not_lt, ← not_lt, String.lt_iff_toList_lt, String.lt_iff_toList_lt, not_iff_not]
  simp only [SymbolName.fqn, String.toList_append]
  exact hleading _ _ _

/-! ## Keys do not depend on the path -/

theorem assignOrdinals_map {ν ν' : Type} (ident : Identity κ) (f : ν → ν') (seen : List String)
    (ranked : List (String × ν)) :
    assignOrdinals ident seen (ranked.map (Prod.map id f)) =
      (assignOrdinals ident seen ranked).map (Prod.map f id) := by
  induction ranked generalizing seen with
  | nil => rfl
  | cons entry ranked ih =>
    obtain ⟨fingerprint, name⟩ := entry
    simp only [List.map_cons, Prod.map_apply, id_eq, assignOrdinals]
    rw [ih]

theorem keyOf_map {ν ν' : Type} [DecidableEq ν] [DecidableEq ν'] {f : ν → ν'}
    (hf : Function.Injective f) (keys : List (ν × String)) (name : ν) :
    keyOf (keys.map (Prod.map f id)) (f name) = keyOf keys name := by
  have hlast : lastRow Prod.fst (f name) (keys.map (Prod.map f id)) =
      (lastRow Prod.fst name keys).map (Prod.map f id) :=
    lastRow_map fun _ => hf.eq_iff
  rw [keyOf, keyOf, hlast, Option.map_map]
  rfl

namespace ExtractionTemplate

variable (ident : Identity κ) (t : ExtractionTemplate κ)

def fileKey : String := fileArtifactKey ident t.content

/-- The keys of the names, as they are assigned under every path. -/
def nameKeys : List (SymbolName × String) :=
  (.file, t.fileKey ident) :: assignOrdinals ident []
    ((orderBy toLex (t.items.map fun item =>
      (localArtifactFingerprint ident item.toArtefactBody, item.suffix))).map
        (Prod.map id SymbolName.member))

/-- `symbol_to_artifact_key` under a path. -/
theorem keys_under (path : String) :
    (path, t.fileKey ident) :: assignArtifactKeys ident (t.items.map (ItemTemplate.under path)) =
      (t.nameKeys ident).map (Prod.map (SymbolName.fqn path) id) := by
  have hranked : (t.items.map (ItemTemplate.under path)).map
        (fun item => (localArtifactFingerprint ident item.toArtefactBody, item.symbolFqn)) =
      (t.items.map fun item =>
        (localArtifactFingerprint ident item.toArtefactBody, item.suffix)).map
          (Prod.map id fun suffix => (SymbolName.member suffix).fqn path) := by
    rw [List.map_map, List.map_map]
    rfl
  have horder : ∀ a b : String × String,
      toLex (Prod.map id (fun suffix => (SymbolName.member suffix).fqn path) a) ≤
        toLex (Prod.map id (fun suffix => (SymbolName.member suffix).fqn path) b) ↔
      toLex a ≤ toLex b := by
    intro a b
    simp only [Prod.Lex.toLex_le_toLex, Prod.map_fst, Prod.map_snd, id_eq, fqn_le_fqn]
  have hassign : assignArtifactKeys ident (t.items.map (ItemTemplate.under path)) =
      (assignOrdinals ident [] ((orderBy toLex (t.items.map fun item =>
        (localArtifactFingerprint ident item.toArtefactBody, item.suffix))).map
          (Prod.map id SymbolName.member))).map (Prod.map (SymbolName.fqn path) id) := by
    rw [assignArtifactKeys, hranked, orderBy_map horder, ← assignOrdinals_map, List.map_map]
    rfl
  rw [hassign]
  rfl

/-- Every known name has a key, and no other name. -/
theorem map_fst_nameKeys (name : SymbolName) :
    name ∈ (t.nameKeys ident).map Prod.fst ↔ name ∈ t.known := by
  rw [nameKeys, known, List.map_cons, map_fst_assignOrdinals, List.mem_cons, List.mem_cons]
  refine or_congr_right ?_
  rw [List.map_map]
  simp only [List.mem_map, mem_orderBy, Function.comp_apply, Prod.map_snd]
  constructor
  · rintro ⟨_, ⟨item, hitem, rfl⟩, hname⟩
    exact ⟨item, hitem, hname⟩
  · rintro ⟨item, hitem, hname⟩
    exact ⟨_, ⟨item, hitem, rfl⟩, hname⟩

/-- No item takes the name of the file. -/
theorem keyOf_nameKeys_file : keyOf (t.nameKeys ident) .file = some (t.fileKey ident) := by
  have hrest : lastRow Prod.fst SymbolName.file (assignOrdinals ident []
      ((orderBy toLex (t.items.map fun item =>
        (localArtifactFingerprint ident item.toArtefactBody, item.suffix))).map
          (Prod.map id SymbolName.member))) = none := by
    rw [lastRow_eq_none, map_fst_assignOrdinals]
    simp
  rw [keyOf, nameKeys, lastRow_cons, hrest]
  rfl

/-- The artefacts of an entry: the file, and the items. -/
def cachedUnder (path : String) : Option (ItemTemplate κ) → CachedArtefact
  | none => cachedFileArtefact ident (t.input path)
  | some item =>
    cachedArtefact ident (t.fileKey ident)
      ((path, t.fileKey ident) :: assignArtifactKeys ident
        (t.items.map (ItemTemplate.under path)))
      (item.under path)

def keyUnder : Option (ItemTemplate κ) → String
  | none => t.fileKey ident
  | some item => (keyOf (t.nameKeys ident) (.member item.suffix)).getD ""

def parentKeyUnder (item : ItemTemplate κ) : String :=
  (item.parent.bind (keyOf (t.nameKeys ident))).getD (t.fileKey ident)

theorem cachedUnder_some (path : String) (item : ItemTemplate κ) :
    t.cachedUnder ident path (some item) =
      { artifactKey := t.keyUnder ident (some item)
        canonicalKind := item.canonicalKind
        languageKind := ident.kindText item.languageKind
        name := item.name
        parentArtifactKey := some (t.parentKeyUnder ident item)
        startLine := item.startLine
        endLine := item.endLine
        startByte := item.startByte
        endByte := item.endByte
        signature := item.signature
        modifiers := item.modifiers
        docstring := item.docstring
        metadata := [("symbol_fqn", (SymbolName.member item.suffix).fqn path)] } := by
  have hparent : (item.parent.map (SymbolName.fqn path)).bind
      (keyOf ((t.nameKeys ident).map (Prod.map (SymbolName.fqn path) id))) =
        item.parent.bind (keyOf (t.nameKeys ident)) := by
    rw [Option.bind_map]
    congr 1
    exact funext fun name => keyOf_map (fqn_injective path) _ name
  rw [cachedUnder, keys_under, cachedArtefact]
  simp only [ItemTemplate.under, keyOf_map (fqn_injective path), hparent, keyUnder,
    parentKeyUnder, CachedArtefact.mk.injEq, true_and, and_true]
  cases item.parent.bind (keyOf (t.nameKeys ident)) <;> rfl

theorem artifactKey_cachedUnder (path : String) (part : Option (ItemTemplate κ)) :
    (t.cachedUnder ident path part).artifactKey = t.keyUnder ident part := by
  cases part with
  | none => rfl
  | some item => rw [cachedUnder_some]

/-- The parts of an entry in the order of their keys. -/
def parts : List (Option (ItemTemplate κ)) :=
  orderBy (t.keyUnder ident) (none :: t.items.map some)

theorem artefacts_cacheEntry (path : String) :
    (t.cacheEntry ident path).artefacts = (t.parts ident).map (t.cachedUnder ident path) := by
  have hparts : cachedFileArtefact ident (t.input path) ::
        (t.items.map (ItemTemplate.under path)).map
          (cachedArtefact ident (t.fileKey ident) ((path, t.fileKey ident) ::
            assignArtifactKeys ident (t.items.map (ItemTemplate.under path)))) =
      (none :: t.items.map some).map (t.cachedUnder ident path) := by
    rw [List.map_cons, List.map_map, List.map_map]
    rfl
  have hsort : ∀ a b, (t.cachedUnder ident path a).artifactKey ≤
      (t.cachedUnder ident path b).artifactKey ↔ t.keyUnder ident a ≤ t.keyUnder ident b := by
    intro a b
    rw [artifactKey_cachedUnder, artifactKey_cachedUnder]
  rw [parts, ← orderBy_map hsort, ← hparts]
  rfl

theorem byKey_cacheEntry (path artifactKey : String) :
    byKey (t.cacheEntry ident path) artifactKey =
      (lastRow (t.keyUnder ident) artifactKey (t.parts ident)).map
        (t.cachedUnder ident path) := by
  rw [byKey, artefacts_cacheEntry]
  exact lastRow_map fun part => by rw [artifactKey_cachedUnder]

/-- The parent of an item is in the entry. -/
theorem parentKey_found (item : ItemTemplate κ) :
    ∃ part, lastRow (t.keyUnder ident) (t.parentKeyUnder ident item) (t.parts ident) =
      some part := by
  have hmem : t.parentKeyUnder ident item ∈ (t.parts ident).map (t.keyUnder ident) := by
    simp only [parts, List.mem_map, mem_orderBy, List.mem_cons]
    cases hparent : item.parent.bind (keyOf (t.nameKeys ident)) with
    | none =>
      refine ⟨none, .inl rfl, ?_⟩
      rw [parentKeyUnder, hparent]
      rfl
    | some parentKey =>
      obtain ⟨name, -, hkey⟩ := Option.bind_eq_some_iff.mp hparent
      have hknown : name ∈ t.known := by
        rw [← map_fst_nameKeys ident t]
        by_cases hname : name ∈ (t.nameKeys ident).map Prod.fst
        · exact hname
        · rw [keyOf_eq_none.mpr hname] at hkey
          cases hkey
      rw [parentKeyUnder, hparent]
      rcases List.mem_cons.mp hknown with rfl | hitem
      · rw [keyOf_nameKeys_file] at hkey
        exact ⟨none, .inl rfl, Option.some.inj hkey⟩
      · obtain ⟨other, hother, rfl⟩ := List.mem_map.mp hitem
        refine ⟨some other, .inr ⟨other, hother, rfl⟩, ?_⟩
        rw [keyUnder, hkey]
        rfl
  cases hfound : lastRow (t.keyUnder ident) (t.parentKeyUnder ident item) (t.parts ident) with
  | some part => exact ⟨part, rfl⟩
  | none => exact absurd hmem (lastRow_eq_none.mp hfound)

end ExtractionTemplate

/-! ## The rows of a file from two entries -/

theorem stripPrefix?_append (front start text : String) :
    stripPrefix? (front ++ start) (front ++ text) = stripPrefix? start text := by
  have hdrop : (front.toList ++ text.toList).drop (front.toList.length + start.toList.length) =
      text.toList.drop start.toList.length := by
    rw [List.drop_append, List.drop_eq_nil_of_le (Nat.le_add_right _ _), List.nil_append,
      Nat.add_sub_cancel_left]
  simp only [stripPrefix?, String.toList_append, List.prefix_append_right_inj,
    List.length_append, hdrop]

namespace ExtractionTemplate

variable (ident : Identity κ) (t : ExtractionTemplate κ)

/-- The part of the name that is rebuilt does not depend on the path of the entry. -/
theorem helperSuffix_cachedUnder (path : String) (item : ItemTemplate κ)
    (parent : Option (ItemTemplate κ)) :
    helperSuffix (t.cachedUnder ident path (some item)) (some (t.cachedUnder ident path parent)) =
      match parent with
      | none => stripPrefix? "" item.suffix
      | some parent => stripPrefix? (parent.suffix ++ "::") item.suffix := by
  have hitem : cachedSymbolFqnHelper (t.cachedUnder ident path (some item)) =
      some (path ++ "::" ++ item.suffix) := by
    rw [cachedUnder_some]
    rfl
  cases parent with
  | none =>
    have hparent : cachedSymbolFqnHelper (t.cachedUnder ident path none) = some path := rfl
    simp only [helperSuffix, hitem, hparent, Option.bind_some]
    rw [← stripPrefix?_append (path ++ "::") "" item.suffix, String.append_empty]
  | some parent =>
    have hparent : cachedSymbolFqnHelper (t.cachedUnder ident path (some parent)) =
        some (path ++ "::" ++ parent.suffix) := by
      rw [cachedUnder_some]
      rfl
    simp only [helperSuffix, hitem, hparent, Option.bind_some]
    rw [← stripPrefix?_append (path ++ "::") (parent.suffix ++ "::") item.suffix,
      ← String.append_assoc]

theorem isFileCachedArtefact_file (path : String) :
    isFileCachedArtefact (t.cachedUnder ident path none) = true := rfl

theorem reconstructSymbolFqn_cachedUnder (pathA pathB path : String)
    (part parentPart : Option (ItemTemplate κ)) (parent : Option MaterializedArtefact) :
    reconstructSymbolFqn (t.cachedUnder ident pathA part)
        (some (t.cachedUnder ident pathA parentPart)) parent path =
      reconstructSymbolFqn (t.cachedUnder ident pathB part)
        (some (t.cachedUnder ident pathB parentPart)) parent path := by
  cases part with
  | none =>
    rw [reconstructSymbolFqn, reconstructSymbolFqn, isFileCachedArtefact_file,
      isFileCachedArtefact_file]
    rfl
  | some item =>
    rw [reconstructSymbolFqn, reconstructSymbolFqn, helperSuffix_cachedUnder,
      helperSuffix_cachedUnder, cachedUnder_some, cachedUnder_some]
    rfl

/-- The identifiers and the row of an artefact do not depend on the path of the entry. -/
theorem symbolIdOf_cachedUnder (pathA pathB language symbolFqn : String)
    (target : MaterializationTarget) (part : Option (ItemTemplate κ))
    (parent : Option MaterializedArtefact) :
    symbolIdOf ident target language (t.cachedUnder ident pathA part) symbolFqn parent =
      symbolIdOf ident target language (t.cachedUnder ident pathB part) symbolFqn parent := by
  cases part with
  | none =>
    rw [symbolIdOf, symbolIdOf, isFileCachedArtefact_file, isFileCachedArtefact_file, if_pos rfl,
      if_pos rfl]
  | some item =>
    rw [cachedUnder_some, cachedUnder_some]
    rfl

theorem materializedArtefact_cachedUnder (pathA pathB symbolFqn symbolId : String)
    (target : MaterializationTarget) (part : Option (ItemTemplate κ))
    (parent : Option MaterializedArtefact) :
    materializedArtefact ident target (t.cachedUnder ident pathA part) symbolFqn symbolId parent =
      materializedArtefact ident target (t.cachedUnder ident pathB part) symbolFqn symbolId
        parent := by
  cases part with
  | none => rfl
  | some item =>
    rw [cachedUnder_some, cachedUnder_some]
    rfl

/-- The recursion does the same on the entries of two paths. -/
theorem resolveArtefact_cacheEntry (pathA pathB : String) (target : MaterializationTarget)
    (depth : ℕ) (artifactKey : String) (resolved : List MaterializedArtefact) :
    resolveArtefact ident target (t.cacheEntry ident pathA) depth artifactKey resolved =
      resolveArtefact ident target (t.cacheEntry ident pathB) depth artifactKey resolved := by
  induction depth generalizing artifactKey resolved with
  | zero => rfl
  | succ depth ih =>
    rw [resolveArtefact, resolveArtefact, byKey_cacheEntry, byKey_cacheEntry]
    cases findRow MaterializedArtefact.artifactKey artifactKey resolved with
    | some existing => rfl
    | none =>
      cases hpart : lastRow (t.keyUnder ident) artifactKey (t.parts ident) with
      | none => rfl
      | some part =>
        have hlanguage : (t.cacheEntry ident pathA).key.language =
            (t.cacheEntry ident pathB).key.language := rfl
        cases part with
        | none =>
          have hparentKey : ∀ path, (t.cachedUnder ident path none).parentArtifactKey = none :=
            fun _ => rfl
          have hname : ∀ path,
              reconstructSymbolFqn (t.cachedUnder ident path none) none none target.path =
                target.path := fun path => by
            rw [reconstructSymbolFqn, isFileCachedArtefact_file]
            rfl
          simp only [Option.map_some, hparentKey, Option.bind_none, pure_bind, hname, hlanguage]
          rw [t.symbolIdOf_cachedUnder ident pathA pathB]
          refine bind_congr fun symbolId => ?_
          rw [t.materializedArtefact_cachedUnder ident pathA pathB]
        | some item =>
          obtain ⟨parentPart, hparent⟩ := t.parentKey_found ident item
          have hparentKey : ∀ path, (t.cachedUnder ident path (some item)).parentArtifactKey =
              some (t.parentKeyUnder ident item) := fun path => by rw [cachedUnder_some]
          have hparentCached : ∀ path,
              byKey (t.cacheEntry ident path) (t.parentKeyUnder ident item) =
                some (t.cachedUnder ident path parentPart) := fun path => by
            rw [byKey_cacheEntry, hparent]
            rfl
          simp only [Option.map_some, hparentKey, Option.bind_some, hparentCached, ih, hlanguage]
          refine bind_congr fun ⟨parent, resolved⟩ => ?_
          dsimp only
          rw [t.reconstructSymbolFqn_cachedUnder ident pathA pathB,
            t.symbolIdOf_cachedUnder ident pathA pathB]
          refine bind_congr fun symbolId => ?_
          rw [t.materializedArtefact_cachedUnder ident pathA pathB]

theorem deriveMaterializedArtefacts_cacheEntry (pathA pathB : String)
    (target : MaterializationTarget) (depth : ℕ) :
    deriveMaterializedArtefacts ident target depth (t.cacheEntry ident pathA) =
      deriveMaterializedArtefacts ident target depth (t.cacheEntry ident pathB) := by
  rw [deriveMaterializedArtefacts, deriveMaterializedArtefacts, artefacts_cacheEntry,
    artefacts_cacheEntry, List.foldlM_map, List.foldlM_map]
  simp only [artifactKey_cachedUnder, t.resolveArtefact_cacheEntry ident pathA pathB]

/-- The edge of the entry of a path; only the reference can depend on the path. -/
def edgeUnder (path : String) (edge : EdgeTemplate) : Option CachedEdge :=
  (keyOf (t.nameKeys ident) edge.source).bind fun fromKey =>
    let toKey := edge.goal.bind (keyOf (t.nameKeys ident))
    let toSymbolRef :=
      if toKey.isSome then none
      else (edge.reference.map (SymbolRef.under path)).or (edge.goal.map (SymbolName.fqn path))
    if toKey.isNone && toSymbolRef.isNone then none
    else some (cachedEdge ident edge.toEdgeBody fromKey toKey toSymbolRef)

theorem edges_cacheEntry_under (path : String) :
    (t.cacheEntry ident path).edges =
      orderBy (·.edgeKey) (t.edges.filterMap (t.edgeUnder ident path)) := by
  have hedge : ∀ edge : EdgeTemplate, cachedEdgeFromExtraction ident
      ((t.nameKeys ident).map (Prod.map (SymbolName.fqn path) id)) (edge.under path) =
        t.edgeUnder ident path edge := by
    intro edge
    have hgoal : (edge.goal.map (SymbolName.fqn path)).bind
        (keyOf ((t.nameKeys ident).map (Prod.map (SymbolName.fqn path) id))) =
          edge.goal.bind (keyOf (t.nameKeys ident)) := by
      rw [Option.bind_map]
      congr 1
      exact funext fun name => keyOf_map (fqn_injective path) _ name
    simp only [cachedEdgeFromExtraction, EdgeTemplate.under, keyOf_map (fqn_injective path), hgoal]
    rfl
  have hedges : (t.cacheEntry ident path).edges =
      orderBy (·.edgeKey) ((t.edges.map (EdgeTemplate.under path)).filterMap
        (cachedEdgeFromExtraction ident ((path, t.fileKey ident) ::
          assignArtifactKeys ident (t.items.map (ItemTemplate.under path))))) := rfl
  rw [hedges, keys_under, List.filterMap_map]
  congr 2
  exact funext hedge

/-- A name has a key exactly when it is known. -/
theorem keyOf_nameKeys_isSome (name : SymbolName) :
    (keyOf (t.nameKeys ident) name).isSome = true ↔ name ∈ t.known := by
  rw [← map_fst_nameKeys ident t, ← not_iff_not, ← keyOf_eq_none, Bool.not_eq_true,
    Option.isSome_eq_false_iff, Option.isNone_iff_eq_none]

theorem goal_unknown_iff (edge : EdgeTemplate) :
    edge.goal.all (· ∉ t.known) = true ↔ edge.goal.bind (keyOf (t.nameKeys ident)) = none := by
  cases edge.goal with
  | none => exact iff_of_true rfl rfl
  | some goal =>
    rw [Option.all_some, decide_eq_true_eq, Option.bind_some, ← keyOf_nameKeys_isSome ident t]
    simp

/-- Without a leak the entries of two paths have the same edges. -/
theorem edges_cacheEntry (hfree : t.PathFree) (pathA pathB : String) :
    (t.cacheEntry ident pathA).edges = (t.cacheEntry ident pathB).edges := by
  have hedge : ∀ edge ∈ t.edges, t.edgeUnder ident pathA edge = t.edgeUnder ident pathB edge := by
    intro edge hedge
    have hleak := hfree edge hedge
    unfold edgeUnder
    cases hsource : keyOf (t.nameKeys ident) edge.source with
    | none => rfl
    | some fromKey =>
      cases hgoal : edge.goal.bind (keyOf (t.nameKeys ident)) with
      | some toKey => rfl
      | none =>
        have hknown : edge.source ∈ t.known :=
          (keyOf_nameKeys_isSome ident t _).mp (by rw [hsource]; rfl)
        have hunknown := (goal_unknown_iff ident t edge).mpr hgoal
        have hreference : edge.referenceNamesPath = false := by
          rw [EdgeTemplate.leaksPath, hunknown, decide_eq_true hknown] at hleak
          exact hleak
        have hsame : (edge.reference.map (SymbolRef.under pathA)).or
              (edge.goal.map (SymbolName.fqn pathA)) =
            (edge.reference.map (SymbolRef.under pathB)).or
              (edge.goal.map (SymbolName.fqn pathB)) := by
          unfold EdgeTemplate.referenceNamesPath at hreference
          cases href : edge.reference with
          | some reference =>
            cases reference with
            | text value => rfl
            | name symbol => simp [href] at hreference
          | none =>
            cases hend : edge.goal with
            | none => rfl
            | some goal => simp [href, hend] at hreference
        simp only [hsame]
  rw [edges_cacheEntry_under, edges_cacheEntry_under, List.filterMap_congr hedge]

/-- The target asks for what the entry holds, so the entry is accepted. -/
theorem validateMaterializationInputs_cacheEntry (repoId entryPath path : String) :
    validateMaterializationInputs (t.materializationTarget repoId path)
      (t.cacheEntry ident entryPath) t.parserVersion t.extractorVersion = pure () := by
  have hkey : (t.cacheEntry ident entryPath).key = (t.input entryPath).cacheKey := rfl
  simp [validateMaterializationInputs, hkey, materializationTarget, input,
    ExtractionInput.cacheKey]

/-- The rows, with the artefacts derived from any entry and the edges of the given one. -/
theorem rowsFrom_eq (repoId : String) (depth : ℕ) (entryPath otherPath path : String) :
    t.rowsFrom ident repoId depth entryPath path =
      deriveMaterializedArtefacts ident (t.materializationTarget repoId path) depth
          (t.cacheEntry ident otherPath) >>= fun artefacts =>
        pure
          { materializedArtefacts := dedupeLastWins (·.artefactId) artefacts
            materializedEdges := dedupeMaterializedEdgesByEdgeId
              (deriveMaterializedEdges ident (t.materializationTarget repoId path)
                (t.cacheEntry ident entryPath) artefacts) } := by
  rw [rowsFrom, prepareMaterializationRows, validateMaterializationInputs_cacheEntry,
    t.deriveMaterializedArtefacts_cacheEntry ident entryPath otherPath]
  rfl

theorem pathIndependent_of_pathFree (hfree : t.PathFree) : t.PathIndependent ident := by
  intro repoId depth pathA pathB
  rw [t.rowsFrom_eq ident repoId depth pathA pathB, t.rowsFrom_eq ident repoId depth pathB pathB]
  refine bind_congr fun artefacts => ?_
  rw [deriveMaterializedEdges, deriveMaterializedEdges,
    edges_cacheEntry ident t hfree pathA pathB]
  rfl

end ExtractionTemplate

/-! ## What a leak does to the rows -/

theorem outcome_bind_eq_pure {α β : Type} {x : Outcome α} {f : α → Outcome β} {b : β}
    (h : x >>= f = pure b) : ∃ a, x = pure a ∧ f a = pure b := by
  cases x with
  | none => exact (nomatch (h : (none : Option (Except String β)) = some (.ok b)))
  | some result =>
    cases result with
    | error message =>
      exact (nomatch (h : (some (.error message) : Option (Except String β)) = some (.ok b)))
    | ok a => exact ⟨a, rfl, h⟩

theorem outcome_bind_congr {α β : Type} {x : Outcome α} {f g : α → Outcome β}
    (h : ∀ a, x = pure a → f a = g a) : x >>= f = x >>= g := by
  cases x with
  | none => rfl
  | some result =>
    cases result with
    | error message => rfl
    | ok a => exact h a rfl

theorem outcome_pure_inj {α : Type} {a b : α} (h : (pure a : Outcome α) = pure b) : a = b := by
  have hok : (some (.ok a) : Option (Except String α)) = some (.ok b) := h
  cases hok
  rfl

/-- A resolved artefact stays, and the requested one is among them. -/
theorem resolveArtefact_keys {ident : Identity κ} {target : MaterializationTarget}
    {extraction : CachedExtraction} {depth : ℕ} {artifactKey : String}
    {resolved resolved' : List MaterializedArtefact} {artefact : MaterializedArtefact}
    (h : resolveArtefact ident target extraction depth artifactKey resolved =
      pure (artefact, resolved')) :
    artifactKey ∈ resolved'.map (·.artifactKey) ∧ ∀ row ∈ resolved, row ∈ resolved' := by
  induction depth generalizing artifactKey resolved resolved' artefact with
  | zero => exact (nomatch (h : (none : Option (Except String _)) = some (.ok _)))
  | succ depth ih =>
    rw [resolveArtefact] at h
    cases hfound : findRow MaterializedArtefact.artifactKey artifactKey resolved with
    | some existing =>
      rw [hfound] at h
      obtain ⟨rfl, rfl⟩ := Prod.mk.inj (outcome_pure_inj h)
      have hmem := List.mem_of_find?_eq_some hfound
      have hkey : existing.artifactKey = artifactKey := by simpa using List.find?_some hfound
      exact ⟨List.mem_map.mpr ⟨existing, hmem, hkey⟩, fun _ => id⟩
    | none =>
      rw [hfound] at h
      cases hcached : byKey extraction artifactKey with
      | none =>
        rw [hcached] at h
        exact (nomatch (h : (some (.error _) : Option (Except String _)) = some (.ok _)))
      | some cached =>
        rw [hcached] at h
        have hkey : cached.artifactKey = artifactKey := (mem_of_lastRow hcached).2
        obtain ⟨⟨parent, before⟩, hparent, h⟩ := outcome_bind_eq_pure h
        obtain ⟨symbolId, -, h⟩ := outcome_bind_eq_pure h
        obtain ⟨rfl, rfl⟩ := Prod.mk.inj (outcome_pure_inj h)
        have hbefore : ∀ row ∈ resolved, row ∈ before := by
          cases hparentKey : cached.parentArtifactKey with
          | none =>
            rw [hparentKey] at hparent
            obtain ⟨-, rfl⟩ := Prod.mk.inj (outcome_pure_inj hparent)
            exact fun _ => id
          | some parentKey =>
            rw [hparentKey] at hparent
            obtain ⟨⟨parent', before'⟩, hrec, hparent⟩ := outcome_bind_eq_pure hparent
            obtain ⟨-, rfl⟩ := Prod.mk.inj (outcome_pure_inj hparent)
            exact (ih hrec).2
        refine ⟨?_, fun row hrow => List.mem_append_left _ (hbefore row hrow)⟩
        rw [List.map_append]
        exact List.mem_append_right _ (List.mem_singleton.mpr hkey.symm)

/-- Every artefact of the entry has a row. -/
theorem mem_deriveMaterializedArtefacts {ident : Identity κ} {target : MaterializationTarget}
    {extraction : CachedExtraction} {depth : ℕ} {rows : List MaterializedArtefact}
    (h : deriveMaterializedArtefacts ident target depth extraction = pure rows) :
    ∀ artefact ∈ extraction.artefacts, artefact.artifactKey ∈ rows.map (·.artifactKey) := by
  obtain ⟨resolved, hfold, h⟩ := outcome_bind_eq_pure h
  have hrows := outcome_pure_inj h
  have hloop : ∀ (artefacts : List CachedArtefact) (before : List MaterializedArtefact),
      artefacts.foldlM
        (fun resolved artefact => do
          let found ←
            resolveArtefact ident target extraction depth artefact.artifactKey resolved
          pure found.2) before = (pure resolved : Outcome _) →
      (∀ row ∈ before, row ∈ resolved) ∧
        ∀ artefact ∈ artefacts, artefact.artifactKey ∈ resolved.map (·.artifactKey) := by
    intro artefacts
    induction artefacts with
    | nil =>
      intro before hdone
      obtain rfl := outcome_pure_inj hdone
      exact ⟨fun _ => id, fun _ h => (by cases h)⟩
    | cons artefact artefacts ih =>
      intro before hdone
      rw [List.foldlM_cons] at hdone
      obtain ⟨next, hstep, hdone⟩ := outcome_bind_eq_pure hdone
      obtain ⟨⟨row, after⟩, hresolve, hstep⟩ := outcome_bind_eq_pure hstep
      obtain rfl := outcome_pure_inj hstep
      obtain ⟨hkey, hkeep⟩ := resolveArtefact_keys hresolve
      obtain ⟨hlater, hrest⟩ := ih after hdone
      refine ⟨fun row hrow => hlater row (hkeep row hrow), fun other hother => ?_⟩
      rcases List.mem_cons.mp hother with rfl | hother
      · obtain ⟨found, hfound, hfoundKey⟩ := List.mem_map.mp hkey
        exact List.mem_map.mpr ⟨found, hlater found hfound, hfoundKey⟩
      · exact hrest other hother
  intro artefact hartefact
  obtain ⟨row, hrow, hkey⟩ := List.mem_map.mp ((hloop _ _ hfold).2 artefact hartefact)
  rw [← hrows]
  exact List.mem_map.mpr ⟨row, mem_orderBy.mpr hrow, hkey⟩

theorem map_edgeId_dedupe {edges : List MaterializedEdge} {edgeId : String} :
    edgeId ∈ (dedupeMaterializedEdgesByEdgeId edges).map (·.edgeId) ↔
      edgeId ∈ edges.map (·.edgeId) := by
  rw [dedupeMaterializedEdgesByEdgeId, (((perm_orderBy _ _).map _).mem_iff)]
  exact map_key_dedupeLastWins

namespace ExtractionTemplate

variable {ident : Identity κ} {t : ExtractionTemplate κ}

/-- A leaking edge enters every entry with a reference to the same name, under the entry's
path. -/
theorem edgeUnder_of_leaksPath (ident : Identity κ) {edge : EdgeTemplate} (hleak : edge.leaksPath t.known = true) :
    ∃ (fromKey : String) (name : SymbolName),
      (∃ part ∈ t.parts ident, t.keyUnder ident part = fromKey) ∧
      ∀ path, t.edgeUnder ident path edge =
        some (cachedEdge ident edge.toEdgeBody fromKey none (some (name.fqn path))) := by
  rw [EdgeTemplate.leaksPath, Bool.and_eq_true, Bool.and_eq_true, decide_eq_true_eq] at hleak
  obtain ⟨⟨hsource, hgoal⟩, hreference⟩ := hleak
  obtain ⟨fromKey, hfrom⟩ :=
    Option.isSome_iff_exists.mp ((keyOf_nameKeys_isSome ident t _).mpr hsource)
  have hname : ∃ name : SymbolName, ∀ path,
      (edge.reference.map (SymbolRef.under path)).or (edge.goal.map (SymbolName.fqn path)) =
        some (name.fqn path) := by
    unfold EdgeTemplate.referenceNamesPath at hreference
    cases href : edge.reference with
    | some reference =>
      cases reference with
      | text value => simp [href] at hreference
      | name symbol => exact ⟨symbol, fun _ => rfl⟩
    | none =>
      cases hend : edge.goal with
      | none => simp [href, hend] at hreference
      | some goal => exact ⟨goal, fun _ => rfl⟩
  obtain ⟨name, hname⟩ := hname
  refine ⟨fromKey, name, ?_, fun path => ?_⟩
  · rcases List.mem_cons.mp hsource with hfile | hitem
    · rw [hfile, keyOf_nameKeys_file] at hfrom
      exact ⟨none, mem_orderBy.mpr List.mem_cons_self, Option.some.inj hfrom⟩
    · obtain ⟨item, hitem, hsourceItem⟩ := List.mem_map.mp hitem
      refine ⟨some item, mem_orderBy.mpr (List.mem_cons_of_mem _ (List.mem_map_of_mem hitem)), ?_⟩
      rw [keyUnder, hsourceItem, hfrom]
      rfl
  · rw [edgeUnder, hfrom, (goal_unknown_iff ident t edge).mp hgoal]
    simp [hname]

/-- The identifiers of the rows of a leaking edge tell the paths of the entries apart. -/
theorem exists_edgeId_of_leaksPath (target : MaterializationTarget) {edge : EdgeTemplate}
    {artefacts : List MaterializedArtefact} (hedge : edge ∈ t.edges)
    (hleak : edge.leaksPath t.known = true)
    (hartefacts : ∀ part ∈ t.parts ident,
      t.keyUnder ident part ∈ artefacts.map (·.artifactKey)) :
    ∃ (front back : String) (name : SymbolName), ∀ path,
      ident.deterministicUuid (front ++ name.fqn path ++ back) ∈
        (deriveMaterializedEdges ident target (t.cacheEntry ident path) artefacts).map
          (·.edgeId) := by
  obtain ⟨fromKey, name, ⟨part, hpart, rfl⟩, hunder⟩ :=
    edgeUnder_of_leaksPath ident hleak
  cases hsource : lastRow MaterializedArtefact.artifactKey (t.keyUnder ident part) artefacts with
  | none => exact absurd (hartefacts part hpart) (lastRow_eq_none.mp hsource)
  | some source =>
    let front := target.repoId ++ "|" ++ target.path ++ "|" ++ source.symbolId ++ "|" ++
      edge.edgeKind.asStr ++ "|" ++ "" ++ "|"
    let back := "|" ++ toString (edge.startLine.getD (-1)) ++ "|" ++
      toString (edge.endLine.getD (-1)) ++ "|" ++ edge.metadata
    have hrow : ∀ path,
        (materializedEdge ident target (t.cacheEntry ident path).key.language artefacts
          (cachedEdge ident edge.toEdgeBody (t.keyUnder ident part) none
            (some (name.fqn path)))).map (·.edgeId) =
        some (ident.deterministicUuid (front ++ name.fqn path ++ back)) := by
      intro path
      simp only [materializedEdge, cachedEdge, hsource, Option.bind_some, Option.bind_none,
        Option.map_none, Option.isNone_none, Option.isNone_some, Bool.and_false,
        Option.bind_eq_bind, Bool.false_eq_true, if_false, Option.map_some, Option.getD_some,
        Option.getD_none, front, back, String.append_assoc]
    refine ⟨front, back, name, fun path => ?_⟩
    obtain ⟨row, hrow, hid⟩ := Option.map_eq_some_iff.mp (hrow path)
    rw [deriveMaterializedEdges, map_edgeId_dedupe, edges_cacheEntry_under, ← hid]
    refine List.mem_map_of_mem (List.mem_filterMap.mpr ⟨_, mem_orderBy.mpr ?_, hrow⟩)
    exact List.mem_filterMap.mpr ⟨edge, hedge, hunder path⟩

theorem pathFree_of_pathIndependent (huuid : Function.Injective ident.deterministicUuid)
    (hrows : t.HasRows ident) (h : t.PathIndependent ident) : t.PathFree := by
  intro edge hedge
  cases hleak : edge.leaksPath t.known with
  | false => rfl
  | true =>
    exfalso
    obtain ⟨repoId, depth, entryPath, path, rows, hrows⟩ := hrows
    rw [t.rowsFrom_eq ident repoId depth entryPath entryPath] at hrows
    obtain ⟨artefacts, hderive, -⟩ := outcome_bind_eq_pure hrows
    -- the artefacts are the same from every entry, the edges are those of the entry
    have hfrom : ∀ pathA, t.rowsFrom ident repoId depth pathA path =
        pure
          { materializedArtefacts := dedupeLastWins (·.artefactId) artefacts
            materializedEdges := dedupeMaterializedEdgesByEdgeId
              (deriveMaterializedEdges ident (t.materializationTarget repoId path)
                (t.cacheEntry ident pathA) artefacts) } := by
      intro pathA
      rw [t.rowsFrom_eq ident repoId depth pathA entryPath, hderive]
      rfl
    have hkeys : ∀ part ∈ t.parts ident,
        t.keyUnder ident part ∈ artefacts.map (·.artifactKey) := by
      intro part hpart
      have hmem := mem_deriveMaterializedArtefacts hderive (t.cachedUnder ident entryPath part)
        (by rw [artefacts_cacheEntry]; exact List.mem_map_of_mem hpart)
      rwa [artifactKey_cachedUnder] at hmem
    obtain ⟨front, back, name, hids⟩ :=
      exists_edgeId_of_leaksPath (t.materializationTarget repoId path) hedge hleak hkeys
    -- each of infinitely many entries brings an identifier of its own into the same rows
    let entry (n : ℕ) : String := String.ofList (List.replicate n 'a')
    let ids := (dedupeMaterializedEdgesByEdgeId (deriveMaterializedEdges ident
      (t.materializationTarget repoId path) (t.cacheEntry ident path) artefacts)).map (·.edgeId)
    have hmem : ∀ n, ident.deterministicUuid (front ++ name.fqn (entry n) ++ back) ∈ ids := by
      intro n
      have hsame := h repoId depth (entry n) path
      rw [hfrom, hfrom] at hsame
      have hedges : dedupeMaterializedEdgesByEdgeId (deriveMaterializedEdges ident
            (t.materializationTarget repoId path) (t.cacheEntry ident (entry n)) artefacts) =
          dedupeMaterializedEdgesByEdgeId (deriveMaterializedEdges ident
            (t.materializationTarget repoId path) (t.cacheEntry ident path) artefacts) :=
        congrArg PreparedMaterialisationRows.materializedEdges (outcome_pure_inj hsame)
      dsimp only [ids]
      rw [← hedges, map_edgeId_dedupe]
      exact hids (entry n)
    have hinj : Function.Injective fun n =>
        ident.deterministicUuid (front ++ name.fqn (entry n) ++ back) := by
      intro m n heq
      have hlength := congrArg String.length (huuid heq)
      cases name with
      | file => simpa [SymbolName.fqn, entry] using hlength
      | member suffix => simpa [SymbolName.fqn, entry] using hlength
    exact Set.infinite_of_injective_forall_mem hinj hmem (List.finite_toSet ids)

/-- A file without rows fails in the same way from every entry. -/
theorem pathIndependent_of_not_hasRows (h : ¬ t.HasRows ident) : t.PathIndependent ident := by
  intro repoId depth pathA pathB
  rw [t.rowsFrom_eq ident repoId depth pathA pathB, t.rowsFrom_eq ident repoId depth pathB pathB]
  refine outcome_bind_congr fun artefacts hderive => ?_
  have hrows := t.rowsFrom_eq ident repoId depth pathB pathB pathB
  rw [hderive] at hrows
  exact absurd ⟨repoId, depth, pathB, pathB, _, hrows⟩ h

/-- If the hash has no collisions, the entry of any path serves every other path exactly when no
edge enters the cache with a reference that names the path, or the file has no rows at all. -/
theorem pathIndependent_iff_pathFree (huuid : Function.Injective ident.deterministicUuid) :
    t.PathIndependent ident ↔ (t.HasRows ident → t.PathFree) := by
  constructor
  · exact fun h hrows => pathFree_of_pathIndependent huuid hrows h
  · intro h
    by_cases hrows : t.HasRows ident
    · exact pathIndependent_of_pathFree ident t (h hrows)
    · exact pathIndependent_of_not_hasRows hrows

end ExtractionTemplate

/-! ## A constructor that is not declared -/

/-- Identities that keep the texts they would hash. -/
def plainIdentity : Identity String :=
  { deterministicUuid := id
    removeModifier := fun _ signature => signature
    kindText := id
    parseKind := fun _ kind => some kind }

def javaItem (languageKind name suffix : String) (parent : Option SymbolName) (line : ℤ) :
    ItemTemplate String :=
  { canonicalKind := none
    languageKind
    name
    startLine := line
    endLine := line
    startByte := 20 * line
    endByte := 20 * line + 10
    signature := name
    modifiers := []
    docstring := none
    suffix
    parent }

/-- A call in the method `make` of the class `Bar`. -/
def javaCall (goal : String) : EdgeTemplate :=
  { edgeKind := .calls
    startLine := some 3
    endLine := some 3
    metadata := "\x7b\x7d"
    source := .member "Bar::make"
    goal := some (.member goal)
    reference := none }

/-- The classes `Foo` and `Bar`, and a call in the method of `Bar`. -/
def javaTemplate (goal : String) : ExtractionTemplate String :=
  { contentId := "content"
    extractionFingerprint := "fingerprint"
    parserVersion := "parser"
    extractorVersion := "extractor"
    language := "java"
    content := "class Foo \x7b\x7d\nclass Bar \x7b\nFoo make() \x7b return new Foo(); \x7d\n\x7d\n"
    fileDocstring := none
    items :=
      [javaItem "class" "Foo" "Foo" none 1, javaItem "class" "Bar" "Bar" none 2,
        javaItem "method" "make" "Bar::make" (some (.member "Bar")) 3]
    edges := [javaCall goal] }

/-- A call of a declared method does not name the path. -/
theorem declaredCall_pathIndependent :
    (javaTemplate "Bar::make").PathIndependent plainIdentity :=
  (ExtractionTemplate.pathIndependent_iff_pathFree Function.injective_id).mpr fun _ => by
    unfold ExtractionTemplate.PathFree
    decide

/-- The references of the rows. -/
def referencesOf (outcome : Outcome PreparedMaterialisationRows) :
    Option (List (Option String)) :=
  match outcome.run with
  | some (.ok rows) => some (rows.materializedEdges.map (·.toSymbolRef))
  | _ => none

/-- `new Foo()` calls a constructor that the class does not declare: the rows of `b.java` from
the entry of `a.java` name `a.java`. -/
theorem defaultConstructor_not_pathIndependent :
    ¬ (javaTemplate "Foo::<init>").PathIndependent plainIdentity := by
  intro h
  have hsame := congrArg referencesOf (h "repo" 3 "a.java" "b.java")
  have hne :
      referencesOf
          ((javaTemplate "Foo::<init>").rowsFrom plainIdentity "repo" 3 "a.java" "b.java") ≠
        referencesOf
          ((javaTemplate "Foo::<init>").rowsFrom plainIdentity "repo" 3 "b.java" "b.java") := by
    decide
  exact hne hsame

end ContentCache
end Bitloops
