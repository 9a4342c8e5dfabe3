import Mathlib.Data.List.FinRange
import Bitloops.ContentCache.Extraction
import Bitloops.Foundation.Records

/-!
# The keys of extracted items

Every item is given a key of its own, hashed from its fingerprint and from an ordinal among the
items with this fingerprint.  The key is then looked up by the full name of the item, so that items
with one full name end up with one key, and the store keeps the last of them.

`mapsLosslessly_iff` says exactly when the mapping does not depend on the order of the items and of
the edges and keeps all of them apart.
-/

namespace Bitloops
namespace ContentCache

variable {κ : Type} (ident : Identity κ)

/-- `symbol_to_artifact_key`. -/
def symbolKeys (input : ExtractionInput) (items : List (LanguageArtefact κ)) :
    List (String × String) :=
  (input.path, fileArtifactKey ident input.content) :: assignArtifactKeys ident items

/-- The cached form of one item among the others. -/
def cachedItem (input : ExtractionInput) (items : List (LanguageArtefact κ))
    (item : LanguageArtefact κ) : CachedArtefact :=
  cachedArtefact ident (fileArtifactKey ident input.content) (symbolKeys ident input items) item

/-- The cached edges, in the order of the extraction. -/
def cachedEdges (input : ExtractionInput) (items : List (LanguageArtefact κ))
    (edges : List DependencyEdge) : List CachedEdge :=
  edges.filterMap (cachedEdgeFromExtraction ident (symbolKeys ident input items))

/-! ## What a lossless mapping is -/

/-- The row holds what the item says. -/
structure CachedArtefact.Describes (row : CachedArtefact) (item : LanguageArtefact κ) : Prop where
  canonicalKind : row.canonicalKind = item.canonicalKind
  languageKind : row.languageKind = ident.kindText item.languageKind
  name : row.name = item.name
  lines : (row.startLine, row.endLine) = (item.startLine, item.endLine)
  bytes : (row.startByte, row.endByte) = (item.startByte, item.endByte)
  signature : row.signature = item.signature
  modifiers : row.modifiers = item.modifiers
  docstring : row.docstring = item.docstring
  metadata : row.metadata = [("symbol_fqn", item.symbolFqn)]

/-- The row holds what the edge says apart from its ends. -/
structure CachedEdge.Describes (row : CachedEdge) (edge : DependencyEdge) : Prop where
  edgeKind : row.edgeKind = edge.edgeKind.asStr
  lines : (row.startLine, row.endLine) = (edge.startLine, edge.endLine)
  metadata : row.metadata = edge.metadata

/-- In the rows that are stored every item has a key of its own, apart from that of the file, and
the ends of the edges are the keys of the items that they name. -/
structure ItemsKept (input : ExtractionInput) (items : List (LanguageArtefact κ))
    (edges : List DependencyEdge) (rows : List CachedArtefact × List CachedEdge)
    (key : Fin items.length → String) : Prop where
  injective : Function.Injective key
  notFile : ∀ i, key i ≠ fileArtifactKey ident input.content
  file : cachedFileArtefact ident input ∈ rows.1
  kept : ∀ i, ∃ row ∈ rows.1, row.artifactKey = key i ∧ row.Describes ident (items.get i)
  ends : ∀ edge ∈ edges, ∀ i, (items.get i).symbolFqn = edge.fromSymbolFqn →
    (edge.toTargetSymbolFqn ≠ none ∨ edge.toSymbolRef ≠ none) →
    ∃ row ∈ rows.2, row.Describes edge ∧ row.fromArtifactKey = key i ∧
      ∀ j, edge.toTargetSymbolFqn = some (items.get j).symbolFqn → row.toArtifactKey = some (key j)

/-- The entry does not depend on the order, and what is stored keeps the items apart. -/
def MapsLosslessly (input : ExtractionInput) (items : List (LanguageArtefact κ))
    (edges : List DependencyEdge) : Prop :=
  (∀ items' edges', items.Perm items' → edges.Perm edges' →
    mapExtractionToCacheFormat ident input items' edges' =
      mapExtractionToCacheFormat ident input items edges) ∧
  ∃ key, ItemsKept ident input items edges
    (dedupedCachedContentParts (mapExtractionToCacheFormat ident input items edges)) key

/-- The items have different full names, the keys that are handed out are different, and the edges
that are hashed alike are alike. -/
structure KeysApart (input : ExtractionInput) (items : List (LanguageArtefact κ))
    (edges : List DependencyEdge) : Prop where
  names : (items.map (·.symbolFqn)).Nodup
  keys : (fileArtifactKey ident input.content ::
    (assignArtifactKeys ident items).map Prod.snd).Nodup
  edges : ∀ row ∈ cachedEdges ident input items edges,
    ∀ row' ∈ cachedEdges ident input items edges, row.edgeKey = row'.edgeKey → row = row'

variable {ident} {input : ExtractionInput} {items items' : List (LanguageArtefact κ)}
  {edges edges' : List DependencyEdge}

theorem mapExtraction_artefacts : (mapExtractionToCacheFormat ident input items edges).artefacts =
    orderBy (·.artifactKey)
      (cachedFileArtefact ident input :: items.map (cachedItem ident input items)) := rfl

theorem mapExtraction_edges : (mapExtractionToCacheFormat ident input items edges).edges =
    orderBy (·.edgeKey) (cachedEdges ident input items edges) := rfl

/-! ## Keys and full names -/

/-- The keys are handed out in an order of their own. -/
theorem assignArtifactKeys_perm (h : items.Perm items') :
    assignArtifactKeys ident items = assignArtifactKeys ident items' := by
  rw [assignArtifactKeys, assignArtifactKeys]
  rw [orderBy_eq_of_perm (h.map _) fun _ _ _ _ heq => toLex.injective heq]

theorem symbolKeys_perm (h : items.Perm items') :
    symbolKeys ident input items = symbolKeys ident input items' := by
  rw [symbolKeys, symbolKeys, assignArtifactKeys_perm h]

theorem map_fst_assignArtifactKeys :
    ((assignArtifactKeys ident items).map Prod.fst).Perm (items.map (·.symbolFqn)) := by
  rw [assignArtifactKeys, map_fst_assignOrdinals]
  refine ((perm_orderBy toLex _).map Prod.snd).trans ?_
  rw [List.map_map]
  rfl

/-- Of pairs with different names, each is found by its name. -/
theorem keyOf_of_mem {keys : List (String × String)} (hnodup : (keys.map Prod.fst).Nodup)
    {entry : String × String} (h : entry ∈ keys) : keyOf keys entry.1 = some entry.2 := by
  rw [keyOf]
  cases hlast : lastRow Prod.fst entry.1 keys with
  | none => exact absurd (List.mem_map_of_mem h) (lastRow_eq_none.mp hlast)
  | some row =>
    obtain ⟨hmem, hkey⟩ := mem_of_lastRow hlast
    rw [List.inj_on_of_nodup_map hnodup hmem h hkey]
    rfl

/-- The names of the items are looked up among the keys that were handed out. -/
theorem keyOf_symbolKeys {name : String} (h : name ∈ items.map (·.symbolFqn)) :
    keyOf (symbolKeys ident input items) name = keyOf (assignArtifactKeys ident items) name := by
  have hmem : name ∈ (assignArtifactKeys ident items).map Prod.fst :=
    map_fst_assignArtifactKeys.mem_iff.mpr h
  cases hlast : lastRow Prod.fst name (assignArtifactKeys ident items) with
  | none => exact absurd hmem (lastRow_eq_none.mp hlast)
  | some row => rw [keyOf, keyOf, symbolKeys, lastRow_cons, hlast, Option.some_or]

/-- With different full names, the items have the keys that were handed out. -/
theorem map_artifactKey_perm (hnames : (items.map (·.symbolFqn)).Nodup) :
    (items.map fun item => (cachedItem ident input items item).artifactKey).Perm
      ((assignArtifactKeys ident items).map Prod.snd) := by
  have hnodup : ((assignArtifactKeys ident items).map Prod.fst).Nodup :=
    map_fst_assignArtifactKeys.nodup_iff.mpr hnames
  have hhanded : (assignArtifactKeys ident items).map Prod.snd =
      ((assignArtifactKeys ident items).map Prod.fst).map fun name =>
        (keyOf (symbolKeys ident input items) name).getD "" := by
    rw [List.map_map]
    refine List.map_congr_left fun entry hentry => ?_
    have hname := map_fst_assignArtifactKeys.mem_iff.mp (List.mem_map_of_mem hentry)
    rw [Function.comp_apply, keyOf_symbolKeys hname, keyOf_of_mem hnodup hentry, Option.getD_some]
  rw [hhanded]
  refine List.Perm.trans ?_ (map_fst_assignArtifactKeys.symm.map _)
  rw [List.map_map]
  rfl

theorem nodup_artifactKeys_iff :
    ((cachedFileArtefact ident input :: items.map (cachedItem ident input items)).map
      (·.artifactKey)).Nodup ↔ (items.map (·.symbolFqn)).Nodup ∧
        (fileArtifactKey ident input.content ::
          (assignArtifactKeys ident items).map Prod.snd).Nodup := by
  rw [List.map_cons, List.map_map]
  have hperm : (items.map (·.symbolFqn)).Nodup →
      (fileArtifactKey ident input.content :: items.map fun item =>
        (cachedItem ident input items item).artifactKey).Perm
      (fileArtifactKey ident input.content :: (assignArtifactKeys ident items).map Prod.snd) :=
    fun hnames => (map_artifactKey_perm hnames).cons _
  constructor
  · intro h
    have hnames : (items.map (·.symbolFqn)).Nodup := by
      have hkeys : (items.map (·.symbolFqn)).map (fun name =>
          (keyOf (symbolKeys ident input items) name).getD "") =
          items.map fun item => (cachedItem ident input items item).artifactKey := by
        rw [List.map_map]
        rfl
      exact List.Nodup.of_map _ (hkeys ▸ (List.nodup_cons.mp h).2)
    exact ⟨hnames, (hperm hnames).nodup_iff.mp h⟩
  · rintro ⟨hnames, hkeys⟩
    exact (hperm hnames).nodup_iff.mpr hkeys

/-- An item's name leads to its key. -/
theorem keyOf_item (ident : Identity κ) (input : ExtractionInput) {item : LanguageArtefact κ}
    (h : item ∈ items) :
    keyOf (symbolKeys ident input items) item.symbolFqn =
      some (cachedItem ident input items item).artifactKey := by
  have hmem : item.symbolFqn ∈ (assignArtifactKeys ident items).map Prod.fst :=
    map_fst_assignArtifactKeys.mem_iff.mpr (List.mem_map_of_mem h)
  have hsome : keyOf (symbolKeys ident input items) item.symbolFqn ≠ none := fun hnone =>
    keyOf_eq_none.mp hnone (List.mem_cons_of_mem _ hmem)
  obtain ⟨key, hkey⟩ := Option.ne_none_iff_exists'.mp hsome
  have hitem : (cachedItem ident input items item).artifactKey =
      (keyOf (symbolKeys ident input items) item.symbolFqn).getD "" := rfl
  rw [hitem, hkey, Option.getD_some]

/-! ## Ordinals

Before they are hashed, the keys are different. -/

/-- What is hashed for an item. -/
def artefactText (fingerprint : String) (ordinal : ℕ) : String :=
  "cache-artefact|" ++ fingerprint ++ "|" ++ toString ordinal

theorem artefactText_inj {fingerprint fingerprint' : String} {ordinal ordinal' : ℕ}
    (h : artefactText fingerprint ordinal = artefactText fingerprint' ordinal') :
    fingerprint = fingerprint' ∧ ordinal = ordinal' := by
  have hbar : ∀ n : ℕ, '|' ∉ (Nat.toDigits 10 n).reverse := fun n hmem =>
    absurd (Nat.isDigit_of_mem_toDigits (by decide) (by decide) (List.mem_reverse.mp hmem))
      (by decide)
  have hlist : ∀ (fingerprint : String) (n : ℕ), (artefactText fingerprint n).toList.reverse =
      (Nat.toDigits 10 n).reverse ++ '|' :: ("cache-artefact|".toList ++
        fingerprint.toList).reverse := by
    intro fingerprint n
    have hdigits : (toString n).toList = Nat.toDigits 10 n := by
      rw [Nat.toString_eq_ofList_toDigits, String.toList_ofList]
    rw [artefactText, String.toList_append, String.toList_append, String.toList_append, hdigits,
      List.reverse_append, List.reverse_append]
    rfl
  have hsplit := congrArg (fun text => splitOnce '|' text.toList.reverse) h
  simp only [hlist, splitOnce_append (hbar _), Option.some.injEq, Prod.mk.injEq,
    List.reverse_inj] at hsplit
  obtain ⟨hdigits, hfront⟩ := hsplit
  refine ⟨String.toList_inj.mp (List.append_cancel_left hfront), ?_⟩
  have hordinals := congrArg (fun digits => Nat.ofDigitChars 10 digits 0) hdigits
  simpa only [Nat.ofDigitChars_ten_toDigits] using hordinals

/-- A key is hashed from a fingerprint and an ordinal that is not below the number of those that
were met before. -/
theorem exists_text_of_mem {ν : Type} {seen : List String} {ranked : List (String × ν)}
    {key : String} (h : key ∈ (assignOrdinals ident seen ranked).map Prod.snd) :
    ∃ fingerprint ordinal, key = ident.deterministicUuid (artefactText fingerprint ordinal) ∧
      seen.count fingerprint ≤ ordinal := by
  induction ranked generalizing seen with
  | nil => exact absurd h List.not_mem_nil
  | cons entry ranked ih =>
    obtain ⟨fingerprint, name⟩ := entry
    rw [assignOrdinals, List.map_cons] at h
    rcases List.mem_cons.mp h with rfl | h
    · exact ⟨fingerprint, seen.count fingerprint, rfl, le_refl _⟩
    · obtain ⟨other, ordinal, hkey, hle⟩ := ih h
      exact ⟨other, ordinal, hkey, List.count_le_count_cons.trans hle⟩

/-- **Without collisions of the hash** the keys that are handed out are different. -/
theorem nodup_handedOut (huuid : Function.Injective ident.deterministicUuid) :
    (fileArtifactKey ident input.content ::
      (assignArtifactKeys ident items).map Prod.snd).Nodup := by
  have hordinals : ∀ (seen : List String) (ranked : List (String × String)),
      ((assignOrdinals ident seen ranked).map Prod.snd).Nodup := by
    intro seen ranked
    induction ranked generalizing seen with
    | nil => exact List.nodup_nil
    | cons entry ranked ih =>
      obtain ⟨fingerprint, name⟩ := entry
      rw [assignOrdinals, List.map_cons, List.nodup_cons]
      refine ⟨fun hmem => ?_, ih _⟩
      obtain ⟨other, ordinal, hkey, hle⟩ := exists_text_of_mem hmem
      obtain ⟨rfl, rfl⟩ := artefactText_inj (huuid hkey)
      rw [List.count_cons_self] at hle
      exact absurd hle (Nat.not_succ_le_self _)
  refine List.nodup_cons.mpr ⟨fun hmem => ?_, hordinals _ _⟩
  obtain ⟨fingerprint, ordinal, hkey, -⟩ := exists_text_of_mem hmem
  have hchar := congrArg (fun text => text.toList[6]?) (huuid hkey)
  simp only [artefactText, String.toList_append, List.append_assoc] at hchar
  exact absurd (Option.some.inj hchar) (by decide)

/-! ## From a lossless mapping to different keys -/

/-- The stored rows have as many keys as there are items, and one more. -/
theorem ItemsKept.nodup_artifactKeys {key : Fin items.length → String}
    (h : ItemsKept ident input items edges
      (dedupedCachedContentParts (mapExtractionToCacheFormat ident input items edges)) key) :
    ((cachedFileArtefact ident input :: items.map (cachedItem ident input items)).map
      (·.artifactKey)).Nodup := by
  have hsorted := perm_orderBy CachedArtefact.artifactKey
    (cachedFileArtefact ident input :: items.map (cachedItem ident input items))
  have hkeys : (fileArtifactKey ident input.content :: List.ofFn key).Nodup := by
    refine List.nodup_cons.mpr ⟨fun hmem => ?_, List.nodup_ofFn.mpr h.injective⟩
    obtain ⟨i, hi⟩ := List.mem_ofFn.mp hmem
    exact h.notFile i hi
  have hsub : fileArtifactKey ident input.content :: List.ofFn key ⊆
      (dedupedCachedContentParts
        (mapExtractionToCacheFormat ident input items edges)).1.map (·.artifactKey) := by
    intro k hk
    rcases List.mem_cons.mp hk with rfl | hk
    · exact List.mem_map.mpr ⟨_, h.file, rfl⟩
    · obtain ⟨i, rfl⟩ := List.mem_ofFn.mp hk
      obtain ⟨row, hrow, hkey, -⟩ := h.kept i
      exact List.mem_map.mpr ⟨row, hrow, hkey⟩
  have hlength := (List.subperm_of_subset hkeys hsub).length_le
  have hstored : dedupeLastWins CachedArtefact.artifactKey
      (mapExtractionToCacheFormat ident input items edges).artefacts =
      (mapExtractionToCacheFormat ident input items edges).artefacts := by
    refine dedupeLastWins_sublist.eq_of_length_le ?_
    rw [mapExtraction_artefacts, hsorted.length_eq, List.length_cons, List.length_map]
    rw [List.length_cons, List.length_ofFn, List.length_map] at hlength
    exact hlength
  have hnodup : ((mapExtractionToCacheFormat ident input items edges).artefacts.map
      (·.artifactKey)).Nodup := hstored ▸ nodup_dedupeLastWins
  exact (hsorted.map _).nodup_iff.mp hnodup

/-- Edges with one key that are not alike are seen in the order of the entry. -/
theorem edges_eq_of_order (h : ∀ edges', edges.Perm edges' →
      mapExtractionToCacheFormat ident input items edges' =
        mapExtractionToCacheFormat ident input items edges)
    {row row' : CachedEdge} (hrow : row ∈ cachedEdges ident input items edges)
    (hrow' : row' ∈ cachedEdges ident input items edges) (hkey : row.edgeKey = row'.edgeKey) :
    row = row' := by
  have hfirst : ∀ row ∈ cachedEdges ident input items edges, ∃ rows,
      orderBy (·.edgeKey) (row :: rows) =
        (mapExtractionToCacheFormat ident input items edges).edges := by
    intro row hrow
    obtain ⟨edge, hedge, hcached⟩ := List.mem_filterMap.mp hrow
    refine ⟨(edges.erase edge).filterMap
      (cachedEdgeFromExtraction ident (symbolKeys ident input items)), ?_⟩
    rw [← h _ (List.perm_cons_erase hedge), mapExtraction_edges, cachedEdges,
      List.filterMap_cons_some hcached]
  obtain ⟨rows, hrows⟩ := hfirst row hrow
  obtain ⟨rows', hrows'⟩ := hfirst row' hrow'
  exact eq_of_orderBy_cons (hrows.trans hrows'.symm) hkey

/-! ## From different keys to a lossless mapping -/

theorem KeysApart.order (h : KeysApart ident input items edges) (hitems : items.Perm items')
    (hedges : edges.Perm edges') : mapExtractionToCacheFormat ident input items' edges' =
      mapExtractionToCacheFormat ident input items edges := by
  have hkeys : symbolKeys ident input items = symbolKeys ident input items' :=
    symbolKeys_perm hitems
  have hcached : cachedItem ident input items' = cachedItem ident input items := by
    funext item
    rw [cachedItem, cachedItem, hkeys]
  have hartefacts := orderBy_eq_of_perm
    ((hitems.map (cachedItem ident input items)).cons (cachedFileArtefact ident input))
    fun r hr r' hr' => List.inj_on_of_nodup_map
      (nodup_artifactKeys_iff.mpr ⟨h.names, h.keys⟩) hr hr'
  have hcachedEdges : (cachedEdges ident input items edges).Perm
      (cachedEdges ident input items' edges') := by
    rw [cachedEdges, cachedEdges, ← hkeys]
    exact hedges.filterMap _
  have hrows := orderBy_eq_of_perm hcachedEdges h.edges
  have hleft : (mapExtractionToCacheFormat ident input items' edges').artefacts =
      (mapExtractionToCacheFormat ident input items edges).artefacts := by
    rw [mapExtraction_artefacts, mapExtraction_artefacts, hcached, ← hartefacts]
  have hright : (mapExtractionToCacheFormat ident input items' edges').edges =
      (mapExtractionToCacheFormat ident input items edges).edges := by
    rw [mapExtraction_edges, mapExtraction_edges, ← hrows]
  rw [mapExtractionToCacheFormat, mapExtractionToCacheFormat] at hleft hright ⊢
  exact CachedExtraction.mk.injEq _ _ _ _ _ _ _ _ |>.mpr ⟨rfl, rfl, hleft, hright⟩

/-- Every cached edge is stored. -/
theorem KeysApart.mem_stored_edges (h : KeysApart ident input items edges) {row : CachedEdge}
    (hrow : row ∈ cachedEdges ident input items edges) :
    row ∈ (dedupedCachedContentParts
      (mapExtractionToCacheFormat ident input items edges)).2 := by
  have hmem : row ∈ (mapExtractionToCacheFormat ident input items edges).edges :=
    mem_orderBy.mpr hrow
  obtain ⟨stored, hstored, hkey⟩ := List.mem_map.mp
    (map_key_dedupeLastWins.mpr (List.mem_map_of_mem (f := CachedEdge.edgeKey) hmem))
  have hfrom := mem_orderBy.mp (dedupeLastWins_sublist.subset hstored)
  exact h.edges stored hfrom row hrow hkey ▸ hstored

/-- An edge from an item that names something is cached under the keys of its ends. -/
theorem exists_cachedEdge (ident : Identity κ) (input : ExtractionInput) {edge : DependencyEdge}
    {item : LanguageArtefact κ} (hitem : item ∈ items) (hfrom : item.symbolFqn = edge.fromSymbolFqn)
    (hnames : edge.toTargetSymbolFqn ≠ none ∨ edge.toSymbolRef ≠ none) :
    ∃ row, cachedEdgeFromExtraction ident (symbolKeys ident input items) edge = some row ∧
      row.Describes edge ∧ row.fromArtifactKey = (cachedItem ident input items item).artifactKey ∧
      ∀ target ∈ items, edge.toTargetSymbolFqn = some target.symbolFqn →
        row.toArtifactKey = some (cachedItem ident input items target).artifactKey := by
  have hkey := keyOf_item ident input hitem
  rw [hfrom] at hkey
  rw [cachedEdgeFromExtraction, hkey]
  simp only [Option.bind_eq_bind, Option.bind_some]
  rw [if_neg]
  · refine ⟨_, rfl, ⟨rfl, rfl, rfl⟩, rfl, fun target htarget hto => ?_⟩
    rw [hto]
    exact keyOf_item ident input htarget
  · intro hdropped
    obtain ⟨hto, href⟩ := Bool.and_eq_true_iff.mp hdropped
    rw [Option.isNone_iff_eq_none] at hto href
    rw [hto] at href
    have hnone : edge.toSymbolRef = none ∧ edge.toTargetSymbolFqn = none :=
      Option.or_eq_none_iff.mp href
    exact hnames.elim (fun h => h hnone.2) fun h => h hnone.1

theorem KeysApart.itemsKept (h : KeysApart ident input items edges) :
    ItemsKept ident input items edges
      (dedupedCachedContentParts (mapExtractionToCacheFormat ident input items edges))
      fun i => (cachedItem ident input items (items.get i)).artifactKey := by
  have hnodup := nodup_artifactKeys_iff.mpr ⟨h.names, h.keys⟩
  have hstored : (dedupedCachedContentParts
      (mapExtractionToCacheFormat ident input items edges)).1 =
      (mapExtractionToCacheFormat ident input items edges).artefacts := by
    refine dedupeLastWins_of_nodup ?_
    rw [mapExtraction_artefacts]
    exact ((perm_orderBy _ _).map _).nodup_iff.mpr hnodup
  have hkeys : (items.map (cachedItem ident input items)).map (·.artifactKey) =
      List.ofFn fun i => (cachedItem ident input items (items.get i)).artifactKey := by
    rw [List.map_map]
    exact (List.ofFn_getElem_eq_map items _).symm
  rw [List.map_cons, List.nodup_cons, hkeys] at hnodup
  refine ⟨List.nodup_ofFn.mp hnodup.2, fun i hi => ?_, ?_, fun i => ?_, ?_⟩
  · exact hnodup.1 (List.mem_ofFn.mpr ⟨i, hi⟩)
  · rw [hstored]
    exact mem_orderBy.mpr List.mem_cons_self
  · refine ⟨cachedItem ident input items (items.get i), ?_, rfl,
      ⟨rfl, rfl, rfl, rfl, rfl, rfl, rfl, rfl, rfl⟩⟩
    rw [hstored]
    exact mem_orderBy.mpr (List.mem_cons_of_mem _ (List.mem_map_of_mem (List.get_mem items i)))
  · intro edge hedge i hfrom hnames
    obtain ⟨row, hrow, hdescribes, hrowFrom, hrowTo⟩ :=
      exists_cachedEdge ident input (List.get_mem items i) hfrom hnames
    exact ⟨row, h.mem_stored_edges (List.mem_filterMap.mpr ⟨edge, hedge, hrow⟩), hdescribes,
      hrowFrom, fun j hto => hrowTo _ (List.get_mem items j) hto⟩

/-- **The mapping is lossless and does not depend on the order** exactly when the full names are
different and no two keys are the same. -/
theorem mapsLosslessly_iff (ident : Identity κ) (input : ExtractionInput)
    (items : List (LanguageArtefact κ)) (edges : List DependencyEdge) :
    MapsLosslessly ident input items edges ↔ KeysApart ident input items edges := by
  constructor
  · rintro ⟨horder, key, hkept⟩
    obtain ⟨hnames, hkeys⟩ := nodup_artifactKeys_iff.mp hkept.nodup_artifactKeys
    exact ⟨hnames, hkeys, fun row hrow row' hrow' => edges_eq_of_order
      (fun edges' hperm => horder items edges' (.refl _) hperm) hrow hrow'⟩
  · intro h
    exact ⟨fun items' edges' hitems hedges => h.order hitems hedges, _, h.itemsKept⟩

/-- Without collisions of the hash, different full names and edges that tell apart are enough. -/
theorem keysApart_iff (huuid : Function.Injective ident.deterministicUuid) :
    KeysApart ident input items edges ↔ (items.map (·.symbolFqn)).Nodup ∧
      ∀ row ∈ cachedEdges ident input items edges,
        ∀ row' ∈ cachedEdges ident input items edges, row.edgeKey = row'.edgeKey → row = row' :=
  ⟨fun h => ⟨h.names, h.edges⟩, fun h => ⟨h.1, nodup_handedOut huuid, h.2⟩⟩

/-! ### Two constructors -/

/-- An identity for evaluation, under which nothing collides. -/
def openIdentity : Identity String where
  deterministicUuid := id
  removeModifier _ signature := signature
  kindText := id
  parseKind _ kind := some kind

def constructorItem (line : ℤ) (signature : String) : LanguageArtefact String :=
  { canonicalKind := none
    languageKind := "constructor_declaration"
    name := "<init>"
    startLine := line
    endLine := line
    startByte := 20 * line
    endByte := 20 * line + 8
    signature
    modifiers := []
    docstring := none
    symbolFqn := "A.java::A::<init>"
    parentSymbolFqn := none }

/-- A class with two constructors, which have one full name. -/
def constructorsInput : ExtractionInput :=
  { path := "A.java"
    contentId := "content"
    extractionFingerprint := "fingerprint"
    parserVersion := "parser"
    extractorVersion := "extractor"
    language := "java"
    content := "class A {
A() {}
A(int n) {}
}
"
    fileDocstring := none }

set_option maxRecDepth 4000 in
/-- The entry depends on the order of the constructors, and one of them is not stored. -/
theorem constructors_conflated : ¬MapsLosslessly openIdentity constructorsInput
    [constructorItem 2 "A()", constructorItem 3 "A(int n)"] [] := by
  intro h
  have hswapped := h.1 [constructorItem 3 "A(int n)", constructorItem 2 "A()"] []
    (List.Perm.swap _ _ _) (List.Perm.refl _)
  exact absurd hswapped (by decide)

end ContentCache
end Bitloops
