import Bitloops.CapabilityHost.Events
import Bitloops.Foundation.ChangeLog
import Bitloops.Foundation.OrderBy

/-!
# The diff of a sync

While it runs, a sync collects the files that it classified as added, changed or removed, and,
for each path that it commits, the artefacts before and after the commit.  `intoDiffs` compares
them by symbol.  The membership lemmas say what the diff contains when the records of a path
have different symbols, as the rows of the store have.
-/

namespace Bitloops
namespace Sync

open CapabilityHost

structure DiffArtefactRecord where
  path : String
  artefactId : String
  symbolId : String
  canonicalKind : Option String
  name : String
  deriving DecidableEq, Repr

def DiffArtefactRecord.changedArtefact (record : DiffArtefactRecord) : ChangedArtefact where
  artefactId := record.artefactId
  symbolId := record.symbolId
  path := record.path
  canonicalKind := record.canonicalKind
  name := record.name

def DiffArtefactRecord.removedArtefact (record : DiffArtefactRecord) : RemovedArtefact where
  artefactId := record.artefactId
  symbolId := record.symbolId
  path := record.path

theorem DiffArtefactRecord.changedArtefact_injective {r r' : DiffArtefactRecord}
    (h : r.changedArtefact = r'.changedArtefact) : r = r' := by
  obtain ⟨path, artefactId, symbolId, kind, name⟩ := r
  obtain ⟨path', artefactId', symbolId', kind', name'⟩ := r'
  simp only [DiffArtefactRecord.changedArtefact, ChangedArtefact.mk.injEq] at h
  obtain ⟨rfl, rfl, rfl, rfl, rfl⟩ := h
  rfl

/-! ## Collecting -/

/-- `HashMap<String, Vec<DiffArtefactRecord>>`. -/
abbrev ArtefactsByPath := AList fun _ : String => List DiffArtefactRecord

structure SyncDiffCollector where
  fileDiff : SyncFileDiff
  preArtefacts : ArtefactsByPath
  postArtefacts : ArtefactsByPath

namespace SyncDiffCollector

def new : SyncDiffCollector where
  fileDiff := { added := [], changed := [], removed := [] }
  preArtefacts := ∅
  postArtefacts := ∅

def recordFileAdded (path language contentId : String) (c : SyncDiffCollector) :
    SyncDiffCollector :=
  { c with fileDiff.added := c.fileDiff.added ++ [{ path, language, contentId }] }

def recordFileChanged (path language contentId : String) (c : SyncDiffCollector) :
    SyncDiffCollector :=
  { c with fileDiff.changed := c.fileDiff.changed ++ [{ path, language, contentId }] }

def recordFileRemoved (path : String) (c : SyncDiffCollector) : SyncDiffCollector :=
  { c with fileDiff.removed := c.fileDiff.removed ++ [{ path }] }

end SyncDiffCollector

/-- The records of a path. -/
def artefactsAt (map : ArtefactsByPath) (path : String) : List DiffArtefactRecord :=
  (map.lookup path).getD []

/-- `entry(path).or_default().extend(artefacts)`. -/
def extendEntry (path : String) (artefacts : List DiffArtefactRecord) (map : ArtefactsByPath) :
    ArtefactsByPath :=
  map.insert path (artefactsAt map path ++ artefacts)

@[simp] theorem artefactsAt_empty (path : String) : artefactsAt ∅ path = [] := rfl

theorem artefactsAt_extendEntry (path path' : String) (artefacts : List DiffArtefactRecord)
    (map : ArtefactsByPath) :
    artefactsAt (extendEntry path artefacts map) path' =
      artefactsAt map path' ++ if path' = path then artefacts else [] := by
  by_cases h : path' = path
  · subst h
    simp [artefactsAt, extendEntry]
  · rw [if_neg h, List.append_nil, artefactsAt, extendEntry, AList.lookup_insert_ne h, artefactsAt]

namespace SyncDiffCollector

def recordPreArtefacts (path : String) (artefacts : List DiffArtefactRecord)
    (c : SyncDiffCollector) : SyncDiffCollector :=
  { c with preArtefacts := extendEntry path artefacts c.preArtefacts }

def recordPostArtefacts (path : String) (artefacts : List DiffArtefactRecord)
    (c : SyncDiffCollector) : SyncDiffCollector :=
  { c with postArtefacts := extendEntry path artefacts c.postArtefacts }

/-- The loops that record the artefacts of a commit, one by one. -/
def recordCommit (preArtefacts postArtefacts : List DiffArtefactRecord) (c : SyncDiffCollector) :
    SyncDiffCollector :=
  let c := preArtefacts.foldl (fun c artefact => c.recordPreArtefacts artefact.path [artefact]) c
  postArtefacts.foldl (fun c artefact => c.recordPostArtefacts artefact.path [artefact]) c

end SyncDiffCollector

/-! ## Comparing -/

/-- `by_symbol_id`: the last artefact of a symbol wins. -/
def bySymbolId (artefacts : List DiffArtefactRecord) : AList fun _ : String => DiffArtefactRecord :=
  artefacts.foldl (fun bySymbol artefact => bySymbol.insert artefact.symbolId artefact) ∅

/-- The artefacts of `post` whose symbol `pre` does not have. -/
def addedArtefacts (pre post : List DiffArtefactRecord) : List ChangedArtefact :=
  (intoValues (bySymbolId post)).filterMap fun artefact =>
    match (bySymbolId pre).lookup artefact.symbolId with
    | some _ => none
    | none => some artefact.changedArtefact

/-- The artefacts of `post` whose symbol has another artefact id in `pre`. -/
def changedArtefacts (pre post : List DiffArtefactRecord) : List ChangedArtefact :=
  (intoValues (bySymbolId post)).filterMap fun artefact =>
    match (bySymbolId pre).lookup artefact.symbolId with
    | some before =>
      if before.artefactId ≠ artefact.artefactId then some artefact.changedArtefact else none
    | none => none

/-- The artefacts of `pre` whose symbol `post` does not have. -/
def removedArtefacts (pre post : List DiffArtefactRecord) : List RemovedArtefact :=
  (intoValues (bySymbolId pre)).filterMap fun artefact =>
    if (bySymbolId post).lookup artefact.symbolId = none then some artefact.removedArtefact
    else none

def sortFileDiff (diff : SyncFileDiff) : SyncFileDiff where
  added := orderBy (·.path) diff.added
  changed := orderBy (·.path) diff.changed
  removed := orderBy (·.path) diff.removed

def sortArtefactDiff (diff : SyncArtefactDiff) : SyncArtefactDiff where
  added := orderBy (fun artefact => toLex (artefact.path, artefact.symbolId)) diff.added
  changed := orderBy (fun artefact => toLex (artefact.path, artefact.symbolId)) diff.changed
  removed := orderBy (fun artefact => toLex (artefact.path, artefact.symbolId)) diff.removed

def SyncDiffCollector.intoDiffs (c : SyncDiffCollector) : SyncFileDiff × SyncArtefactDiff :=
  let allPaths := sortDedup (c.preArtefacts.keys ++ c.postArtefacts.keys)
  let compare {α : Type} (f : List DiffArtefactRecord → List DiffArtefactRecord → List α) :=
    allPaths.flatMap fun path =>
      f (artefactsAt c.preArtefacts path) (artefactsAt c.postArtefacts path)
  (sortFileDiff c.fileDiff,
    sortArtefactDiff
      { added := compare addedArtefacts
        changed := compare changedArtefacts
        removed := compare removedArtefacts })

/-! ## What was collected -/

section Collected

variable {c : SyncDiffCollector} {pre post : List DiffArtefactRecord} {path : String}

theorem artefactsAt_foldl_recordPre (artefacts : List DiffArtefactRecord) (path : String)
    (c : SyncDiffCollector) :
    let c' := artefacts.foldl (fun c artefact => c.recordPreArtefacts artefact.path [artefact]) c
    artefactsAt c'.preArtefacts path =
        artefactsAt c.preArtefacts path ++ artefacts.filter (·.path = path) ∧
      c'.postArtefacts = c.postArtefacts ∧ c'.fileDiff = c.fileDiff := by
  induction artefacts generalizing c with
  | nil => simp
  | cons artefact artefacts ih =>
    obtain ⟨hpre, hpost, hfiles⟩ := ih (c.recordPreArtefacts artefact.path [artefact])
    refine ⟨?_, hpost, hfiles⟩
    rw [List.foldl_cons, hpre, SyncDiffCollector.recordPreArtefacts, artefactsAt_extendEntry,
      List.append_assoc, List.filter_cons]
    by_cases h : artefact.path = path
    · simp [h]
    · have : ¬ path = artefact.path := fun h' => h h'.symm
      simp [h, this]

theorem artefactsAt_foldl_recordPost (artefacts : List DiffArtefactRecord) (path : String)
    (c : SyncDiffCollector) :
    let c' := artefacts.foldl (fun c artefact => c.recordPostArtefacts artefact.path [artefact]) c
    artefactsAt c'.postArtefacts path =
        artefactsAt c.postArtefacts path ++ artefacts.filter (·.path = path) ∧
      c'.preArtefacts = c.preArtefacts ∧ c'.fileDiff = c.fileDiff := by
  induction artefacts generalizing c with
  | nil => simp
  | cons artefact artefacts ih =>
    obtain ⟨hpost, hpre, hfiles⟩ := ih (c.recordPostArtefacts artefact.path [artefact])
    refine ⟨?_, hpre, hfiles⟩
    rw [List.foldl_cons, hpost, SyncDiffCollector.recordPostArtefacts, artefactsAt_extendEntry,
      List.append_assoc, List.filter_cons]
    by_cases h : artefact.path = path
    · simp [h]
    · have : ¬ path = artefact.path := fun h' => h h'.symm
      simp [h, this]

/-- Recording a commit appends its artefacts to those of their paths. -/
theorem artefactsAt_pre_recordCommit :
    artefactsAt (c.recordCommit pre post).preArtefacts path =
      artefactsAt c.preArtefacts path ++ pre.filter (·.path = path) := by
  have hpre := artefactsAt_foldl_recordPre pre path c
  have hpost := artefactsAt_foldl_recordPost post path
    (pre.foldl (fun c artefact => c.recordPreArtefacts artefact.path [artefact]) c)
  rw [SyncDiffCollector.recordCommit, hpost.2.1]
  exact hpre.1

theorem artefactsAt_post_recordCommit :
    artefactsAt (c.recordCommit pre post).postArtefacts path =
      artefactsAt c.postArtefacts path ++ post.filter (·.path = path) := by
  have hpre := artefactsAt_foldl_recordPre pre path c
  have hpost := artefactsAt_foldl_recordPost post path
    (pre.foldl (fun c artefact => c.recordPreArtefacts artefact.path [artefact]) c)
  rw [SyncDiffCollector.recordCommit, hpost.1, hpre.2.1]

@[simp] theorem fileDiff_recordCommit : (c.recordCommit pre post).fileDiff = c.fileDiff := by
  have hpre := artefactsAt_foldl_recordPre pre "" c
  have hpost := artefactsAt_foldl_recordPost post ""
    (pre.foldl (fun c artefact => c.recordPreArtefacts artefact.path [artefact]) c)
  rw [SyncDiffCollector.recordCommit, hpost.2.2, hpre.2.2]

end Collected

/-! ## What the diff contains -/

section Contains

variable {artefacts pre post : List DiffArtefactRecord} {c : SyncDiffCollector}

/-- When the symbols are different, a symbol is looked up as its only artefact. -/
theorem lookup_bySymbolId (huniq : (artefacts.map (·.symbolId)).Nodup) {symbolId : String}
    {r : DiffArtefactRecord} :
    (bySymbolId artefacts).lookup symbolId = some r ↔ r ∈ artefacts ∧ r.symbolId = symbolId := by
  rw [show bySymbolId artefacts = latestByKey (·.symbolId) artefacts from rfl, lookup_latestByKey]
  exact lastRow_eq_some_of_nodup huniq

theorem lookup_bySymbolId_eq_none (huniq : (artefacts.map (·.symbolId)).Nodup)
    {symbolId : String} :
    (bySymbolId artefacts).lookup symbolId = none ↔ ∀ r ∈ artefacts, r.symbolId ≠ symbolId := by
  rw [Option.eq_none_iff_forall_ne_some]
  constructor
  · exact fun h r hr hsymbol => h r ((lookup_bySymbolId huniq).mpr ⟨hr, hsymbol⟩)
  · intro h r hlookup
    obtain ⟨hr, hsymbol⟩ := (lookup_bySymbolId huniq).mp hlookup
    exact h r hr hsymbol

theorem mem_intoValues_bySymbolId (huniq : (artefacts.map (·.symbolId)).Nodup)
    {r : DiffArtefactRecord} : r ∈ intoValues (bySymbolId artefacts) ↔ r ∈ artefacts := by
  rw [mem_intoValues]
  constructor
  · rintro ⟨symbolId, hlookup⟩
    exact ((lookup_bySymbolId huniq).mp hlookup).1
  · exact fun hr => ⟨r.symbolId, (lookup_bySymbolId huniq).mpr ⟨hr, rfl⟩⟩

theorem mem_addedArtefacts (hpre : (pre.map (·.symbolId)).Nodup)
    (hpost : (post.map (·.symbolId)).Nodup) {a : ChangedArtefact} :
    a ∈ addedArtefacts pre post ↔
      ∃ r ∈ post, (∀ r' ∈ pre, r'.symbolId ≠ r.symbolId) ∧ r.changedArtefact = a := by
  simp only [addedArtefacts, List.mem_filterMap, mem_intoValues_bySymbolId hpost]
  refine exists_congr fun r => and_congr_right fun _ => ?_
  cases hlookup : (bySymbolId pre).lookup r.symbolId with
  | none =>
    have hnone := (lookup_bySymbolId_eq_none hpre).mp hlookup
    simp only [Option.some.injEq]
    exact ⟨fun h => ⟨hnone, h⟩, fun h => h.2⟩
  | some r' =>
    obtain ⟨hr', hsymbol⟩ := (lookup_bySymbolId hpre).mp hlookup
    exact ⟨fun h => (nomatch h), fun h => absurd hsymbol (h.1 r' hr')⟩

theorem mem_changedArtefacts (hpre : (pre.map (·.symbolId)).Nodup)
    (hpost : (post.map (·.symbolId)).Nodup) {a : ChangedArtefact} :
    a ∈ changedArtefacts pre post ↔
      ∃ r ∈ post, (∃ r' ∈ pre, r'.symbolId = r.symbolId ∧ r'.artefactId ≠ r.artefactId) ∧
        r.changedArtefact = a := by
  simp only [changedArtefacts, List.mem_filterMap, mem_intoValues_bySymbolId hpost]
  refine exists_congr fun r => and_congr_right fun _ => ?_
  cases hlookup : (bySymbolId pre).lookup r.symbolId with
  | none =>
    have hnone := (lookup_bySymbolId_eq_none hpre).mp hlookup
    refine ⟨fun h => (nomatch h), ?_⟩
    rintro ⟨⟨r', hr', hsymbol, -⟩, -⟩
    exact absurd hsymbol (hnone r' hr')
  | some r' =>
    obtain ⟨hr', hsymbol⟩ := (lookup_bySymbolId hpre).mp hlookup
    have honly : ∀ x ∈ pre, x.symbolId = r.symbolId → x = r' := fun x hx hxr =>
      List.inj_on_of_nodup_map hpre hx hr' (hxr.trans hsymbol.symm)
    dsimp only
    constructor
    · intro h
      split_ifs at h with hid
      exact ⟨⟨r', hr', hsymbol, hid⟩, Option.some.inj h⟩
    · rintro ⟨⟨x, hx, hxr, hid⟩, rfl⟩
      rw [honly x hx hxr] at hid
      rw [if_pos hid]

theorem mem_removedArtefacts (hpre : (pre.map (·.symbolId)).Nodup)
    (hpost : (post.map (·.symbolId)).Nodup) {a : RemovedArtefact} :
    a ∈ removedArtefacts pre post ↔
      ∃ r ∈ pre, (∀ r' ∈ post, r'.symbolId ≠ r.symbolId) ∧ r.removedArtefact = a := by
  simp only [removedArtefacts, List.mem_filterMap, mem_intoValues_bySymbolId hpre]
  refine exists_congr fun r => and_congr_right fun _ => ?_
  rw [← lookup_bySymbolId_eq_none hpost]
  by_cases hnone : (bySymbolId post).lookup r.symbolId = none
  · rw [if_pos hnone, Option.some.injEq]
    exact ⟨fun h => ⟨hnone, h⟩, fun h => h.2⟩
  · rw [if_neg hnone]
    exact ⟨fun h => (nomatch h), fun h => absurd h.1 hnone⟩

/-- The records of each path have different symbols. -/
def SymbolsDiffer (map : ArtefactsByPath) : Prop :=
  ∀ path, ((artefactsAt map path).map (·.symbolId)).Nodup

theorem artefactsAt_eq_nil {map : ArtefactsByPath} {path : String} (h : path ∉ map.keys) :
    artefactsAt map path = [] := by
  rw [artefactsAt, AList.lookup_eq_none.mpr h, Option.getD_none]

/-- A comparison that finds nothing between empty records finds what it finds at some path. -/
theorem mem_flatMap_allPaths {α : Type}
    {f : List DiffArtefactRecord → List DiffArtefactRecord → List α} (hnil : f [] [] = []) {a : α} :
    a ∈ (sortDedup (c.preArtefacts.keys ++ c.postArtefacts.keys)).flatMap (fun path =>
        f (artefactsAt c.preArtefacts path) (artefactsAt c.postArtefacts path)) ↔
      ∃ path, a ∈ f (artefactsAt c.preArtefacts path) (artefactsAt c.postArtefacts path) := by
  simp only [List.mem_flatMap, mem_sortDedup, List.mem_append]
  constructor
  · rintro ⟨path, -, ha⟩
    exact ⟨path, ha⟩
  · rintro ⟨path, ha⟩
    refine ⟨path, ?_, ha⟩
    by_cases hpre : path ∈ c.preArtefacts.keys
    · exact .inl hpre
    · by_cases hpost : path ∈ c.postArtefacts.keys
      · exact .inr hpost
      · rw [artefactsAt_eq_nil hpre, artefactsAt_eq_nil hpost, hnil] at ha
        exact absurd ha List.not_mem_nil

theorem mem_added_intoDiffs (hpre : SymbolsDiffer c.preArtefacts)
    (hpost : SymbolsDiffer c.postArtefacts) {a : ChangedArtefact} :
    a ∈ c.intoDiffs.2.added ↔
      ∃ path, ∃ r ∈ artefactsAt c.postArtefacts path,
        (∀ r' ∈ artefactsAt c.preArtefacts path, r'.symbolId ≠ r.symbolId) ∧
          r.changedArtefact = a := by
  simp only [SyncDiffCollector.intoDiffs, sortArtefactDiff, mem_orderBy]
  rw [mem_flatMap_allPaths (by rfl)]
  exact exists_congr fun path => mem_addedArtefacts (hpre path) (hpost path)

theorem mem_changed_intoDiffs (hpre : SymbolsDiffer c.preArtefacts)
    (hpost : SymbolsDiffer c.postArtefacts) {a : ChangedArtefact} :
    a ∈ c.intoDiffs.2.changed ↔
      ∃ path, ∃ r ∈ artefactsAt c.postArtefacts path,
        (∃ r' ∈ artefactsAt c.preArtefacts path,
          r'.symbolId = r.symbolId ∧ r'.artefactId ≠ r.artefactId) ∧ r.changedArtefact = a := by
  simp only [SyncDiffCollector.intoDiffs, sortArtefactDiff, mem_orderBy]
  rw [mem_flatMap_allPaths (by rfl)]
  exact exists_congr fun path => mem_changedArtefacts (hpre path) (hpost path)

theorem mem_removed_intoDiffs (hpre : SymbolsDiffer c.preArtefacts)
    (hpost : SymbolsDiffer c.postArtefacts) {a : RemovedArtefact} :
    a ∈ c.intoDiffs.2.removed ↔
      ∃ path, ∃ r ∈ artefactsAt c.preArtefacts path,
        (∀ r' ∈ artefactsAt c.postArtefacts path, r'.symbolId ≠ r.symbolId) ∧
          r.removedArtefact = a := by
  simp only [SyncDiffCollector.intoDiffs, sortArtefactDiff, mem_orderBy]
  rw [mem_flatMap_allPaths (by rfl)]
  exact exists_congr fun path => mem_removedArtefacts (hpre path) (hpost path)

end Contains

end Sync
end Bitloops
