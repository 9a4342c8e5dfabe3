import Bitloops.Sync.DiffCollector
import Mathlib

/-!
# The diff is a correct delta

`collect` records the files and artefacts of a sync in some order.  Where each artefact is recorded
under its own path, and no symbol twice at one path, the artefact diff is sorted, names every
symbol of a path at most once, and does not depend on the order.  Applied to the union of the
artefacts before it gives the union of those after, up to artefacts whose kind or name changed
while their artefact id stayed.
-/

namespace Bitloops
namespace Sync

open CapabilityHost

/-! ## Recordings -/

/-- What is recorded while a sync runs. -/
inductive DiffRecording where
  | fileAdded (path language contentId : String)
  | fileChanged (path language contentId : String)
  | fileRemoved (path : String)
  | preArtefacts (path : String) (artefacts : List DiffArtefactRecord)
  | postArtefacts (path : String) (artefacts : List DiffArtefactRecord)

def SyncDiffCollector.record (c : SyncDiffCollector) : DiffRecording → SyncDiffCollector
  | .fileAdded path language contentId => c.recordFileAdded path language contentId
  | .fileChanged path language contentId => c.recordFileChanged path language contentId
  | .fileRemoved path => c.recordFileRemoved path
  | .preArtefacts path artefacts => c.recordPreArtefacts path artefacts
  | .postArtefacts path artefacts => c.recordPostArtefacts path artefacts

def collect (recordings : List DiffRecording) : SyncDiffCollector :=
  recordings.foldl SyncDiffCollector.record .new

namespace DiffRecording

def addedFile : DiffRecording → Option ChangedFile
  | fileAdded path language contentId => some { path, language, contentId }
  | _ => none

def changedFile : DiffRecording → Option ChangedFile
  | fileChanged path language contentId => some { path, language, contentId }
  | _ => none

def removedFile : DiffRecording → Option RemovedFile
  | fileRemoved path => some { path }
  | _ => none

def pre : DiffRecording → List DiffArtefactRecord
  | preArtefacts _ artefacts => artefacts
  | _ => []

def post : DiffRecording → List DiffArtefactRecord
  | postArtefacts _ artefacts => artefacts
  | _ => []

/-- The artefacts are recorded under their own path. -/
def OwnPath : DiffRecording → Prop
  | preArtefacts path artefacts | postArtefacts path artefacts =>
    ∀ artefact ∈ artefacts, artefact.path = path
  | _ => True

end DiffRecording

/-- The artefacts before, of all paths. -/
def preRecords (recordings : List DiffRecording) : List DiffArtefactRecord :=
  recordings.flatMap (·.pre)

/-- The artefacts after, of all paths. -/
def postRecords (recordings : List DiffRecording) : List DiffArtefactRecord :=
  recordings.flatMap (·.post)

/-- A symbol of a path. -/
abbrev SymbolKey := String ×ₗ String

def DiffArtefactRecord.key (record : DiffArtefactRecord) : SymbolKey :=
  toLex (record.path, record.symbolId)

def changedKey (artefact : ChangedArtefact) : SymbolKey :=
  toLex (artefact.path, artefact.symbolId)

def removedKey (artefact : RemovedArtefact) : SymbolKey :=
  toLex (artefact.path, artefact.symbolId)

/-- A family of artefact maps and of files. -/
structure Recorded (recordings : List DiffRecording) : Prop where
  ownPath : ∀ recording ∈ recordings, recording.OwnPath
  preKeys : ((preRecords recordings).map (·.key)).Nodup
  postKeys : ((postRecords recordings).map (·.key)).Nodup
  addedPaths : ((recordings.filterMap (·.addedFile)).map (·.path)).Nodup
  changedPaths : ((recordings.filterMap (·.changedFile)).map (·.path)).Nodup
  removedPaths : ((recordings.filterMap (·.removedFile)).map (·.path)).Nodup

/-! ## Deltas -/

/-- The union of the maps, with an artefact under each symbol of a path. -/
def unionOf (records : List DiffArtefactRecord) (key : SymbolKey) : Option ChangedArtefact :=
  (findRow (·.key) key records).map (·.changedArtefact)

/-- The artefact id under a symbol of a path. -/
def artefactIdOf (artefacts : SymbolKey → Option ChangedArtefact) (key : SymbolKey) :
    Option String :=
  (artefacts key).map (·.artefactId)

/-- What the diff leaves under the symbols that it names. -/
def diffChanges (diff : SyncArtefactDiff) : List (SymbolKey × Option ChangedArtefact) :=
  diff.removed.map (fun artefact => (removedKey artefact, none)) ++
    (diff.added ++ diff.changed).map fun artefact => (changedKey artefact, some artefact)

def applyArtefactDiff (diff : SyncArtefactDiff) (artefacts : SymbolKey → Option ChangedArtefact) :
    SymbolKey → Option ChangedArtefact :=
  applyChanges (·.1) (·.2) (diffChanges diff) artefacts

/-- The diff is a delta from the artefacts `pre` to the artefacts `post`. -/
structure CorrectDelta (pre post : List DiffArtefactRecord) (diff : SyncArtefactDiff) :
    Prop where
  /-- The lists are sorted, without repetitions. -/
  sorted : diff.added.Pairwise (fun a b => changedKey a < changedKey b) ∧
    diff.changed.Pairwise (fun a b => changedKey a < changedKey b) ∧
    diff.removed.Pairwise fun a b => removedKey a < removedKey b
  /-- No symbol of a path is in two of them. -/
  disjoint : (diff.added.map changedKey).Disjoint (diff.changed.map changedKey) ∧
    (diff.added.map changedKey).Disjoint (diff.removed.map removedKey) ∧
    (diff.changed.map changedKey).Disjoint (diff.removed.map removedKey)
  /-- What is reported changed was another artefact before. -/
  changed_ne : ∀ artefact ∈ diff.changed, ∃ before,
    unionOf pre (changedKey artefact) = some before ∧ before.artefactId ≠ artefact.artefactId
  /-- The delta leads to the artefact ids after the sync. -/
  artefactIds : artefactIdOf (applyArtefactDiff diff (unionOf pre)) = artefactIdOf (unionOf post)
  /-- It leads to the artefacts after the sync, unless one of them changed under its id. -/
  artefacts : applyArtefactDiff diff (unionOf pre) = unionOf post ↔
    ∀ key, artefactIdOf (unionOf pre) key = artefactIdOf (unionOf post) key →
      unionOf pre key = unionOf post key

/-! ## What is collected -/

section Collected

variable {recordings : List DiffRecording} {c : SyncDiffCollector} {path : String}

theorem fileDiff_foldl_record (recordings : List DiffRecording) (c : SyncDiffCollector) :
    let diff := (recordings.foldl SyncDiffCollector.record c).fileDiff
    diff.added = c.fileDiff.added ++ recordings.filterMap (·.addedFile) ∧
      diff.changed = c.fileDiff.changed ++ recordings.filterMap (·.changedFile) ∧
      diff.removed = c.fileDiff.removed ++ recordings.filterMap (·.removedFile) := by
  induction recordings generalizing c with
  | nil => simp
  | cons recording recordings ih =>
    obtain ⟨hadded, hchanged, hremoved⟩ := ih (c.record recording)
    rw [List.foldl_cons]
    dsimp only
    rw [hadded, hchanged, hremoved]
    cases recording <;>
      simp [SyncDiffCollector.record, SyncDiffCollector.recordFileAdded,
        SyncDiffCollector.recordFileChanged, SyncDiffCollector.recordFileRemoved,
        SyncDiffCollector.recordPreArtefacts, SyncDiffCollector.recordPostArtefacts,
        DiffRecording.addedFile, DiffRecording.changedFile, DiffRecording.removedFile]

theorem filter_ownPath {artefacts : List DiffArtefactRecord} {path' : String}
    (h : ∀ artefact ∈ artefacts, artefact.path = path') :
    (if path = path' then artefacts else []) = artefacts.filter (·.path = path) := by
  split_ifs with heq
  · rw [List.filter_eq_self.mpr]
    exact fun artefact hmem => decide_eq_true ((h artefact hmem).trans heq.symm)
  · refine (List.filter_eq_nil_iff.mpr fun artefact hmem => ?_).symm
    rw [h artefact hmem]
    simpa using Ne.symm heq

theorem artefactsAt_foldl_record (hown : ∀ recording ∈ recordings, recording.OwnPath)
    (c : SyncDiffCollector) :
    artefactsAt (recordings.foldl SyncDiffCollector.record c).preArtefacts path =
        artefactsAt c.preArtefacts path ++ (preRecords recordings).filter (·.path = path) ∧
      artefactsAt (recordings.foldl SyncDiffCollector.record c).postArtefacts path =
        artefactsAt c.postArtefacts path ++ (postRecords recordings).filter (·.path = path) := by
  induction recordings generalizing c with
  | nil => simp [preRecords, postRecords]
  | cons recording recordings ih =>
    have hhead := hown recording List.mem_cons_self
    obtain ⟨hpre, hpost⟩ := ih (fun r hr => hown r (List.mem_cons_of_mem _ hr))
      (c.record recording)
    rw [List.foldl_cons, hpre, hpost]
    simp only [preRecords, postRecords, List.flatMap_cons, List.filter_append]
    cases recording with
    | preArtefacts path' artefacts =>
      have hextend := artefactsAt_extendEntry path' path artefacts c.preArtefacts
      rw [filter_ownPath hhead] at hextend
      refine ⟨?_, rfl⟩
      show artefactsAt (extendEntry path' artefacts c.preArtefacts) path ++ _ = _
      rw [hextend, List.append_assoc]
      rfl
    | postArtefacts path' artefacts =>
      have hextend := artefactsAt_extendEntry path' path artefacts c.postArtefacts
      rw [filter_ownPath hhead] at hextend
      refine ⟨rfl, ?_⟩
      show artefactsAt (extendEntry path' artefacts c.postArtefacts) path ++ _ = _
      rw [hextend, List.append_assoc]
      rfl
    | _ => exact ⟨rfl, rfl⟩

/-- The records of a path are those of all paths that lie at it. -/
theorem artefactsAt_collect (h : Recorded recordings) (path : String) :
    artefactsAt (collect recordings).preArtefacts path =
        (preRecords recordings).filter (·.path = path) ∧
      artefactsAt (collect recordings).postArtefacts path =
        (postRecords recordings).filter (·.path = path) :=
  artefactsAt_foldl_record h.ownPath .new

theorem nodup_symbolIds {records : List DiffArtefactRecord}
    (h : (records.map (·.key)).Nodup) (path : String) :
    ((records.filter (·.path = path)).map (·.symbolId)).Nodup := by
  have hrecords : (records.filter (·.path = path)).Nodup := (List.Nodup.of_map _ h).filter _
  refine hrecords.map_on fun r hr r' hr' hsymbol => ?_
  obtain ⟨hmem, hpath⟩ := List.mem_filter.mp hr
  obtain ⟨hmem', hpath'⟩ := List.mem_filter.mp hr'
  refine List.inj_on_of_nodup_map h hmem hmem' ?_
  rw [DiffArtefactRecord.key, DiffArtefactRecord.key, of_decide_eq_true hpath,
    of_decide_eq_true hpath', hsymbol]

theorem symbolsDiffer_collect (h : Recorded recordings) :
    SymbolsDiffer (collect recordings).preArtefacts ∧
      SymbolsDiffer (collect recordings).postArtefacts := by
  refine ⟨fun path => ?_, fun path => ?_⟩
  · rw [(artefactsAt_collect h path).1]
    exact nodup_symbolIds h.preKeys path
  · rw [(artefactsAt_collect h path).2]
    exact nodup_symbolIds h.postKeys path

end Collected

/-! ## What the diff contains -/

section Contains

variable {recordings : List DiffRecording}

theorem key_eq_iff {r r' : DiffArtefactRecord} :
    r'.key = r.key ↔ r'.path = r.path ∧ r'.symbolId = r.symbolId := by
  rw [DiffArtefactRecord.key, DiffArtefactRecord.key, toLex_inj, Prod.mk.injEq]

theorem mem_added_collect (h : Recorded recordings) {a : ChangedArtefact} :
    a ∈ (collect recordings).intoDiffs.2.added ↔
      ∃ r ∈ postRecords recordings, (∀ r' ∈ preRecords recordings, r'.key ≠ r.key) ∧
        r.changedArtefact = a := by
  obtain ⟨hpre, hpost⟩ := symbolsDiffer_collect h
  rw [mem_added_intoDiffs hpre hpost]
  simp only [artefactsAt_collect h, List.mem_filter, decide_eq_true_eq, ne_eq, key_eq_iff]
  constructor
  · rintro ⟨path, r, ⟨hr, rfl⟩, hnone, ha⟩
    exact ⟨r, hr, fun r' hr' hkey => hnone r' ⟨hr', hkey.1⟩ hkey.2, ha⟩
  · rintro ⟨r, hr, hnone, ha⟩
    exact ⟨r.path, r, ⟨hr, rfl⟩, fun r' hr' hsymbol => hnone r' hr'.1 ⟨hr'.2, hsymbol⟩, ha⟩

theorem mem_changed_collect (h : Recorded recordings) {a : ChangedArtefact} :
    a ∈ (collect recordings).intoDiffs.2.changed ↔
      ∃ r ∈ postRecords recordings,
        (∃ r' ∈ preRecords recordings, r'.key = r.key ∧ r'.artefactId ≠ r.artefactId) ∧
          r.changedArtefact = a := by
  obtain ⟨hpre, hpost⟩ := symbolsDiffer_collect h
  rw [mem_changed_intoDiffs hpre hpost]
  simp only [artefactsAt_collect h, List.mem_filter, decide_eq_true_eq, key_eq_iff]
  constructor
  · rintro ⟨path, r, ⟨hr, rfl⟩, ⟨r', ⟨hr', hpath⟩, hsymbol, hid⟩, ha⟩
    exact ⟨r, hr, ⟨r', hr', ⟨hpath, hsymbol⟩, hid⟩, ha⟩
  · rintro ⟨r, hr, ⟨r', hr', ⟨hpath, hsymbol⟩, hid⟩, ha⟩
    exact ⟨r.path, r, ⟨hr, rfl⟩, ⟨r', ⟨hr', hpath⟩, hsymbol, hid⟩, ha⟩

theorem mem_removed_collect (h : Recorded recordings) {a : RemovedArtefact} :
    a ∈ (collect recordings).intoDiffs.2.removed ↔
      ∃ r ∈ preRecords recordings, (∀ r' ∈ postRecords recordings, r'.key ≠ r.key) ∧
        r.removedArtefact = a := by
  obtain ⟨hpre, hpost⟩ := symbolsDiffer_collect h
  rw [mem_removed_intoDiffs hpre hpost]
  simp only [artefactsAt_collect h, List.mem_filter, decide_eq_true_eq, ne_eq, key_eq_iff]
  constructor
  · rintro ⟨path, r, ⟨hr, rfl⟩, hnone, ha⟩
    exact ⟨r, hr, fun r' hr' hkey => hnone r' ⟨hr', hkey.1⟩ hkey.2, ha⟩
  · rintro ⟨r, hr, hnone, ha⟩
    exact ⟨r.path, r, ⟨hr, rfl⟩, fun r' hr' hsymbol => hnone r' hr'.1 ⟨hr'.2, hsymbol⟩, ha⟩

/-- What a filter keeps has the keys of the list in its order. -/
theorem sublist_map_filterMap {α β κ : Type*} {f : α → Option β} (key : α → κ) (key' : β → κ)
    (h : ∀ a b, f a = some b → key' b = key a) (l : List α) :
    ((l.filterMap f).map key').Sublist (l.map key) := by
  induction l with
  | nil => exact List.Sublist.refl _
  | cons a l ih =>
    rw [List.filterMap_cons]
    cases hf : f a with
    | none => exact ih.cons _
    | some b =>
      rw [List.map_cons, List.map_cons, h a b hf]
      exact ih.cons_cons _

/-- A comparison that takes one artefact for each symbol has no key twice. -/
theorem nodup_compare {α : Type} {f : List DiffArtefactRecord → List DiffArtefactRecord → List α}
    {key : α → SymbolKey} {c : SyncDiffCollector}
    (hsymbols : ∀ pre post, ((f pre post).map fun a => (ofLex (key a)).2).Nodup)
    (hpath : ∀ path, ∀ a ∈ f (artefactsAt c.preArtefacts path) (artefactsAt c.postArtefacts path),
      (ofLex (key a)).1 = path) :
    (((sortDedup (c.preArtefacts.keys ++ c.postArtefacts.keys)).flatMap fun path =>
      f (artefactsAt c.preArtefacts path) (artefactsAt c.postArtefacts path)).map key).Nodup := by
  rw [List.map_flatMap, List.nodup_flatMap]
  have hpaths : (sortDedup (c.preArtefacts.keys ++ c.postArtefacts.keys)).Nodup :=
    List.nodup_dedup _
  refine ⟨fun path _ => ?_, hpaths.pairwise_of_forall_ne fun path _ path' _ hne => ?_⟩
  · refine List.Nodup.of_map (fun k : SymbolKey => (ofLex k).2) ?_
    rw [List.map_map]
    exact hsymbols _ _
  · rw [Function.onFun, List.disjoint_left]
    intro k hk hk'
    obtain ⟨a, ha, rfl⟩ := List.mem_map.mp hk
    obtain ⟨a', ha', heq⟩ := List.mem_map.mp hk'
    refine hne ?_
    rw [← hpath path a ha, ← hpath path' a' ha', heq]

theorem symbolIds_intoValues (artefacts : List DiffArtefactRecord) :
    ((intoValues (bySymbolId artefacts)).map (·.symbolId)).Nodup :=
  nodup_intoValues_latestByKey

theorem path_of_mem_artefactsAt (h : Recorded recordings) {path : String}
    {r : DiffArtefactRecord}
    (hr : r ∈ artefactsAt (collect recordings).preArtefacts path ∨
      r ∈ artefactsAt (collect recordings).postArtefacts path) : r.path = path := by
  rw [(artefactsAt_collect h path).1, (artefactsAt_collect h path).2] at hr
  rcases hr with hr | hr <;> exact of_decide_eq_true (List.mem_filter.mp hr).2

theorem nodup_added_collect (h : Recorded recordings) :
    ((collect recordings).intoDiffs.2.added.map changedKey).Nodup := by
  obtain ⟨hpre, hpost⟩ := symbolsDiffer_collect h
  refine (((perm_orderBy _ _).map changedKey).nodup_iff).mpr (nodup_compare (fun pre post => ?_)
    fun path a ha => ?_)
  · refine (sublist_map_filterMap (·.symbolId) _ (fun r a ha => ?_) _).nodup
      (symbolIds_intoValues post)
    cases hlookup : (bySymbolId pre).lookup r.symbolId with
    | none =>
      rw [hlookup] at ha
      obtain rfl := Option.some.inj ha
      rfl
    | some before =>
      rw [hlookup] at ha
      exact nomatch ha
  · obtain ⟨r, hr, -, rfl⟩ := (mem_addedArtefacts (hpre path) (hpost path)).mp ha
    exact path_of_mem_artefactsAt h (.inr hr)

theorem nodup_changed_collect (h : Recorded recordings) :
    ((collect recordings).intoDiffs.2.changed.map changedKey).Nodup := by
  obtain ⟨hpre, hpost⟩ := symbolsDiffer_collect h
  refine (((perm_orderBy _ _).map changedKey).nodup_iff).mpr (nodup_compare (fun pre post => ?_)
    fun path a ha => ?_)
  · refine (sublist_map_filterMap (·.symbolId) _ (fun r a ha => ?_) _).nodup
      (symbolIds_intoValues post)
    cases hlookup : (bySymbolId pre).lookup r.symbolId with
    | none =>
      rw [hlookup] at ha
      exact nomatch ha
    | some before =>
      rw [hlookup] at ha
      dsimp only at ha
      split_ifs at ha
      obtain rfl := Option.some.inj ha
      rfl
  · obtain ⟨r, hr, -, rfl⟩ := (mem_changedArtefacts (hpre path) (hpost path)).mp ha
    exact path_of_mem_artefactsAt h (.inr hr)

theorem nodup_removed_collect (h : Recorded recordings) :
    ((collect recordings).intoDiffs.2.removed.map removedKey).Nodup := by
  obtain ⟨hpre, hpost⟩ := symbolsDiffer_collect h
  refine (((perm_orderBy _ _).map removedKey).nodup_iff).mpr (nodup_compare (fun pre post => ?_)
    fun path a ha => ?_)
  · refine (sublist_map_filterMap (·.symbolId) _ (fun r a ha => ?_) _).nodup
      (symbolIds_intoValues pre)
    split_ifs at ha
    obtain rfl := Option.some.inj ha
    rfl
  · obtain ⟨r, hr, -, rfl⟩ := (mem_removedArtefacts (hpre path) (hpost path)).mp ha
    exact path_of_mem_artefactsAt h (.inl hr)

end Contains

/-! ## The delta -/

section Delta

variable {recordings recordings' : List DiffRecording}

/-- A sorted list without repetitions ascends. -/
theorem pairwise_lt_of_nodup {α : Type*} {key : α → SymbolKey} {l : List α}
    (hsorted : l.Pairwise fun a b => key a ≤ key b) (hnodup : (l.map key).Nodup) :
    l.Pairwise fun a b => key a < key b := by
  have hne : l.Pairwise fun a b => key a ≠ key b := List.pairwise_map.mp hnodup
  exact (hsorted.and hne).imp fun h => lt_of_le_of_ne h.1 h.2

theorem unionOf_eq_some {records : List DiffArtefactRecord}
    (hnodup : (records.map (·.key)).Nodup) {key : SymbolKey} {a : ChangedArtefact} :
    unionOf records key = some a ↔ ∃ r ∈ records, r.key = key ∧ r.changedArtefact = a := by
  constructor
  · intro h
    obtain ⟨r, hfound, rfl⟩ := Option.map_eq_some_iff.mp h
    obtain ⟨hr, hkey⟩ := mem_of_findRow hfound
    exact ⟨r, hr, hkey, rfl⟩
  · rintro ⟨r, hr, rfl, rfl⟩
    cases hfound : findRow (·.key) r.key records with
    | none => exact absurd rfl (ne_of_findRow_none hfound hr)
    | some r' =>
      obtain ⟨hr', hkey⟩ := mem_of_findRow hfound
      rw [unionOf, hfound, Option.map_some, List.inj_on_of_nodup_map hnodup hr' hr hkey]

theorem unionOf_eq_none {records : List DiffArtefactRecord} {key : SymbolKey} :
    unionOf records key = none ↔ ∀ r ∈ records, r.key ≠ key := by
  rw [unionOf, Option.map_eq_none_iff]
  exact ⟨fun h r hr => ne_of_findRow_none h hr,
    fun h => List.find?_eq_none.mpr fun r hr => by simpa using h r hr⟩

theorem pairwise_collect (h : Recorded recordings) :
    (collect recordings).intoDiffs.2.added.Pairwise
        (fun a b => changedKey a < changedKey b) ∧
      (collect recordings).intoDiffs.2.changed.Pairwise
        (fun a b => changedKey a < changedKey b) ∧
      (collect recordings).intoDiffs.2.removed.Pairwise
        fun a b => removedKey a < removedKey b :=
  ⟨pairwise_lt_of_nodup (pairwise_orderBy _ _) (nodup_added_collect h),
    pairwise_lt_of_nodup (pairwise_orderBy _ _) (nodup_changed_collect h),
    pairwise_lt_of_nodup (pairwise_orderBy _ _) (nodup_removed_collect h)⟩

theorem disjoint_collect (h : Recorded recordings) :
    let diff := (collect recordings).intoDiffs.2
    (diff.added.map changedKey).Disjoint (diff.changed.map changedKey) ∧
      (diff.added.map changedKey).Disjoint (diff.removed.map removedKey) ∧
      (diff.changed.map changedKey).Disjoint (diff.removed.map removedKey) := by
  refine ⟨?_, ?_, ?_⟩ <;> refine List.disjoint_left.mpr fun key hkey hkey' => ?_ <;>
    obtain ⟨a, ha, rfl⟩ := List.mem_map.mp hkey <;>
    obtain ⟨a', ha', heq⟩ := List.mem_map.mp hkey'
  · obtain ⟨r, -, hnone, rfl⟩ := (mem_added_collect h).mp ha
    obtain ⟨r', -, ⟨before, hbefore, hsame, -⟩, rfl⟩ := (mem_changed_collect h).mp ha'
    exact hnone before hbefore (hsame.trans heq)
  · obtain ⟨r, -, hnone, rfl⟩ := (mem_added_collect h).mp ha
    obtain ⟨r', hr', -, rfl⟩ := (mem_removed_collect h).mp ha'
    exact hnone r' hr' heq
  · obtain ⟨r, hr, -, rfl⟩ := (mem_changed_collect h).mp ha
    obtain ⟨r', -, hnone, rfl⟩ := (mem_removed_collect h).mp ha'
    exact hnone r hr heq.symm

theorem mem_diffChanges {diff : SyncArtefactDiff} {key : SymbolKey}
    {value : Option ChangedArtefact} :
    (key, value) ∈ diffChanges diff ↔
      (∃ a ∈ diff.removed, removedKey a = key ∧ value = none) ∨
        ∃ a, (a ∈ diff.added ∨ a ∈ diff.changed) ∧ changedKey a = key ∧ value = some a := by
  simp only [diffChanges, List.mem_append, List.mem_map, Prod.mk.injEq, eq_comm]

/-- The diff names the symbols whose artefact id changes, with what they become. -/
theorem mem_diffChanges_collect (h : Recorded recordings) {key : SymbolKey}
    {value : Option ChangedArtefact} :
    (key, value) ∈ diffChanges (collect recordings).intoDiffs.2 ↔
      artefactIdOf (unionOf (preRecords recordings)) key ≠
          artefactIdOf (unionOf (postRecords recordings)) key ∧
        value = unionOf (postRecords recordings) key := by
  have hpre := fun a => @unionOf_eq_some _ h.preKeys key a
  have hpost := fun a => @unionOf_eq_some _ h.postKeys key a
  rw [mem_diffChanges]
  constructor
  · rintro (⟨a, ha, hkey, rfl⟩ | ⟨a, ha | ha, hkey, rfl⟩)
    · obtain ⟨r, hr, hnone, rfl⟩ := (mem_removed_collect h).mp ha
      have hbefore := (hpre _).mpr ⟨r, hr, hkey, rfl⟩
      have hafter : unionOf (postRecords recordings) key = none :=
        unionOf_eq_none.mpr fun r' hr' hkey' => hnone r' hr' (hkey'.trans hkey.symm)
      rw [artefactIdOf, artefactIdOf, hbefore, hafter]
      exact ⟨Option.some_ne_none _, rfl⟩
    · obtain ⟨r, hr, hnone, rfl⟩ := (mem_added_collect h).mp ha
      have hafter := (hpost _).mpr ⟨r, hr, hkey, rfl⟩
      have hbefore : unionOf (preRecords recordings) key = none :=
        unionOf_eq_none.mpr fun r' hr' hkey' => hnone r' hr' (hkey'.trans hkey.symm)
      rw [artefactIdOf, artefactIdOf, hbefore, hafter]
      exact ⟨(Option.some_ne_none _).symm, rfl⟩
    · obtain ⟨r, hr, ⟨r', hr', hsame, hid⟩, rfl⟩ := (mem_changed_collect h).mp ha
      have hafter := (hpost _).mpr ⟨r, hr, hkey, rfl⟩
      have hbefore := (hpre _).mpr ⟨r', hr', hsame.trans hkey, rfl⟩
      rw [artefactIdOf, artefactIdOf, hbefore, hafter]
      exact ⟨fun heq => hid (Option.some.inj heq), rfl⟩
  · rintro ⟨hids, rfl⟩
    cases hafter : unionOf (postRecords recordings) key with
    | none =>
      cases hbefore : unionOf (preRecords recordings) key with
      | none => simp [artefactIdOf, hbefore, hafter] at hids
      | some before =>
        obtain ⟨r, hr, hkey, -⟩ := (hpre before).mp hbefore
        have hnone : ∀ r' ∈ postRecords recordings, r'.key ≠ r.key := hkey ▸
          unionOf_eq_none.mp hafter
        exact .inl ⟨_, (mem_removed_collect h).mpr ⟨r, hr, hnone, rfl⟩, hkey, rfl⟩
    | some after =>
      obtain ⟨r, hr, hkey, rfl⟩ := (hpost after).mp hafter
      refine .inr ⟨r.changedArtefact, ?_, hkey, rfl⟩
      cases hbefore : unionOf (preRecords recordings) key with
      | none =>
        have hnone : ∀ r' ∈ preRecords recordings, r'.key ≠ r.key := hkey ▸
          unionOf_eq_none.mp hbefore
        exact .inl ((mem_added_collect h).mpr ⟨r, hr, hnone, rfl⟩)
      | some before =>
        obtain ⟨r', hr', hkey', rfl⟩ := (hpre before).mp hbefore
        have hid : r'.artefactId ≠ r.artefactId := fun heq => by
          rw [artefactIdOf, artefactIdOf, hbefore, hafter] at hids
          exact hids (congrArg some heq)
        exact .inr ((mem_changed_collect h).mpr
          ⟨r, hr, ⟨r', hr', hkey'.trans hkey.symm, hid⟩, rfl⟩)

theorem nodup_diffChanges_collect (h : Recorded recordings) :
    ((diffChanges (collect recordings).intoDiffs.2).map (·.1)).Nodup := by
  obtain ⟨hchanged, hremoved, hremoved'⟩ := disjoint_collect h
  have hset : (((collect recordings).intoDiffs.2.added ++
      (collect recordings).intoDiffs.2.changed).map changedKey).Nodup := by
    rw [List.map_append]
    exact (nodup_added_collect h).append (nodup_changed_collect h) hchanged
  have hdisjoint : ((collect recordings).intoDiffs.2.removed.map removedKey).Disjoint
      (((collect recordings).intoDiffs.2.added ++
        (collect recordings).intoDiffs.2.changed).map changedKey) := by
    rw [List.map_append, List.disjoint_append_right]
    exact ⟨hremoved.symm, hremoved'.symm⟩
  rw [diffChanges, List.map_append, List.map_map, List.map_map]
  exact (nodup_removed_collect h).append hset hdisjoint

/-- What the delta leaves under a symbol of a path. -/
theorem applyArtefactDiff_collect (h : Recorded recordings) (key : SymbolKey) :
    applyArtefactDiff (collect recordings).intoDiffs.2 (unionOf (preRecords recordings)) key =
      if artefactIdOf (unionOf (preRecords recordings)) key =
          artefactIdOf (unionOf (postRecords recordings)) key then
        unionOf (preRecords recordings) key
      else unionOf (postRecords recordings) key := by
  rw [applyArtefactDiff, applyChanges_apply]
  split_ifs with hids
  · have hnone : lastRow (·.1) key (diffChanges (collect recordings).intoDiffs.2) = none := by
      rw [lastRow_eq_none]
      intro hmem
      obtain ⟨⟨key', value⟩, hchange, rfl⟩ := List.mem_map.mp hmem
      exact ((mem_diffChanges_collect h).mp hchange).1 hids
    rw [hnone]
    rfl
  · have hlast := (lastRow_eq_some_of_nodup (nodup_diffChanges_collect h)).mpr
      ⟨(mem_diffChanges_collect h).mpr ⟨hids, rfl⟩, rfl⟩
    rw [hlast]
    rfl

theorem correctDelta_collect (h : Recorded recordings) :
    CorrectDelta (preRecords recordings) (postRecords recordings)
      (collect recordings).intoDiffs.2 where
  sorted := pairwise_collect h
  disjoint := disjoint_collect h
  changed_ne a ha := by
    obtain ⟨r, hr, ⟨before, hbefore, hsame, hid⟩, rfl⟩ := (mem_changed_collect h).mp ha
    exact ⟨before.changedArtefact,
      (unionOf_eq_some h.preKeys).mpr ⟨before, hbefore, hsame, rfl⟩, hid⟩
  artefactIds := by
    funext key
    rw [artefactIdOf, applyArtefactDiff_collect h]
    split_ifs with hids
    · exact hids
    · rfl
  artefacts := by
    rw [funext_iff]
    refine forall_congr' fun key => ?_
    rw [applyArtefactDiff_collect h]
    split_ifs with hids
    · exact ⟨fun heq _ => heq, fun himp => himp hids⟩
    · exact iff_of_true rfl fun heq => absurd heq hids

/-! ## The order of the recordings -/

theorem Recorded.perm (h : Recorded recordings) (hperm : recordings'.Perm recordings) :
    Recorded recordings' where
  ownPath recording hmem := h.ownPath recording (hperm.mem_iff.mp hmem)
  preKeys := (((hperm.flatMap_right _).map _).nodup_iff).mpr h.preKeys
  postKeys := (((hperm.flatMap_right _).map _).nodup_iff).mpr h.postKeys
  addedPaths := (((hperm.filterMap _).map _).nodup_iff).mpr h.addedPaths
  changedPaths := (((hperm.filterMap _).map _).nodup_iff).mpr h.changedPaths
  removedPaths := (((hperm.filterMap _).map _).nodup_iff).mpr h.removedPaths

/-- A sort by different keys does not depend on the order. -/
theorem orderBy_perm {ρ κ : Type*} [LinearOrder κ] {key : ρ → κ} {rows rows' : List ρ}
    (hperm : rows'.Perm rows) (hnodup : (rows.map key).Nodup) :
    orderBy key rows' = orderBy key rows := by
  have hnodup' : (rows'.map key).Nodup := ((hperm.map key).nodup_iff).mpr hnodup
  refine eq_of_pairwise_key (pairwise_orderBy key rows') (pairwise_orderBy key rows) ?_ ?_
    fun r => ?_
  · exact (((perm_orderBy key rows').map key).nodup_iff).mpr hnodup'
  · exact (((perm_orderBy key rows).map key).nodup_iff).mpr hnodup
  · rw [mem_orderBy, mem_orderBy, hperm.mem_iff]

theorem sortFileDiff_collect (h : Recorded recordings) (hperm : recordings'.Perm recordings) :
    (collect recordings').intoDiffs.1 = (collect recordings).intoDiffs.1 := by
  obtain ⟨hadded, hchanged, hremoved⟩ := fileDiff_foldl_record recordings .new
  obtain ⟨hadded', hchanged', hremoved'⟩ := fileDiff_foldl_record recordings' .new
  show sortFileDiff (collect recordings').fileDiff = sortFileDiff (collect recordings).fileDiff
  unfold sortFileDiff collect
  rw [hadded, hchanged, hremoved, hadded', hchanged', hremoved']
  congr 1
  · exact orderBy_perm (hperm.filterMap _) h.addedPaths
  · exact orderBy_perm (hperm.filterMap _) h.changedPaths
  · exact orderBy_perm (hperm.filterMap _) h.removedPaths

theorem artefactDiff_collect (h : Recorded recordings) (hperm : recordings'.Perm recordings) :
    (collect recordings').intoDiffs.2 = (collect recordings).intoDiffs.2 := by
  have h' := h.perm hperm
  have hpre : ∀ r, r ∈ preRecords recordings' ↔ r ∈ preRecords recordings :=
    fun _ => (hperm.flatMap_right _).mem_iff
  have hpost : ∀ r, r ∈ postRecords recordings' ↔ r ∈ postRecords recordings :=
    fun _ => (hperm.flatMap_right _).mem_iff
  have hadded : (collect recordings').intoDiffs.2.added =
      (collect recordings).intoDiffs.2.added := by
    refine eq_of_pairwise_key (pairwise_orderBy _ _) (pairwise_orderBy _ _)
      (nodup_added_collect h') (nodup_added_collect h) fun a => ?_
    simp only [mem_added_collect h, mem_added_collect h', hpre, hpost]
  have hchanged : (collect recordings').intoDiffs.2.changed =
      (collect recordings).intoDiffs.2.changed := by
    refine eq_of_pairwise_key (pairwise_orderBy _ _) (pairwise_orderBy _ _)
      (nodup_changed_collect h') (nodup_changed_collect h) fun a => ?_
    simp only [mem_changed_collect h, mem_changed_collect h', hpre, hpost]
  have hremoved : (collect recordings').intoDiffs.2.removed =
      (collect recordings).intoDiffs.2.removed := by
    refine eq_of_pairwise_key (pairwise_orderBy _ _) (pairwise_orderBy _ _)
      (nodup_removed_collect h') (nodup_removed_collect h) fun a => ?_
    simp only [mem_removed_collect h, mem_removed_collect h', hpre, hpost]
  cases hdiff : (collect recordings').intoDiffs.2
  cases hdiff' : (collect recordings).intoDiffs.2
  rw [hdiff, hdiff'] at hadded hchanged hremoved
  dsimp only at hadded hchanged hremoved
  rw [hadded, hchanged, hremoved]

/-- **The diff is a correct delta, whatever the order of the recordings.** -/
theorem intoDiffs_correct (h : Recorded recordings) (hperm : recordings'.Perm recordings) :
    (collect recordings').intoDiffs = (collect recordings).intoDiffs ∧
      CorrectDelta (preRecords recordings) (postRecords recordings)
        (collect recordings).intoDiffs.2 :=
  ⟨Prod.ext (sortFileDiff_collect h hperm) (artefactDiff_collect h hperm),
    correctDelta_collect h⟩

end Delta

/-! ## Recordings for examples -/

def demoRecord (artefactId symbolId kind : String) : DiffArtefactRecord where
  path := "a.rs"
  artefactId
  symbolId
  canonicalKind := some kind
  name := symbolId

/-- `f` becomes another artefact, `g` goes and `h` comes. -/
def demoRecordings : List DiffRecording :=
  [.fileChanged "a.rs" "rust" "c1",
    .preArtefacts "a.rs" [demoRecord "a1" "f" "function", demoRecord "a2" "g" "function"],
    .postArtefacts "a.rs" [demoRecord "a3" "f" "function", demoRecord "a4" "h" "function"]]

theorem demoRecordings_correct :
    (collect demoRecordings.reverse).intoDiffs = (collect demoRecordings).intoDiffs ∧
      CorrectDelta (preRecords demoRecordings) (postRecords demoRecordings)
        (collect demoRecordings).intoDiffs.2 :=
  intoDiffs_correct ⟨by simp [demoRecordings, DiffRecording.OwnPath, demoRecord],
    by decide, by decide, by decide, by decide, by decide⟩ (List.reverse_perm _)

/-- The kind of an artefact changes while its id stays. -/
def rekindedRecordings : List DiffRecording :=
  [.preArtefacts "a.rs" [demoRecord "a1" "f" "function"],
    .postArtefacts "a.rs" [demoRecord "a1" "f" "method"]]

theorem rekindedRecordings_missed :
    applyArtefactDiff (collect rekindedRecordings).intoDiffs.2
        (unionOf (preRecords rekindedRecordings)) (toLex ("a.rs", "f")) ≠
      unionOf (postRecords rekindedRecordings) (toLex ("a.rs", "f")) := by
  decide

end Sync
end Bitloops
