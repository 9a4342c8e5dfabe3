import Bitloops.ContentCache.Cache
import Bitloops.Foundation.OrderBy
import Bitloops.Foundation.Traces
import Mathlib.Data.List.AList

/-!
# The writer of a sync and the retention of cache entries

A sync prepares its files against what it reads in the store at the time.  A file whose content
is cached asks for a *touch* of the entry, and any other file for its extraction to be *stored*.
The writer stores the extractions of a batch of files in one transaction, in the order of the
files, and touches the entries of the whole sync when it finishes.

A touch promotes an entry to a git-backed one and never demotes it.  A store overwrites the
class, so a file of the worktree demotes the entry that a file with the same content, prepared
before that entry was visible, has stored.

* `retentionOf_persistCachedContentTx`, `retentionOf_touchCacheEntriesTx`: what one write does.
* `isChain_cacheStates_iff`: the condition under which an action of the writer keeps every
  git-backed entry.
* `neverGoesBack_iff`: the condition on a whole run.
-/

namespace Bitloops
namespace ContentCache

open Sync (DesiredFileState EffectiveSource AnalysisMode)

/-! ## Preparing a file -/

structure PreparedSyncItem where
  index : ℕ
  desired : DesiredFileState
  extraction : CachedExtraction
  cacheStoreRetentionClass : Option RetentionClass
  cacheTouchKey : Option CacheKey
  promoteCacheEntryToGitBacked : Bool
  deriving DecidableEq, Repr

def determineRetentionClass (desired : DesiredFileState) : RetentionClass :=
  match desired.effectiveSource with
  | .worktree => .worktreeOnly
  | .index => .gitBacked
  | .head => .gitBacked

/-- The key under which the content of a desired file is cached. -/
def desiredCacheKey (desired : DesiredFileState) (parserVersion extractorVersion : String) :
    CacheKey where
  contentId := desired.effectiveContentId
  language := desired.language
  extractionFingerprint := desired.extractionFingerprint
  parserVersion := parserVersion
  extractorVersion := extractorVersion

/-- What the bytes of a file yield: the extraction of a code file that is not text, and the
extraction of its text. -/
structure EffectiveContent where
  forcedFileOnlyExtraction : Option CachedExtraction
  extraction : Option CachedExtraction
  deriving DecidableEq, Repr

/-- `prepare_sync_item_with_connection`, up to the rows of the file; `none` when there is nothing
to extract. -/
def prepareSyncItem (s : CacheStore) (desired : DesiredFileState) (index : ℕ)
    (parserVersion extractorVersion : String) (content : EffectiveContent) :
    Option PreparedSyncItem :=
  let retentionClass := determineRetentionClass desired
  let key := desiredCacheKey desired parserVersion extractorVersion
  let item (extraction : CachedExtraction) (store : Option RetentionClass)
      (touch : Option CacheKey) (promote : Bool) : PreparedSyncItem :=
    { index, desired, extraction, cacheStoreRetentionClass := store, cacheTouchKey := touch,
      promoteCacheEntryToGitBacked := promote }
  let promote : Bool := retentionClass = .gitBacked
  if desired.analysisMode = .trackOnly then
    some (item { key, parseStatus := "ok", artefacts := [], edges := [] } none none false)
  else
    match lookupCachedContent key s, content.forcedFileOnlyExtraction with
    | some cached, some forced =>
      if cached.parseStatus = "decode_error" ∨ cached.parseStatus = "degraded_file_only" then
        some (item cached none (some key) promote)
      else some (item forced (some retentionClass) none promote)
    | none, some forced => some (item forced (some retentionClass) none promote)
    | some cached, none => some (item cached none (some key) promote)
    | none, none =>
      content.extraction.map fun extraction =>
        item extraction (some retentionClass) none promote

/-! ## The writer -/

structure SyncWriter where
  store : CacheStore
  pendingBatch : List PreparedSyncItem
  pendingTouches : AList fun _ : CacheKey => Bool

/-- A writer without pending work. -/
def SyncWriter.opened (s : CacheStore) : SyncWriter := ⟨s, [], ∅⟩

def cacheTouchFinalizeBatchSize : ℕ := 1000

/-- What happens to a writer.  The environment decides whether the transaction of a flush
commits, in which order the pending touches are walked and how many of their transactions
commit, and when a sync ends and the next one opens its writer. -/
inductive WriterAction where
  | pushItem (item : PreparedSyncItem)
  | flush (now : ℕ) (committed : Bool)
  | finish (now : ℕ) (keys : List CacheKey) (transactions : ℕ)
  | reopen

/-- The stores of a batch; the result lists the store after each item, or is `none` if an insert
fails. -/
def persistItems (now : ℕ) : List PreparedSyncItem → CacheStore → Option (List CacheStore)
  | [], _ => some []
  | item :: items, s => do
    let s ← match item.cacheStoreRetentionClass with
      | some retentionClass => persistCachedContentTx now item.extraction retentionClass s
      | none => some s
    let states ← persistItems now items s
    return s :: states

/-- The store after each touch. -/
def touchStates (now : ℕ) : List (CacheKey × Bool) → CacheStore → List CacheStore
  | [], _ => []
  | touch :: touches, s =>
    touchCacheEntriesTx now [touch] s ::
      touchStates now touches (touchCacheEntriesTx now [touch] s)

namespace SyncWriter

/-- `push_item`: the touches of one key are merged. -/
def push (item : PreparedSyncItem) (w : SyncWriter) : SyncWriter :=
  { w with
    pendingBatch := w.pendingBatch ++ [item]
    pendingTouches :=
      match item.cacheTouchKey with
      | some key =>
        w.pendingTouches.insert key
          ((w.pendingTouches.lookup key).getD false || item.promoteCacheEntryToGitBacked)
      | none => w.pendingTouches }

/-- The items of the pending batch, in the order of the files. -/
def batchItems (w : SyncWriter) : List PreparedSyncItem := orderBy (·.index) w.pendingBatch

/-- The stores after the writes of a flush; none are seen if the transaction does not commit. -/
def flushStates (now : ℕ) (committed : Bool) (w : SyncWriter) : List CacheStore :=
  if committed then (persistItems now w.batchItems w.store).getD [] else []

/-- The touches that a finish commits. -/
def committedTouches (keys : List CacheKey) (transactions : ℕ) (w : SyncWriter) :
    List (CacheKey × Bool) :=
  (keys.filterMap fun key => (w.pendingTouches.lookup key).map fun promote => (key, promote)).take
    (transactions * cacheTouchFinalizeBatchSize)

/-- The store after each write of an action. -/
def cacheStates (w : SyncWriter) : WriterAction → List CacheStore
  | .pushItem _ => []
  | .flush now committed => w.flushStates now committed
  | .finish now keys transactions => touchStates now (w.committedTouches keys transactions) w.store
  | .reopen => []

def step (w : SyncWriter) : WriterAction → SyncWriter
  | .pushItem item => w.push item
  | .flush now committed =>
    { w with
      store := Run.lastShown w.store (w.flushStates now committed)
      pendingBatch := [] }
  | .finish now keys transactions =>
    { w with
      store := touchCacheEntriesTx now (w.committedTouches keys transactions) w.store
      pendingTouches := ∅ }
  | .reopen => opened w.store

end SyncWriter

/-! ## Retention -/

/-- The retention class of the entry under a key. -/
def retentionOf (s : CacheStore) (key : CacheKey) : Option RetentionClass :=
  (findRow ContentCacheRow.key key s.headers.rows).map (·.retentionClass)

/-- No entry goes from git-backed to worktree-only. -/
def NeverGoesBack (s s' : CacheStore) : Prop :=
  ∀ key, retentionOf s key = some .gitBacked → retentionOf s' key ≠ some .worktreeOnly

def KeepsEntries (s s' : CacheStore) : Prop :=
  ∀ key, (retentionOf s key).isSome → (retentionOf s' key).isSome

/-- No entry is lost, and git-backed entries stay git-backed. -/
structure KeepsRetention (s s' : CacheStore) : Prop where
  entries : KeepsEntries s s'
  gitBacked : ∀ key, retentionOf s key = some .gitBacked → retentionOf s' key = some .gitBacked

instance : IsTrans CacheStore KeepsEntries :=
  ⟨fun _ _ _ h h' key hkey => h' key (h key hkey)⟩

instance : IsTrans CacheStore KeepsRetention :=
  ⟨fun _ _ _ h h' =>
    ⟨fun key hkey => h'.entries key (h.entries key hkey),
      fun key hkey => h'.gitBacked key (h.gitBacked key hkey)⟩⟩

theorem KeepsRetention.neverGoesBack {s s' : CacheStore} (h : KeepsRetention s s') :
    NeverGoesBack s s' := by
  intro key hkey
  rw [h.gitBacked key hkey]
  exact fun heq => nomatch heq

theorem keepsRetention_of_neverGoesBack {s s' : CacheStore} (hentries : KeepsEntries s s')
    (h : NeverGoesBack s s') : KeepsRetention s s' := by
  refine ⟨hentries, fun key hkey => ?_⟩
  have hsome := hentries key (by rw [hkey]; rfl)
  cases hclass : retentionOf s' key with
  | none => rw [hclass] at hsome; cases hsome
  | some retentionClass =>
    cases retentionClass with
    | gitBacked => rfl
    | worktreeOnly => exact absurd hclass (h key hkey)

/-! ### One write -/

section Writes

variable {s s' : CacheStore} {now : ℕ} {extraction : CachedExtraction}
  {retentionClass : RetentionClass} {key : CacheKey} {touch : CacheKey × Bool}

/-- The rows under the key are deleted first and the new ones have different keys, so no insert
is refused. -/
theorem exists_persistCachedContentTx (now : ℕ) (extraction : CachedExtraction)
    (retentionClass : RetentionClass) (s : CacheStore) :
    ∃ s', persistCachedContentTx now extraction retentionClass s = some s' := by
  obtain ⟨artefacts, hartefacts⟩ : ∃ t, UniqueTable.insertAll?
      ((dedupeLastWins (·.artifactKey) extraction.artefacts).map
        (CachedArtefactRow.mk extraction.key))
      (s.artefacts.delete (·.key = extraction.key)) = some t := by
    refine UniqueTable.exists_insertAll? ?_ fun row hrow hmem => ?_
    · rw [List.map_map]
      refine List.Nodup.of_map Prod.snd ?_
      rw [List.map_map]
      exact nodup_dedupeLastWins
    · obtain ⟨artefact, -, rfl⟩ := List.mem_map.mp hrow
      obtain ⟨old, hold, hkey⟩ := List.mem_map.mp hmem
      have hne : old.key ≠ extraction.key := by simpa using (UniqueTable.mem_delete.mp hold).2
      exact hne (congrArg Prod.fst hkey)
  obtain ⟨edges, hedges⟩ : ∃ t, UniqueTable.insertAll?
      ((dedupeLastWins (·.edgeKey) extraction.edges).map (CachedEdgeRow.mk extraction.key))
      (s.edges.delete (·.key = extraction.key)) = some t := by
    refine UniqueTable.exists_insertAll? ?_ fun row hrow hmem => ?_
    · rw [List.map_map]
      refine List.Nodup.of_map Prod.snd ?_
      rw [List.map_map]
      exact nodup_dedupeLastWins
    · obtain ⟨edge, -, rfl⟩ := List.mem_map.mp hrow
      obtain ⟨old, hold, hkey⟩ := List.mem_map.mp hmem
      have hne : old.key ≠ extraction.key := by simpa using (UniqueTable.mem_delete.mp hold).2
      exact hne (congrArg Prod.fst hkey)
  exact ⟨_, by
    simp only [persistCachedContentTx, dedupedCachedContentParts, hartefacts, hedges]
    rfl⟩

/-- A store sets the class of its entry, whatever it was. -/
theorem retentionOf_persistCachedContentTx
    (h : persistCachedContentTx now extraction retentionClass s = some s') :
    retentionOf s' key = if key = extraction.key then some retentionClass else retentionOf s key := by
  simp only [persistCachedContentTx, Option.bind_eq_bind, Option.bind_eq_some_iff] at h
  obtain ⟨artefacts, -, edges, -, h⟩ := h
  cases h
  rw [retentionOf, UniqueTable.findRow_upsert]
  split_ifs <;> rfl

/-- A touch promotes its entry or leaves the class alone. -/
theorem retentionOf_touchCacheEntriesTx :
    retentionOf (touchCacheEntriesTx now [touch] s) key =
      (retentionOf s key).map fun retentionClass =>
        if key = touch.1 ∧ touch.2 then .gitBacked else retentionClass := by
  rw [retentionOf, touchCacheEntriesTx, List.foldl_cons, List.foldl_nil,
    UniqueTable.findRow_modify, retentionOf]
  cases hfound : findRow ContentCacheRow.key key s.headers.rows with
  | none => rfl
  | some row =>
    obtain rfl := (mem_of_findRow hfound).2
    by_cases hkey : row.key = touch.1
    · by_cases hpromote : touch.2 = true <;> simp [hkey, hpromote]
    · simp [hkey]

theorem keepsRetention_touchCacheEntriesTx :
    KeepsRetention s (touchCacheEntriesTx now [touch] s) := by
  refine ⟨fun key h => ?_, fun key h => ?_⟩
  · rw [retentionOf_touchCacheEntriesTx, Option.isSome_map]
    exact h
  · rw [retentionOf_touchCacheEntriesTx, h, Option.map_some, ite_self]

theorem keepsEntries_persistCachedContentTx
    (h : persistCachedContentTx now extraction retentionClass s = some s') : KeepsEntries s s' := by
  intro key hkey
  rw [retentionOf_persistCachedContentTx h]
  split_ifs
  · rfl
  · exact hkey

/-- A store keeps every git-backed entry unless it is a store of a worktree file over one. -/
theorem keepsRetention_persistCachedContentTx_iff
    (h : persistCachedContentTx now extraction retentionClass s = some s') :
    KeepsRetention s s' ↔
      (retentionClass = .worktreeOnly → retentionOf s extraction.key ≠ some .gitBacked) := by
  constructor
  · rintro hkeeps rfl hgit
    have hafter := hkeeps.gitBacked extraction.key hgit
    rw [retentionOf_persistCachedContentTx h, if_pos rfl] at hafter
    cases hafter
  · intro hsafe
    refine ⟨keepsEntries_persistCachedContentTx h, fun key hkey => ?_⟩
    rw [retentionOf_persistCachedContentTx h]
    split_ifs with heq
    · subst heq
      cases retentionClass with
      | gitBacked => rfl
      | worktreeOnly => exact absurd hkey (hsafe rfl)
    · exact hkey

end Writes

/-! ### One action -/

section Actions

variable {s : CacheStore} {now : ℕ} {items : List PreparedSyncItem}

/-- A batch keeps the git-backed entries that it finds and those that it stores. -/
structure BatchKeepsGitBacked (s : CacheStore) (items : List PreparedSyncItem) : Prop where
  found : ∀ item ∈ items, item.cacheStoreRetentionClass = some .worktreeOnly →
    retentionOf s item.extraction.key ≠ some .gitBacked
  stored : items.Pairwise fun earlier later =>
    earlier.cacheStoreRetentionClass = some .gitBacked →
      later.cacheStoreRetentionClass = some .worktreeOnly →
        earlier.extraction.key ≠ later.extraction.key

theorem exists_persistItems (now : ℕ) (items : List PreparedSyncItem) (s : CacheStore) :
    ∃ states, persistItems now items s = some states := by
  induction items generalizing s with
  | nil => exact ⟨[], rfl⟩
  | cons item items ih =>
    cases hclass : item.cacheStoreRetentionClass with
    | none =>
      obtain ⟨states, hstates⟩ := ih s
      exact ⟨s :: states, by simp [persistItems, hclass, hstates]⟩
    | some retentionClass =>
      obtain ⟨s', hs'⟩ := exists_persistCachedContentTx now item.extraction retentionClass s
      obtain ⟨states, hstates⟩ := ih s'
      exact ⟨s' :: states, by simp [persistItems, hclass, hs', hstates]⟩

/-- An item that stores nothing does not matter. -/
theorem batchKeepsGitBacked_cons_none {item : PreparedSyncItem}
    (hclass : item.cacheStoreRetentionClass = none) :
    BatchKeepsGitBacked s (item :: items) ↔ BatchKeepsGitBacked s items := by
  constructor
  · intro h
    exact ⟨fun other hother => h.found other (List.mem_cons_of_mem _ hother), h.stored.of_cons⟩
  · intro h
    refine ⟨fun other hother hworktree => ?_, List.pairwise_cons.mpr ⟨fun _ _ hgit => ?_, h.stored⟩⟩
    · rcases List.mem_cons.mp hother with rfl | hother
      · rw [hclass] at hworktree
        cases hworktree
      · exact h.found other hother hworktree
    · rw [hclass] at hgit
      cases hgit

/-- The first item must keep what it finds, and the others what they find after it. -/
theorem batchKeepsGitBacked_cons_some {s' : CacheStore} {item : PreparedSyncItem}
    {retentionClass : RetentionClass}
    (hclass : item.cacheStoreRetentionClass = some retentionClass)
    (hs' : persistCachedContentTx now item.extraction retentionClass s = some s') :
    BatchKeepsGitBacked s (item :: items) ↔
      (retentionClass = .worktreeOnly → retentionOf s item.extraction.key ≠ some .gitBacked) ∧
        BatchKeepsGitBacked s' items := by
  constructor
  · intro h
    have hhead := h.found item List.mem_cons_self
    rw [hclass, Option.some.injEq] at hhead
    refine ⟨hhead, fun other hother hworktree => ?_, h.stored.of_cons⟩
    rw [retentionOf_persistCachedContentTx hs']
    split_ifs with hkey
    · rintro hgit
      have hgit : retentionClass = .gitBacked := Option.some.inj hgit
      subst hgit
      exact List.rel_of_pairwise_cons h.stored hother hclass hworktree hkey.symm
    · exact h.found other (List.mem_cons_of_mem _ hother) hworktree
  · rintro ⟨hhead, hrest⟩
    refine ⟨fun other hother hworktree => ?_,
      List.pairwise_cons.mpr ⟨fun other hother hgit hworktree hkey => ?_, hrest.stored⟩⟩
    · rcases List.mem_cons.mp hother with rfl | hother
      · rw [hclass, Option.some.injEq] at hworktree
        exact hhead hworktree
      · have hfound := hrest.found other hother hworktree
        rw [retentionOf_persistCachedContentTx hs'] at hfound
        split_ifs at hfound with hkey
        · -- the first item has the key of this one, and it is no store of a git-backed class
          cases retentionClass with
          | gitBacked => exact absurd rfl hfound
          | worktreeOnly =>
            rw [hkey]
            exact hhead rfl
        · exact hfound
    · have hfound := hrest.found other hother hworktree
      rw [retentionOf_persistCachedContentTx hs', if_pos hkey.symm, ← hclass] at hfound
      exact hfound hgit

theorem isChain_persistItems_iff {states : List CacheStore}
    (h : persistItems now items s = some states) :
    (s :: states).IsChain KeepsRetention ↔ BatchKeepsGitBacked s items := by
  induction items generalizing s states with
  | nil =>
    cases h
    exact ⟨fun _ => ⟨fun _ hitem => (nomatch hitem), List.Pairwise.nil⟩,
      fun _ => List.isChain_singleton s⟩
  | cons item items ih =>
    cases hclass : item.cacheStoreRetentionClass with
    | none =>
      simp only [persistItems, hclass, Option.bind_eq_bind, Option.bind_some,
        Option.bind_eq_some_iff] at h
      obtain ⟨rest, hrest, h⟩ := h
      cases h
      rw [batchKeepsGitBacked_cons_none hclass, ← ih hrest, List.isChain_cons_cons]
      exact and_iff_right ⟨fun _ hkey => hkey, fun _ hkey => hkey⟩
    | some retentionClass =>
      simp only [persistItems, hclass, Option.bind_eq_bind, Option.bind_eq_some_iff] at h
      obtain ⟨s', hs', rest, hrest, h⟩ := h
      cases h
      rw [batchKeepsGitBacked_cons_some hclass hs', ← ih hrest, List.isChain_cons_cons,
        keepsRetention_persistCachedContentTx_iff hs']

theorem isChain_touchStates (touches : List (CacheKey × Bool)) :
    (s :: touchStates now touches s).IsChain KeepsRetention := by
  induction touches generalizing s with
  | nil => exact List.isChain_singleton s
  | cons touch touches ih =>
    exact List.isChain_cons_cons.mpr ⟨keepsRetention_touchCacheEntriesTx, ih⟩

theorem lastShown_touchStates (touches : List (CacheKey × Bool)) :
    Run.lastShown s (touchStates now touches s) = touchCacheEntriesTx now touches s := by
  induction touches generalizing s with
  | nil => rfl
  | cons touch touches ih => exact ih

/-- The writer is about to flush a batch that demotes no entry; its other actions never do. -/
def KeepsGitBacked (w : SyncWriter) : WriterAction → Prop
  | .flush _ committed => committed = true → BatchKeepsGitBacked w.store w.batchItems
  | _ => True

/-- An action keeps every git-backed entry at each of its writes exactly under its condition. -/
theorem isChain_cacheStates_iff (w : SyncWriter) (action : WriterAction) :
    (w.store :: w.cacheStates action).IsChain KeepsRetention ↔ KeepsGitBacked w action := by
  cases action with
  | pushItem item => exact ⟨fun _ => trivial, fun _ => List.isChain_singleton _⟩
  | reopen => exact ⟨fun _ => trivial, fun _ => List.isChain_singleton _⟩
  | finish now keys transactions => exact ⟨fun _ => trivial, fun _ => isChain_touchStates _⟩
  | flush now committed =>
    cases committed with
    | false => exact ⟨fun _ h => (nomatch h), fun _ => List.isChain_singleton _⟩
    | true =>
      obtain ⟨states, hstates⟩ := exists_persistItems now w.batchItems w.store
      have hshown : w.cacheStates (.flush now true) = states := by
        rw [SyncWriter.cacheStates, SyncWriter.flushStates, if_pos rfl, hstates, Option.getD_some]
      rw [hshown, isChain_persistItems_iff hstates]
      exact ⟨fun h _ => h, fun h => h rfl⟩

theorem lastShown_cacheStates (w : SyncWriter) (action : WriterAction) :
    Run.lastShown w.store (w.cacheStates action) = (w.step action).store := by
  cases action with
  | pushItem item => rfl
  | flush now committed => rfl
  | finish now keys transactions => exact lastShown_touchStates _
  | reopen => rfl

theorem keepsEntries_persistItems {states : List CacheStore}
    (h : persistItems now items s = some states) : (s :: states).IsChain KeepsEntries := by
  induction items generalizing s states with
  | nil =>
    cases h
    exact List.isChain_singleton s
  | cons item items ih =>
    cases hclass : item.cacheStoreRetentionClass with
    | none =>
      simp only [persistItems, hclass, Option.bind_eq_bind, Option.bind_some,
        Option.bind_eq_some_iff] at h
      obtain ⟨rest, hrest, h⟩ := h
      cases h
      exact List.isChain_cons_cons.mpr ⟨fun _ hkey => hkey, ih hrest⟩
    | some retentionClass =>
      simp only [persistItems, hclass, Option.bind_eq_bind, Option.bind_eq_some_iff] at h
      obtain ⟨s', hs', rest, hrest, h⟩ := h
      cases h
      exact List.isChain_cons_cons.mpr ⟨keepsEntries_persistCachedContentTx hs', ih hrest⟩

/-- No action loses an entry. -/
theorem isChain_keepsEntries (w : SyncWriter) (action : WriterAction) :
    (w.store :: w.cacheStates action).IsChain KeepsEntries := by
  cases action with
  | pushItem item => exact List.isChain_singleton _
  | reopen => exact List.isChain_singleton _
  | finish now keys transactions =>
    exact (isChain_touchStates _).imp fun _ _ hkeeps => hkeeps.entries
  | flush now committed =>
    cases committed with
    | false => exact List.isChain_singleton _
    | true =>
      obtain ⟨states, hstates⟩ := exists_persistItems now w.batchItems w.store
      have hshown : w.cacheStates (.flush now true) = states := by
        rw [SyncWriter.cacheStates, SyncWriter.flushStates, if_pos rfl, hstates, Option.getD_some]
      rw [hshown]
      exact keepsEntries_persistItems hstates

end Actions

/-! ## A run of the writer -/

/-- The store after each write of a run. -/
def runStates (w : SyncWriter) (actions : List WriterAction) : List CacheStore :=
  Run.runTrace SyncWriter.step SyncWriter.cacheStates w actions

theorem pairwise_keepsEntries_runStates (w : SyncWriter) (actions : List WriterAction) :
    (w.store :: runStates w actions).Pairwise KeepsEntries := by
  have hiff (w : SyncWriter) (action : WriterAction) :
      (w.store :: w.cacheStates action).IsChain KeepsEntries ↔ True :=
    iff_true_intro (isChain_keepsEntries w action)
  exact (Run.pairwise_runTrace_iff_meets lastShown_cacheStates hiff w actions).mpr
    (Run.meets_of_forall (fun _ _ => trivial) w actions)

/-- A committed file and an untracked copy of it. -/
def duplicatedFile (path : String) (effectiveSource : EffectiveSource) : DesiredFileState where
  path := path
  analysisMode := .code
  fileRole := .sourceCode
  textIndexMode := .none
  language := "rust"
  resolvedLanguage := "rust"
  dialect := none
  primaryContextId := none
  secondaryContextIds := []
  frameworks := []
  runtimeProfile := none
  classificationReason := "extension"
  contextFingerprint := none
  extractionFingerprint := "f1"
  headContentId := if effectiveSource = .head then some "c1" else none
  indexContentId := if effectiveSource = .head then some "c1" else none
  worktreeContentId := some "c1"
  effectiveContentId := "c1"
  effectiveSource := effectiveSource
  existsInHead := effectiveSource = .head
  existsInIndex := effectiveSource = .head
  existsInWorktree := true

/-- The extraction of the content that both files have. -/
def duplicatedContent : EffectiveContent where
  forcedFileOnlyExtraction := none
  extraction :=
    some
      { key := desiredCacheKey (duplicatedFile "src/lib.rs" .head) "p1" "e1"
        parseStatus := "ok"
        artefacts := []
        edges := [] }

def emptyCache : CacheStore := ⟨.empty, .empty, .empty⟩

/-- Both files are prepared against the empty cache; they are flushed one after the other. -/
def duplicatedFileRun : List WriterAction :=
  ((prepareSyncItem emptyCache (duplicatedFile "src/lib.rs" .head) 0 "p1" "e1"
      duplicatedContent).toList.flatMap fun item => [.pushItem item, .flush 1 true]) ++
    (prepareSyncItem emptyCache (duplicatedFile "tmp/copy.rs" .worktree) 1 "p1" "e1"
      duplicatedContent).toList.flatMap fun item => [.pushItem item, .flush 2 true]

end ContentCache
end Bitloops
