import Bitloops.ContentCache.Cache

/-!
# Garbage collection of the content cache

An entry is garbage if only a worktree has had its content, its last access is older than the
time to live, and no file of any repository has its key.  The collection finds its candidates
and deletes their rows by a key without the extraction fingerprint, so it also deletes entries
with another fingerprint, and spares entries that a file with another fingerprint seems to use.
-/

namespace Bitloops
namespace ContentCache

open Sync (CurrentFileStateRow FileTable)

/-! ## The collection -/

structure GcResult where
  candidateCount : ℕ
  deletedCount : ℕ
  deriving DecidableEq, Repr

structure GcCandidate where
  contentId : String
  language : String
  parserVersion : String
  extractorVersion : String
  deriving DecidableEq, Repr

/-- The part of a key that the collection looks at. -/
def CacheKey.candidate (key : CacheKey) : GcCandidate where
  contentId := key.contentId
  language := key.language
  parserVersion := key.parserVersion
  extractorVersion := key.extractorVersion

def secondsPerDay : ℕ := 86400

/-- `datetime('now', '-… days')`. -/
def gcCutoff (now ttlDays : ℕ) : ℕ := now - ttlDays * secondsPerDay

/-- The condition of the `NOT EXISTS` in the query for the candidates. -/
def isReferenced (files : FileTable) (candidate : GcCandidate) : Bool :=
  files.rows.any fun file =>
    file.effectiveContentId = candidate.contentId && file.language = candidate.language &&
      file.parserVersion = candidate.parserVersion &&
      file.extractorVersion = candidate.extractorVersion

def candidateOrder (candidate : GcCandidate) : String ×ₗ String ×ₗ String ×ₗ String :=
  toLex (candidate.contentId, toLex (candidate.language,
    toLex (candidate.parserVersion, candidate.extractorVersion)))

/-- `load_gc_candidates` and `load_gc_candidates_with_connection`. -/
def loadGcCandidates (files : FileTable) (now ttlDays : ℕ) (s : CacheStore) : List GcCandidate :=
  orderBy candidateOrder
    ((s.headers.rows.filter fun row =>
      row.retentionClass = .worktreeOnly && row.lastAccessedAt < gcCutoff now ttlDays &&
        !isReferenced files row.key.candidate).map (·.key.candidate))

def deleteContentCacheEdges (s : CacheStore) (candidate : GcCandidate) : CacheStore :=
  { s with edges := s.edges.delete (·.key.candidate = candidate) }

def deleteContentCacheArtefacts (s : CacheStore) (candidate : GcCandidate) : CacheStore :=
  { s with artefacts := s.artefacts.delete (·.key.candidate = candidate) }

def deleteContentCache (s : CacheStore) (candidate : GcCandidate) : CacheStore :=
  { s with headers := s.headers.delete (·.key.candidate = candidate) }

/-- `run_gc`: the edges of all candidates go first, then the artefacts, then the headers. -/
def runGc (files : FileTable) (now ttlDays : ℕ) (s : CacheStore) : CacheStore × GcResult :=
  let candidates := loadGcCandidates files now ttlDays s
  if candidates = [] then (s, { candidateCount := 0, deletedCount := 0 })
  else
    let s := candidates.foldl deleteContentCacheEdges s
    let s := candidates.foldl deleteContentCacheArtefacts s
    let s := candidates.foldl deleteContentCache s
    (s, { candidateCount := candidates.length, deletedCount := candidates.length })

def CacheStore.size (s : CacheStore) : ℕ :=
  s.headers.rows.length + s.artefacts.rows.length + s.edges.rows.length

/-- The deletions of one candidate. -/
def deleteCandidate (s : CacheStore) (candidate : GcCandidate) : CacheStore :=
  deleteContentCache (deleteContentCacheArtefacts (deleteContentCacheEdges s candidate) candidate)
    candidate

/-- `run_gc_with_connection`: one candidate after the other; it also counts the deleted rows. -/
def runGcWithConnection (files : FileTable) (now ttlDays : ℕ) (s : CacheStore) :
    CacheStore × GcResult × ℕ :=
  let candidates := loadGcCandidates files now ttlDays s
  if candidates = [] then (s, { candidateCount := 0, deletedCount := 0 }, 0)
  else
    let after := candidates.foldl deleteCandidate s
    (after, { candidateCount := candidates.length, deletedCount := candidates.length },
      s.size - after.size)

/-! ## Garbage -/

/-- The key under which the content of a file is cached. -/
def cacheKeyOf (file : CurrentFileStateRow) : CacheKey where
  contentId := file.effectiveContentId
  language := file.language
  extractionFingerprint := file.extractionFingerprint
  parserVersion := file.parserVersion
  extractorVersion := file.extractorVersion

def Garbage (files : FileTable) (now ttlDays : ℕ) (row : ContentCacheRow) : Prop :=
  row.retentionClass = .worktreeOnly ∧ row.lastAccessedAt < gcCutoff now ttlDays ∧
    ∀ file ∈ files.rows, cacheKeyOf file ≠ row.key

instance (files : FileTable) (now ttlDays : ℕ) : DecidablePred (Garbage files now ttlDays) :=
  fun _ => inferInstanceAs (Decidable (_ ∧ _ ∧ ∀ file ∈ files.rows, _))

/-- The garbage is deleted with its artefacts and edges, and every other entry keeps its row, its
artefacts and its edges. -/
structure CollectsGarbage (files : FileTable) (now ttlDays : ℕ) (s s' : CacheStore) : Prop where
  headers : ∀ row, row ∈ s'.headers.rows ↔ row ∈ s.headers.rows ∧ ¬ Garbage files now ttlDays row
  artefacts : ∀ row ∈ s.headers.rows, ∀ child : CachedArtefactRow, child.key = row.key →
    (child ∈ s'.artefacts.rows ↔ child ∈ s.artefacts.rows ∧ ¬ Garbage files now ttlDays row)
  edges : ∀ row ∈ s.headers.rows, ∀ child : CachedEdgeRow, child.key = row.key →
    (child ∈ s'.edges.rows ↔ child ∈ s.edges.rows ∧ ¬ Garbage files now ttlDays row)

/-- Entries that differ in their fingerprint only are garbage together, and no file has the key
of a garbage entry up to the fingerprint. -/
def FingerprintsAgree (files : FileTable) (now ttlDays : ℕ) (s : CacheStore) : Prop :=
  ∀ row ∈ s.headers.rows, Garbage files now ttlDays row →
    (∀ other ∈ s.headers.rows, other.key.candidate = row.key.candidate →
      Garbage files now ttlDays other) ∧
    ∀ file ∈ files.rows, (cacheKeyOf file).candidate ≠ row.key.candidate

/-! ## What is deleted -/

section Gc

variable {files : FileTable} {now ttlDays : ℕ} {s : CacheStore} {candidates : List GcCandidate}
  {candidate : GcCandidate}

theorem isReferenced_iff : isReferenced files candidate = true ↔
    ∃ file ∈ files.rows, (cacheKeyOf file).candidate = candidate := by
  simp only [isReferenced, List.any_eq_true, Bool.and_eq_true, decide_eq_true_eq]
  refine exists_congr fun file => and_congr_right fun _ => ?_
  cases candidate
  simp [cacheKeyOf, CacheKey.candidate, and_assoc]

/-- A candidate is the key of an old worktree entry that seems to be unused. -/
theorem mem_loadGcCandidates : candidate ∈ loadGcCandidates files now ttlDays s ↔
    ∃ row ∈ s.headers.rows, row.key.candidate = candidate ∧ row.retentionClass = .worktreeOnly ∧
      row.lastAccessedAt < gcCutoff now ttlDays ∧
        ∀ file ∈ files.rows, (cacheKeyOf file).candidate ≠ candidate := by
  simp only [loadGcCandidates, mem_orderBy, List.mem_map, List.mem_filter, Bool.and_eq_true,
    decide_eq_true_eq, Bool.not_eq_true', ← Bool.not_eq_true, isReferenced_iff]
  constructor
  · rintro ⟨row, ⟨hrow, ⟨hretention, hold⟩, hfree⟩, rfl⟩
    exact ⟨row, hrow, rfl, hretention, hold, fun file hfile heq => hfree ⟨file, hfile, heq⟩⟩
  · rintro ⟨row, hrow, rfl, hretention, hold, hfree⟩
    refine ⟨row, ⟨hrow, ⟨hretention, hold⟩, ?_⟩, rfl⟩
    rintro ⟨file, hfile, heq⟩
    exact hfree file hfile heq

/-- The rows that the deletions of the candidates leave. -/
structure DeletedBy (candidates : List GcCandidate) (s s' : CacheStore) : Prop where
  headers : ∀ row, row ∈ s'.headers.rows ↔
    row ∈ s.headers.rows ∧ row.key.candidate ∉ candidates
  artefacts : ∀ row, row ∈ s'.artefacts.rows ↔
    row ∈ s.artefacts.rows ∧ row.key.candidate ∉ candidates
  edges : ∀ row, row ∈ s'.edges.rows ↔ row ∈ s.edges.rows ∧ row.key.candidate ∉ candidates

theorem mem_delete_candidate {ρ κ : Type*} {key : ρ → κ} {t : UniqueTable ρ key}
    {keyOf : ρ → CacheKey} {row : ρ} :
    row ∈ (t.delete fun r => decide ((keyOf r).candidate = candidate)).rows ∧
        (keyOf row).candidate ∉ candidates ↔
      row ∈ t.rows ∧ (keyOf row).candidate ∉ candidate :: candidates := by
  rw [UniqueTable.mem_delete, decide_eq_false_iff_not, List.mem_cons, not_or, and_assoc]

theorem deletedBy_refl : DeletedBy [] s s :=
  ⟨fun _ => by simp, fun _ => by simp, fun _ => by simp⟩

theorem deletedBy_foldl_deleteCandidate :
    DeletedBy candidates s (candidates.foldl deleteCandidate s) := by
  induction candidates generalizing s with
  | nil => exact deletedBy_refl
  | cons candidate candidates ih =>
    obtain ⟨hheaders, hartefacts, hedges⟩ := ih (s := deleteCandidate s candidate)
    exact ⟨fun row => (hheaders row).trans mem_delete_candidate,
      fun row => (hartefacts row).trans mem_delete_candidate,
      fun row => (hedges row).trans mem_delete_candidate⟩

theorem foldl_deleteContentCacheEdges (candidates : List GcCandidate) (s : CacheStore) :
    (candidates.foldl deleteContentCacheEdges s).headers = s.headers ∧
      (candidates.foldl deleteContentCacheEdges s).artefacts = s.artefacts ∧
      ∀ row, row ∈ (candidates.foldl deleteContentCacheEdges s).edges.rows ↔
        row ∈ s.edges.rows ∧ row.key.candidate ∉ candidates := by
  induction candidates generalizing s with
  | nil => exact ⟨rfl, rfl, deletedBy_refl.edges⟩
  | cons candidate candidates ih =>
    obtain ⟨hheaders, hartefacts, hedges⟩ := ih (deleteContentCacheEdges s candidate)
    exact ⟨hheaders, hartefacts, fun row => (hedges row).trans mem_delete_candidate⟩

theorem foldl_deleteContentCacheArtefacts (candidates : List GcCandidate) (s : CacheStore) :
    (candidates.foldl deleteContentCacheArtefacts s).headers = s.headers ∧
      (candidates.foldl deleteContentCacheArtefacts s).edges = s.edges ∧
      ∀ row, row ∈ (candidates.foldl deleteContentCacheArtefacts s).artefacts.rows ↔
        row ∈ s.artefacts.rows ∧ row.key.candidate ∉ candidates := by
  induction candidates generalizing s with
  | nil => exact ⟨rfl, rfl, deletedBy_refl.artefacts⟩
  | cons candidate candidates ih =>
    obtain ⟨hheaders, hedges, hartefacts⟩ := ih (deleteContentCacheArtefacts s candidate)
    exact ⟨hheaders, hedges, fun row => (hartefacts row).trans mem_delete_candidate⟩

theorem foldl_deleteContentCache (candidates : List GcCandidate) (s : CacheStore) :
    (candidates.foldl deleteContentCache s).artefacts = s.artefacts ∧
      (candidates.foldl deleteContentCache s).edges = s.edges ∧
      ∀ row, row ∈ (candidates.foldl deleteContentCache s).headers.rows ↔
        row ∈ s.headers.rows ∧ row.key.candidate ∉ candidates := by
  induction candidates generalizing s with
  | nil => exact ⟨rfl, rfl, deletedBy_refl.headers⟩
  | cons candidate candidates ih =>
    obtain ⟨hartefacts, hedges, hheaders⟩ := ih (deleteContentCache s candidate)
    exact ⟨hartefacts, hedges, fun row => (hheaders row).trans mem_delete_candidate⟩

theorem deletedBy_runGc :
    DeletedBy (loadGcCandidates files now ttlDays s) s (runGc files now ttlDays s).1 := by
  unfold runGc
  dsimp only
  split_ifs with hempty
  · rw [hempty]
    exact deletedBy_refl
  · obtain ⟨hheaders₁, hartefacts₁, hedges₁⟩ :=
      foldl_deleteContentCacheEdges (loadGcCandidates files now ttlDays s) s
    obtain ⟨hheaders₂, hedges₂, hartefacts₂⟩ :=
      foldl_deleteContentCacheArtefacts (loadGcCandidates files now ttlDays s)
        ((loadGcCandidates files now ttlDays s).foldl deleteContentCacheEdges s)
    obtain ⟨hartefacts₃, hedges₃, hheaders₃⟩ :=
      foldl_deleteContentCache (loadGcCandidates files now ttlDays s)
        ((loadGcCandidates files now ttlDays s).foldl deleteContentCacheArtefacts
          ((loadGcCandidates files now ttlDays s).foldl deleteContentCacheEdges s))
    refine ⟨fun row => ?_, fun row => ?_, fun row => ?_⟩
    · rw [hheaders₃, hheaders₂, hheaders₁]
    · rw [hartefacts₃, hartefacts₂, hartefacts₁]
    · rw [hedges₃, hedges₂, hedges₁]

theorem deletedBy_runGcWithConnection :
    DeletedBy (loadGcCandidates files now ttlDays s) s
      (runGcWithConnection files now ttlDays s).1 := by
  unfold runGcWithConnection
  dsimp only
  split_ifs with hempty
  · rw [hempty]
    exact deletedBy_refl
  · exact deletedBy_foldl_deleteCandidate

/-! ## When the deleted entries are the garbage -/

/-- The candidates match exactly the garbage if and only if the fingerprints agree. -/
theorem candidate_iff_garbage :
    (∀ row ∈ s.headers.rows, row.key.candidate ∈ loadGcCandidates files now ttlDays s ↔
      Garbage files now ttlDays row) ↔ FingerprintsAgree files now ttlDays s := by
  constructor
  · intro h row hrow hgarbage
    have hmem := (h row hrow).mpr hgarbage
    refine ⟨fun other hother heq => (h other hother).mp (heq ▸ hmem), ?_⟩
    obtain ⟨-, -, -, -, -, hfree⟩ := mem_loadGcCandidates.mp hmem
    exact hfree
  · intro h row hrow
    rw [mem_loadGcCandidates]
    constructor
    · rintro ⟨other, hother, hsame, hretention, hold, hfree⟩
      have hgarbage : Garbage files now ttlDays other := by
        refine ⟨hretention, hold, fun file hfile heq => hfree file hfile ?_⟩
        rw [heq]
        exact hsame
      exact (h other hother hgarbage).1 row hrow hsame.symm
    · intro hgarbage
      exact ⟨row, hrow, rfl, hgarbage.1, hgarbage.2.1, (h row hrow hgarbage).2⟩

theorem DeletedBy.collectsGarbage_iff {s' : CacheStore}
    (h : DeletedBy (loadGcCandidates files now ttlDays s) s s') :
    CollectsGarbage files now ttlDays s s' ↔ FingerprintsAgree files now ttlDays s := by
  rw [← candidate_iff_garbage]
  constructor
  · intro hcollects row hrow
    have hkept := (h.headers row).symm.trans (hcollects.headers row)
    rw [and_iff_right hrow, and_iff_right hrow] at hkept
    exact not_iff_not.mp hkept
  · intro hcandidates
    refine ⟨fun row => ?_, fun row hrow child hkey => ?_, fun row hrow child hkey => ?_⟩
    · rw [h.headers]
      exact and_congr_right fun hrow => not_congr (hcandidates row hrow)
    · rw [h.artefacts, hkey, hcandidates row hrow]
    · rw [h.edges, hkey, hcandidates row hrow]

end Gc

/-- **The collection deletes exactly the garbage**, in both of its forms, if and only if the
fingerprints agree. -/
theorem collectsGarbage_iff_fingerprintsAgree (files : FileTable) (now ttlDays : ℕ)
    (s : CacheStore) :
    (CollectsGarbage files now ttlDays s (runGcWithConnection files now ttlDays s).1 ↔
        FingerprintsAgree files now ttlDays s) ∧
      (CollectsGarbage files now ttlDays s (runGc files now ttlDays s).1 ↔
        FingerprintsAgree files now ttlDays s) :=
  ⟨deletedBy_runGcWithConnection.collectsGarbage_iff, deletedBy_runGc.collectsGarbage_iff⟩

/-- An entry of the content `blob`, last accessed at the start of time. -/
def blobEntry (fingerprint : String) (retentionClass : RetentionClass) : ContentCacheRow where
  key :=
    { contentId := "blob", language := "rust", extractionFingerprint := fingerprint,
      parserVersion := "1", extractorVersion := "1" }
  retentionClass := retentionClass
  parseStatus := "ok"
  parsedAt := 0
  lastAccessedAt := 0

/-- An old worktree entry and a git-backed one that differ in their fingerprint only. -/
def twoFingerprints : CacheStore where
  headers := ⟨[blobEntry "old" .worktreeOnly, blobEntry "new" .gitBacked], by decide⟩
  artefacts := .empty
  edges := .empty

/-- Both entries are deleted. -/
theorem gitBacked_entry_deleted :
    ¬ CollectsGarbage .empty (8 * secondsPerDay) 7 twoFingerprints
      (runGcWithConnection .empty (8 * secondsPerDay) 7 twoFingerprints).1 := by
  intro h
  have hkept := (h.headers (blobEntry "new" .gitBacked)).mpr
    ⟨List.mem_cons_of_mem _ List.mem_cons_self, by decide⟩
  have hdeleted : (runGcWithConnection .empty (8 * secondsPerDay) 7 twoFingerprints).1.headers.rows =
      [] := by decide
  rw [hdeleted] at hkept
  exact List.not_mem_nil hkept

end ContentCache
end Bitloops
