import Bitloops.Daemon.SyncMode
import Bitloops.Foundation.Records
import Bitloops.Foundation.UniqueTable

/-!
# Blobs and their references

A committed checkpoint keeps the transcript, the prompts and the context of each of its sessions
as blobs.  A blob is stored under a path made of the repository, the checkpoint, the index of the
session and a file name; the table `checkpoint_blobs` refers to it.  Keys are normalised before
they are used as paths: keys of checkpoints whose identifiers are plain path segments stay apart.
-/

namespace Bitloops
namespace Checkpoints

inductive BlobType where
  | transcript
  | prompts
  | context
  deriving DecidableEq, Repr

namespace BlobType

def asStr : BlobType → String
  | .transcript => "transcript"
  | .prompts => "prompts"
  | .context => "context"

def defaultFileName : BlobType → String
  | .transcript => "transcript.jsonl"
  | .prompts => "prompts.txt"
  | .context => "context.md"

end BlobType

def buildBlobKey (repoId checkpointId : String) (sessionIndex : ℕ) (blobType : BlobType) :
    List Char :=
  repoId.toList ++ '/' :: (checkpointId.toList ++ '/' :: (sessionIndex.repr.toList ++
    '/' :: blobType.defaultFileName.toList))

/-- The segments of a key: trimmed, with `/` for a backslash, and without the segments that are
empty or a dot. -/
def pathSegments (rawKey : List Char) : List (List Char) :=
  let trimmed :=
    ((rawKey.dropWhile Daemon.isWhitespace).reverse.dropWhile Daemon.isWhitespace).reverse
  let normalized := trimmed.map fun c => if c = '\\' then '/' else c
  (fields (· = '/') (normalized.dropWhile (· = '/'))).filter (· ≠ ['.'])

/-- `none` for a key without segments or with a parent segment. -/
def normalizeBlobKey (rawKey : List Char) : Option (List Char) :=
  let segments := pathSegments rawKey
  if segments = [] ∨ ['.', '.'] ∈ segments then none else some (['/'].intercalate segments)

/-- The blob under a path. -/
structure StoredBlob where
  path : List Char
  data : List UInt8
  deriving DecidableEq, Repr

abbrev BlobTable := UniqueTable StoredBlob (·.path)

/-- A row of `checkpoint_blobs`. -/
structure CheckpointBlobReference where
  blobId : List Char
  checkpointId : String
  sessionIndex : ℕ
  blobType : String
  storageBackend : String
  storagePath : List Char
  contentHash : String
  sizeBytes : ℕ
  deriving DecidableEq, Repr

def blobReferenceId (checkpointId : String) (sessionIndex : ℕ) (blobType : BlobType) : List Char :=
  checkpointId.toList ++ '/' :: (sessionIndex.repr.toList ++ '/' :: blobType.asStr.toList)

def CheckpointBlobReference.new (checkpointId : String) (sessionIndex : ℕ) (blobType : BlobType)
    (storageBackend : String) (storagePath : List Char) (contentHash : String) (sizeBytes : ℕ) :
    CheckpointBlobReference where
  blobId := blobReferenceId checkpointId sessionIndex blobType
  checkpointId
  sessionIndex
  blobType := blobType.asStr
  storageBackend
  storagePath
  contentHash
  sizeBytes

abbrev BlobReferenceTable := UniqueTable CheckpointBlobReference (·.blobId)

/-! ## Plain segments -/

/-- A text that is one segment of a path, and stays one when the path is normalised. -/
def PlainSegment (text : List Char) : Prop :=
  text ≠ [] ∧ text ≠ ['.'] ∧ ∀ c ∈ text, c ≠ '/' ∧ c ≠ '\\'

instance (text : List Char) : Decidable (PlainSegment text) :=
  inferInstanceAs (Decidable (_ ∧ _ ∧ _))

def shortIdLength : ℕ := 12

/-- `is_valid_checkpoint_id`. -/
def isValidCheckpointId (value : String) : Bool :=
  value.length = shortIdLength &&
    value.toList.all fun c => c.isDigit || ('a' ≤ c && c ≤ 'f')

/-- The identifiers that are drawn for checkpoints are plain. -/
theorem plainSegment_of_isValidCheckpointId {value : String}
    (h : isValidCheckpointId value = true) : PlainSegment value.toList := by
  rw [isValidCheckpointId, Bool.and_eq_true, decide_eq_true_eq, List.all_eq_true] at h
  obtain ⟨hlength, hchars⟩ := h
  have hlength' : value.toList.length = 12 := hlength
  refine ⟨?_, ?_, fun c hc => ⟨?_, ?_⟩⟩
  · rintro hnil
    rw [hnil] at hlength'
    exact absurd hlength' (by decide)
  · rintro hdot
    rw [hdot] at hlength'
    exact absurd hlength' (by decide)
  · rintro rfl
    exact absurd (hchars _ hc) (by decide)
  · rintro rfl
    exact absurd (hchars _ hc) (by decide)

/-- The decimal digits of an index are plain. -/
theorem plainSegment_repr (n : ℕ) : PlainSegment n.repr.toList := by
  have hdigits : ∀ c ∈ n.repr.toList, c.isDigit = true := by
    intro c hc
    rw [Nat.toList_repr] at hc
    exact Nat.isDigit_of_mem_toDigits (by decide) (by decide) hc
  refine ⟨?_, ?_, fun c hc => ⟨?_, ?_⟩⟩
  · intro hnil
    exact Nat.repr_ne_empty (String.toList_eq_nil_iff.mp hnil)
  · intro hdot
    have hmem : '.' ∈ n.repr.toList := hdot ▸ List.mem_singleton_self _
    exact absurd (hdigits _ hmem) (by decide)
  · rintro rfl
    exact absurd (hdigits _ hc) (by decide)
  · rintro rfl
    exact absurd (hdigits _ hc) (by decide)

theorem repr_injective {m n : ℕ} (h : m.repr.toList = n.repr.toList) : m = n := by
  rw [Nat.toList_repr, Nat.toList_repr] at h
  rw [← Nat.ofDigitChars_ten_toDigits (n := m), h, Nat.ofDigitChars_ten_toDigits]

theorem plainSegment_fileName (blobType : BlobType) :
    PlainSegment blobType.defaultFileName.toList := by
  cases blobType <;> decide

theorem plainSegment_asStr (blobType : BlobType) : PlainSegment blobType.asStr.toList := by
  cases blobType <;> decide

theorem defaultFileName_injective {a b : BlobType}
    (h : a.defaultFileName.toList = b.defaultFileName.toList) : a = b := by
  cases a <;> cases b <;> first | rfl | exact absurd h (by decide)

theorem asStr_injective {a b : BlobType} (h : a.asStr.toList = b.asStr.toList) : a = b := by
  cases a <;> cases b <;> first | rfl | exact absurd h (by decide)

/-! ## Keys stay apart -/

variable {repoId checkpointId checkpointId' : String} {sessionIndex sessionIndex' : ℕ}
  {blobType blobType' : BlobType}

theorem fields_plain {segment rest : List Char} (h : PlainSegment segment) :
    fields (· = '/') (segment ++ '/' :: rest) = segment :: fields (· = '/') rest :=
  fields_cons (fun c hc => decide_eq_false (h.2.2 c hc).1) h.1 (by decide)

theorem fields_plain_last {segment : List Char} (h : PlainSegment segment) :
    fields (· = '/') segment = [segment] :=
  fields_last (fun c hc => decide_eq_false (h.2.2 c hc).1) h.1

theorem map_plain {segment : List Char} (h : PlainSegment segment) :
    segment.map (fun c => if c = '\\' then '/' else c) = segment := by
  have hsame : ∀ c ∈ segment, (if c = '\\' then '/' else c) = c :=
    fun c hc => if_neg (h.2.2 c hc).2
  rw [List.map_congr_left hsame, List.map_id']

/-- Trimming a key only takes white space from its repository. -/
theorem trim_buildBlobKey :
    (((buildBlobKey repoId checkpointId sessionIndex blobType).dropWhile
      Daemon.isWhitespace).reverse.dropWhile Daemon.isWhitespace).reverse =
      repoId.toList.dropWhile Daemon.isWhitespace ++ '/' :: (checkpointId.toList ++ '/' ::
        (sessionIndex.repr.toList ++ '/' :: blobType.defaultFileName.toList)) := by
  have hfront : ∀ rest : List Char, (repoId.toList ++ '/' :: rest).dropWhile Daemon.isWhitespace =
      repoId.toList.dropWhile Daemon.isWhitespace ++ '/' :: rest := by
    intro rest
    rw [List.dropWhile_append]
    split_ifs with hblank
    · rw [List.isEmpty_iff.mp hblank, List.nil_append]
      exact List.dropWhile_cons_of_neg (by decide)
    · rfl
  have hback : ∀ front : List Char, (blobType.defaultFileName.toList.reverse ++ front).dropWhile
      Daemon.isWhitespace = blobType.defaultFileName.toList.reverse ++ front := by
    intro front
    cases blobType <;> exact List.dropWhile_cons_of_neg (by decide)
  rw [buildBlobKey, hfront]
  simp only [List.reverse_append, List.reverse_cons, List.append_assoc]
  rw [hback]
  simp

/-- The segments of a key: those of the repository, then the checkpoint, the index and the file. -/
theorem exists_pathSegments (repoId : String) : ∃ segments : List (List Char),
    ∀ checkpointId sessionIndex blobType, PlainSegment checkpointId.toList →
      pathSegments (buildBlobKey repoId checkpointId sessionIndex blobType) =
        segments ++ [checkpointId.toList, sessionIndex.repr.toList,
          blobType.defaultFileName.toList] := by
  refine ⟨(fields (· = '/') ((repoId.toList.dropWhile Daemon.isWhitespace).map
    fun c => if c = '\\' then '/' else c)).filter (· ≠ ['.']), ?_⟩
  intro checkpointId sessionIndex blobType hcheckpoint
  have hindex := plainSegment_repr sessionIndex
  have hfile := plainSegment_fileName blobType
  have hslash : (if '/' = '\\' then '/' else '/') = '/' := rfl
  simp only [pathSegments]
  rw [trim_buildBlobKey, fields_dropWhile, List.map_append, List.map_cons, hslash,
    List.map_append, List.map_cons, List.map_append, List.map_cons, hslash,
    map_plain hcheckpoint, map_plain hindex, map_plain hfile,
    fields_append _ (by decide), fields_plain hcheckpoint, fields_plain hindex,
    fields_plain_last hfile, List.filter_append]
  have hkeep : ∀ segment ∈ [checkpointId.toList, sessionIndex.repr.toList,
      blobType.defaultFileName.toList], decide (segment ≠ ['.']) = true := by
    intro segment hsegment
    simp only [List.mem_cons, List.not_mem_nil, or_false] at hsegment
    rcases hsegment with rfl | rfl | rfl
    · exact decide_eq_true hcheckpoint.2.1
    · exact decide_eq_true hindex.2.1
    · exact decide_eq_true hfile.2.1
  rw [List.filter_eq_self.mpr hkeep]

/-- Two lists of segments with the same path are the same. -/
theorem intercalate_segments {segments segments' : List (List Char)}
    (h : ∀ segment ∈ segments, '/' ∉ segment) (h' : ∀ segment ∈ segments', '/' ∉ segment)
    (hne : segments ≠ []) (hne' : segments' ≠ [])
    (heq : ['/'].intercalate segments = ['/'].intercalate segments') : segments = segments' := by
  rw [← List.splitOn_intercalate '/' h hne, heq, List.splitOn_intercalate '/' h' hne']

theorem slash_notMem_pathSegments {rawKey segment : List Char}
    (h : segment ∈ pathSegments rawKey) : '/' ∉ segment := by
  intro hslash
  have hfree := separator_notMem_fields (List.mem_of_mem_filter h) '/' hslash
  exact absurd hfree (by decide)

/-- **Blob paths stay apart**: a path belongs to one checkpoint, one index and one kind of blob. -/
theorem normalizeBlobKey_injective {path : List Char}
    (hplain : PlainSegment checkpointId.toList) (hplain' : PlainSegment checkpointId'.toList)
    (hpath : normalizeBlobKey (buildBlobKey repoId checkpointId sessionIndex blobType) = some path)
    (hpath' : normalizeBlobKey (buildBlobKey repoId checkpointId' sessionIndex' blobType') =
      some path) :
    checkpointId = checkpointId' ∧ sessionIndex = sessionIndex' ∧ blobType = blobType' := by
  simp only [normalizeBlobKey] at hpath hpath'
  split_ifs at hpath with hvalid
  split_ifs at hpath' with hvalid'
  have hsegments := intercalate_segments (fun _ => slash_notMem_pathSegments)
    (fun _ => slash_notMem_pathSegments) (fun h => hvalid (.inl h)) (fun h => hvalid' (.inl h))
    ((Option.some.inj hpath).trans (Option.some.inj hpath').symm)
  obtain ⟨front, hfront⟩ := exists_pathSegments repoId
  rw [hfront _ _ _ hplain, hfront _ _ _ hplain', List.append_cancel_left_eq] at hsegments
  simp only [List.cons.injEq, and_true] at hsegments
  obtain ⟨hcheckpoint, hindex, hfile⟩ := hsegments
  exact ⟨String.toList_injective hcheckpoint, repr_injective hindex,
    defaultFileName_injective hfile⟩

/-- Reference ids stay apart. -/
theorem blobReferenceId_injective (hplain : PlainSegment checkpointId.toList)
    (hplain' : PlainSegment checkpointId'.toList)
    (h : blobReferenceId checkpointId sessionIndex blobType =
      blobReferenceId checkpointId' sessionIndex' blobType') :
    checkpointId = checkpointId' ∧ sessionIndex = sessionIndex' ∧ blobType = blobType' := by
  have hfields := congrArg (fields (· = '/')) h
  simp only [blobReferenceId] at hfields
  rw [fields_plain hplain, fields_plain hplain', fields_plain (plainSegment_repr _),
    fields_plain (plainSegment_repr _), fields_plain_last (plainSegment_asStr _),
    fields_plain_last (plainSegment_asStr _)] at hfields
  simp only [List.cons.injEq, and_true] at hfields
  obtain ⟨hcheckpoint, hindex, htype⟩ := hfields
  exact ⟨String.toList_injective hcheckpoint, repr_injective hindex, asStr_injective htype⟩

end Checkpoints
end Bitloops
