import Mathlib.Data.List.Induction
import Bitloops.Checkpoints.StorageFrame
import Bitloops.Foundation.Run

/-!
# The storage of committed checkpoints is consistent

Calls of `write_committed` and `update_committed` for any checkpoints and sessions, each of which
may stop after any of its writes, keep the session rows of a checkpoint apart and numbered from
zero, and touch nothing of another session.  A successful write leaves the aggregate over all
session rows.  The hash in a session row is that of the stored transcript unless the last call
that stored a transcript for the session stopped before it got to the row.
-/

namespace Bitloops
namespace Checkpoints

/-! ## Calls -/

/-- A call for one session of a checkpoint. -/
inductive CheckpointOp where
  | write (ctx : CallContext) (opts : WriteCommittedOptions)
  | update (ctx : CallContext) (opts : UpdateCommittedOptions)
  deriving DecidableEq, Repr

namespace CheckpointOp

def checkpointId : CheckpointOp → String
  | .write _ opts => opts.checkpointId
  | .update _ opts => opts.checkpointId

def sessionId : CheckpointOp → String
  | .write _ opts => opts.sessionId
  | .update _ opts => opts.sessionId

def target (op : CheckpointOp) : String × String := (op.checkpointId, op.sessionId)

/-- The number of writes the call is let through. -/
def stop : CheckpointOp → Option ℕ
  | .write ctx _ => ctx.stop
  | .update ctx _ => ctx.stop

def call (services : CheckpointServices) (s : Storage) : CheckpointOp → Storage × Bool
  | .write ctx opts => writeCommitted services ctx opts s
  | .update ctx opts => updateCommitted services ctx opts s

def step (services : CheckpointServices) (s : Storage) (op : CheckpointOp) : Option Storage :=
  some (op.call services s).1

/-- Checkpoints have identifiers as they are drawn, and an update is for a session with a row. -/
def Addressed (s : Storage) : CheckpointOp → Prop
  | .write _ opts => opts.checkpointId ≠ "" → PlainSegment opts.checkpointId.toList
  | .update _ opts => ∃ r ∈ s.sessions.rows,
      r.checkpointId = opts.checkpointId ∧ r.sessionId = opts.sessionId

instance (s : Storage) : ∀ op, Decidable (Addressed s op)
  | .write _ opts =>
    inferInstanceAs (Decidable (opts.checkpointId ≠ "" → PlainSegment opts.checkpointId.toList))
  | .update _ opts => inferInstanceAs (Decidable (∃ r ∈ s.sessions.rows,
      r.checkpointId = opts.checkpointId ∧ r.sessionId = opts.sessionId))

/-- The writes of the call at an index. -/
def writesAt (services : CheckpointServices) (sessionIndex : ℕ) :
    CheckpointOp → List StorageWrite
  | .write ctx opts => committedWrites services ctx opts sessionIndex
  | .update ctx opts => updatedWrites services ctx opts sessionIndex

/-- The transcript that the call stores. -/
def transcript? (services : CheckpointServices) : CheckpointOp → Option (List UInt8)
  | .write _ opts => some (services.redactJsonlBytesWithFallback opts.transcript)
  | .update _ opts => (opts.transcript.filter fun transcript => !transcript.isEmpty).map
      services.redactJsonlBytesWithFallback

/-- The number of writes before the one that puts the hash into the row. -/
def writesBeforeHash : CheckpointOp → ℕ
  | .write _ _ => 6
  | .update _ _ => 2

/-- The call gets to store a transcript. -/
def StoresTranscript : CheckpointOp → Prop
  | .write ctx _ => ctx.stop ≠ some 0
  | .update ctx opts => (opts.transcript.filter fun transcript => !transcript.isEmpty).isSome ∧
      ctx.stop ≠ some 0

/-- The call stores a transcript and stops before it puts its hash into the row. -/
def Tears (op : CheckpointOp) : Prop :=
  op.StoresTranscript ∧ ∃ n, op.stop = some n ∧ n ≤ op.writesBeforeHash

end CheckpointOp

/-- The last call that stored a transcript for the session stopped before its row. -/
def LastTorn (ops : List CheckpointOp) (target : String × String) : Prop :=
  ∃ front op back, ops = front ++ op :: back ∧ op.target = target ∧ op.Tears ∧
    ∀ later ∈ back, later.target = target → ¬ later.StoresTranscript

variable {services : CheckpointServices} {checkpointId sessionId : String} {sessionIndex : ℕ}
  {s s' : Storage}

/-! ## Slots -/

/-- A session has one row, and the indices of a checkpoint have no gap below any of them. -/
structure Storage.Consistent (s : Storage) : Prop where
  oneRow : ∀ r ∈ s.sessions.rows, ∀ r' ∈ s.sessions.rows, r.checkpointId = r'.checkpointId →
    r.sessionId = r'.sessionId → r.sessionIndex = r'.sessionIndex
  noGap : ∀ r ∈ s.sessions.rows, ∀ i < r.sessionIndex,
    ∃ r' ∈ s.sessions.rows, r'.checkpointId = r.checkpointId ∧ r'.sessionIndex = i

/-- The index is that of the session, or the next one of the checkpoint. -/
structure Storage.IsSlot (s : Storage) (checkpointId sessionId : String) (sessionIndex : ℕ) :
    Prop where
  own : ∀ r ∈ s.sessions.rows, r.checkpointId = checkpointId → r.sessionIndex = sessionIndex →
    r.sessionId = sessionId
  only : ∀ r ∈ s.sessions.rows, r.checkpointId = checkpointId → r.sessionId = sessionId →
    r.sessionIndex = sessionIndex
  below : ∀ i < sessionIndex,
    ∃ r ∈ s.sessions.rows, r.checkpointId = checkpointId ∧ r.sessionIndex = i

/-- Both, as they are carried through the writes of a call. -/
def Storage.Slotted (s : Storage) (checkpointId sessionId : String) (sessionIndex : ℕ) : Prop :=
  s.Consistent ∧ s.IsSlot checkpointId sessionId sessionIndex

theorem mem_sessionRows {r : CheckpointSessionRow} :
    r ∈ s.sessionRows checkpointId ↔ r ∈ s.sessions.rows ∧ r.checkpointId = checkpointId := by
  rw [Storage.sessionRows, List.mem_filter, decide_eq_true_eq]

theorem findCheckpointSessionIndex_eq_some
    (h : findCheckpointSessionIndex checkpointId sessionId s = some sessionIndex) :
    ∃ r ∈ s.sessions.rows, r.checkpointId = checkpointId ∧ r.sessionId = sessionId ∧
      r.sessionIndex = sessionIndex := by
  obtain ⟨r, hr, hindex⟩ := Option.map_eq_some_iff.mp h
  have hmem := (orderBy_head? hr).1
  rw [List.mem_filter, mem_sessionRows, decide_eq_true_eq] at hmem
  exact ⟨r, hmem.1.1, hmem.1.2, hmem.2, hindex⟩

theorem findCheckpointSessionIndex_eq_none
    (h : findCheckpointSessionIndex checkpointId sessionId s = none) :
    ∀ r ∈ s.sessions.rows, r.checkpointId = checkpointId → r.sessionId ≠ sessionId := by
  intro r hr hcheckpoint hsession
  have hnil := orderBy_head?_eq_none.mp (Option.map_eq_none_iff.mp h)
  have hmem : r ∈ (s.sessionRows checkpointId).filter (·.sessionId = sessionId) :=
    List.mem_filter.mpr ⟨mem_sessionRows.mpr ⟨hr, hcheckpoint⟩, decide_eq_true hsession⟩
  rw [hnil] at hmem
  exact absurd hmem List.not_mem_nil

theorem latestCheckpointSessionIndex_eq_some
    (h : latestCheckpointSessionIndex checkpointId s = some sessionIndex) :
    (∃ r ∈ s.sessions.rows, r.checkpointId = checkpointId ∧ r.sessionIndex = sessionIndex) ∧
      ∀ r ∈ s.sessions.rows, r.checkpointId = checkpointId → r.sessionIndex ≤ sessionIndex := by
  obtain ⟨r, hr, hindex⟩ := Option.map_eq_some_iff.mp h
  obtain ⟨hmem, hlast⟩ := orderBy_getLast? hr
  obtain ⟨hrows, hcheckpoint⟩ := mem_sessionRows.mp hmem
  refine ⟨⟨r, hrows, hcheckpoint, hindex⟩, fun r' hr' hcheckpoint' => ?_⟩
  exact hindex ▸ hlast r' (mem_sessionRows.mpr ⟨hr', hcheckpoint'⟩)

theorem latestCheckpointSessionIndex_eq_none
    (h : latestCheckpointSessionIndex checkpointId s = none) :
    ∀ r ∈ s.sessions.rows, r.checkpointId ≠ checkpointId := by
  intro r hr hcheckpoint
  have hnil := List.getLast?_eq_none_iff.mp (Option.map_eq_none_iff.mp h)
  have hmem : r ∈ orderBy (·.sessionIndex) (s.sessionRows checkpointId) :=
    mem_orderBy.mpr (mem_sessionRows.mpr ⟨hr, hcheckpoint⟩)
  rw [hnil] at hmem
  exact absurd hmem List.not_mem_nil

/-- The index of a session with a row. -/
theorem isSlot_of_find (hs : s.Consistent)
    (h : findCheckpointSessionIndex checkpointId sessionId s = some sessionIndex) :
    s.IsSlot checkpointId sessionId sessionIndex := by
  obtain ⟨r, hr, rfl, rfl, rfl⟩ := findCheckpointSessionIndex_eq_some h
  refine ⟨?_, ?_, fun i hi => hs.noGap r hr i hi⟩
  · intro r' hr' hcheckpoint hindex
    rw [UniqueTable.eq_of_key_eq hr' hr (Prod.ext hcheckpoint hindex)]
  · intro r' hr' hcheckpoint hsession
    exact hs.oneRow r' hr' r hr hcheckpoint hsession

/-- **The index of a write** is a slot of its session. -/
theorem isSlot_resolve (hs : s.Consistent) : s.IsSlot checkpointId sessionId
    (resolveCheckpointSessionIndexForWrite checkpointId sessionId s) := by
  unfold resolveCheckpointSessionIndexForWrite
  cases hfind : findCheckpointSessionIndex checkpointId sessionId s with
  | some existing => exact isSlot_of_find hs hfind
  | none =>
    have hnew := findCheckpointSessionIndex_eq_none hfind
    show s.IsSlot checkpointId sessionId
      (((latestCheckpointSessionIndex checkpointId s).map (· + 1)).getD 0)
    cases hlatest : latestCheckpointSessionIndex checkpointId s with
    | none =>
      have hnone := latestCheckpointSessionIndex_eq_none hlatest
      refine ⟨fun r hr hcheckpoint => absurd hcheckpoint (hnone r hr),
        fun r hr hcheckpoint => absurd hcheckpoint (hnone r hr), ?_⟩
      intro i hi
      exact absurd hi (Nat.not_lt_zero i)
    | some last =>
      obtain ⟨⟨r, hr, hcheckpoint, rfl⟩, hlast⟩ := latestCheckpointSessionIndex_eq_some hlatest
      refine ⟨?_, ?_, ?_⟩
      · intro r' hr' hcheckpoint' hindex
        have hle := hlast r' hr' hcheckpoint'
        have hnext : r'.sessionIndex = r.sessionIndex + 1 := hindex
        omega
      · intro r' hr' hcheckpoint' hsession
        exact absurd hsession (hnew r' hr' hcheckpoint')
      · intro i hi
        rcases Nat.lt_or_eq_of_le (Nat.lt_succ_iff.mp hi) with hlt | rfl
        · obtain ⟨r', hr', hcheckpoint', hindex⟩ := hs.noGap r hr i hlt
          exact ⟨r', hr', hcheckpoint'.trans hcheckpoint, hindex⟩
        · exact ⟨r, hr, hcheckpoint, rfl⟩

/-- Rows of another session are elsewhere. -/
theorem Storage.IsSlot.key_ne (h : s.IsSlot checkpointId sessionId sessionIndex)
    {r : CheckpointSessionRow} (hr : r ∈ s.sessions.rows)
    (hother : (r.checkpointId, r.sessionId) ≠ (checkpointId, sessionId)) :
    r.key ≠ (checkpointId, sessionIndex) := by
  intro hkey
  obtain ⟨hcheckpoint, hindex⟩ := Prod.ext_iff.mp hkey
  exact hother (Prod.ext hcheckpoint (h.own r hr hcheckpoint hindex))

/-! ## Writes keep the slots -/

/-- The columns that name a row. -/
def CheckpointSessionRow.names (r : CheckpointSessionRow) : String × String × ℕ :=
  (r.checkpointId, r.sessionId, r.sessionIndex)

/-- The slots depend on what names the rows. -/
theorem slotted_of_names (h : s.Slotted checkpointId sessionId sessionIndex)
    (hnames : ∀ names, (∃ r ∈ s'.sessions.rows, r.names = names) ↔
      ∃ r ∈ s.sessions.rows, r.names = names) :
    s'.Slotted checkpointId sessionId sessionIndex := by
  obtain ⟨hs, hslot⟩ := h
  have hback : ∀ r ∈ s'.sessions.rows, ∃ r' ∈ s.sessions.rows, r'.names = r.names :=
    fun r hr => (hnames r.names).mp ⟨r, hr, rfl⟩
  have hforth : ∀ {otherId : String} {i : ℕ},
      (∃ r ∈ s.sessions.rows, r.checkpointId = otherId ∧ r.sessionIndex = i) →
        ∃ r ∈ s'.sessions.rows, r.checkpointId = otherId ∧ r.sessionIndex = i := by
    rintro _ _ ⟨r, hr, rfl, rfl⟩
    obtain ⟨r', hr', hsame⟩ := (hnames r.names).mpr ⟨r, hr, rfl⟩
    simp only [CheckpointSessionRow.names, Prod.mk.injEq] at hsame
    exact ⟨r', hr', hsame.1, hsame.2.2⟩
  refine ⟨⟨?_, ?_⟩, ⟨?_, ?_, fun i hi => hforth (hslot.below i hi)⟩⟩
  · intro r hr r' hr' hcheckpoint hsession
    obtain ⟨old, hold, hsame⟩ := hback r hr
    obtain ⟨old', hold', hsame'⟩ := hback r' hr'
    simp only [CheckpointSessionRow.names, Prod.mk.injEq] at hsame hsame'
    rw [← hsame.2.2, ← hsame'.2.2]
    refine hs.oneRow old hold old' hold' ?_ ?_
    · rw [hsame.1, hsame'.1, hcheckpoint]
    · rw [hsame.2.1, hsame'.2.1, hsession]
  · intro r hr i hi
    obtain ⟨old, hold, hsame⟩ := hback r hr
    simp only [CheckpointSessionRow.names, Prod.mk.injEq] at hsame
    rw [← hsame.1]
    exact hforth (hs.noGap old hold i (hsame.2.2 ▸ hi))
  · intro r hr hcheckpoint hindex
    obtain ⟨old, hold, hsame⟩ := hback r hr
    simp only [CheckpointSessionRow.names, Prod.mk.injEq] at hsame
    rw [← hsame.2.1]
    exact hslot.own old hold (hsame.1.trans hcheckpoint) (hsame.2.2.trans hindex)
  · intro r hr hcheckpoint hsession
    obtain ⟨old, hold, hsame⟩ := hback r hr
    simp only [CheckpointSessionRow.names, Prod.mk.injEq] at hsame
    rw [← hsame.2.2]
    exact hslot.only old hold (hsame.1.trans hcheckpoint) (hsame.2.1.trans hsession)

theorem storedRow_columns (row : CheckpointSessionRow) (s : Storage) :
    (storedRow row s).checkpointId = row.checkpointId ∧
      (storedRow row s).sessionId = row.sessionId ∧
      (storedRow row s).sessionIndex = row.sessionIndex ∧
      (storedRow row s).contentHash = row.contentHash := by
  obtain ⟨createdAt, hrow⟩ := storedRow_eq row s
  rw [hrow]
  exact ⟨rfl, rfl, rfl, rfl⟩

/-- The row of a session goes into its slot. -/
theorem slotted_sessionRow (row : CheckpointSessionRow)
    (h : s.Slotted row.checkpointId row.sessionId row.sessionIndex)
    (hwrite : upsertCheckpointSessionRow row s = some s') :
    s'.Slotted row.checkpointId row.sessionId row.sessionIndex := by
  obtain rfl := Option.some.inj hwrite
  obtain ⟨hs, hslot⟩ := h
  obtain ⟨hcheckpoint, hsession, hindex, -⟩ := storedRow_columns row s
  have hmem : ∀ r, r ∈ (s.sessions.upsertMerged mergeSessionRow row).rows ↔
      r = storedRow row s ∨ (r ∈ s.sessions.rows ∧ r.key ≠ row.key) := fun _ => mem_upsertMerged
  have hstays : ∀ r ∈ s.sessions.rows,
      ∃ r' ∈ (s.sessions.upsertMerged mergeSessionRow row).rows,
        r'.checkpointId = r.checkpointId ∧ r'.sessionIndex = r.sessionIndex := by
    intro r hr
    by_cases hkey : r.key = row.key
    · obtain ⟨hcheckpoint', hindex'⟩ := Prod.ext_iff.mp hkey
      exact ⟨_, (hmem _).mpr (.inl rfl), hcheckpoint.trans hcheckpoint'.symm,
        hindex.trans hindex'.symm⟩
    · exact ⟨r, (hmem r).mpr (.inr ⟨hr, hkey⟩), rfl, rfl⟩
  have hbelow : ∀ i < row.sessionIndex,
      ∃ r' ∈ (s.sessions.upsertMerged mergeSessionRow row).rows,
        r'.checkpointId = row.checkpointId ∧ r'.sessionIndex = i := by
    intro i hi
    obtain ⟨r, hr, hcheckpoint', hindex'⟩ := hslot.below i hi
    obtain ⟨r', hr', hsame⟩ := hstays r hr
    exact ⟨r', hr', hsame.1.trans hcheckpoint', hsame.2.trans hindex'⟩
  have hown : ∀ r ∈ (s.sessions.upsertMerged mergeSessionRow row).rows,
      r.checkpointId = row.checkpointId → r.sessionIndex = row.sessionIndex →
        r.sessionId = row.sessionId := by
    intro r hr hcheckpoint' hindex'
    rcases (hmem r).mp hr with rfl | ⟨hr, -⟩
    · exact hsession
    · exact hslot.own r hr hcheckpoint' hindex'
  have honly : ∀ r ∈ (s.sessions.upsertMerged mergeSessionRow row).rows,
      r.checkpointId = row.checkpointId → r.sessionId = row.sessionId →
        r.sessionIndex = row.sessionIndex := by
    intro r hr hcheckpoint' hsession'
    rcases (hmem r).mp hr with rfl | ⟨hr, -⟩
    · exact hindex
    · exact hslot.only r hr hcheckpoint' hsession'
  refine ⟨⟨?_, ?_⟩, ⟨hown, honly, hbelow⟩⟩
  · intro r hr r' hr' hsame hsame'
    rcases (hmem r).mp hr with rfl | ⟨hold, -⟩
    · have hrow := honly r' hr' (hsame.symm.trans hcheckpoint) (hsame'.symm.trans hsession)
      exact hindex.trans hrow.symm
    · rcases (hmem r').mp hr' with rfl | ⟨hold', -⟩
      · exact (honly r hr (hsame.trans hcheckpoint) (hsame'.trans hsession)).trans hindex.symm
      · exact hs.oneRow r hold r' hold' hsame hsame'
  · intro r hr i hi
    rcases (hmem r).mp hr with rfl | ⟨hold, -⟩
    · obtain ⟨r', hr', hsame, hindex'⟩ := hbelow i (hindex ▸ hi)
      exact ⟨r', hr', hsame.trans hcheckpoint.symm, hindex'⟩
    · obtain ⟨r₁, hr₁, hsame, hindex'⟩ := hs.noGap r hold i hi
      obtain ⟨r', hr', hsame₁⟩ := hstays r₁ hr₁
      exact ⟨r', hr', hsame₁.1.trans hsame, hsame₁.2.trans hindex'⟩

theorem names_modify {hash : String} {otherIndex : ℕ} {otherId : String}
    (hwrite : updateSessionContentHash otherId otherIndex hash s = some s')
    (names : String × String × ℕ) : (∃ r ∈ s'.sessions.rows, r.names = names) ↔
      ∃ r ∈ s.sessions.rows, r.names = names := by
  obtain rfl := Option.some.inj hwrite
  constructor
  · rintro ⟨r, hr, rfl⟩
    rw [UniqueTable.mem_modify] at hr
    rcases hr with ⟨hr, -⟩ | ⟨old, hold, -, rfl⟩
    · exact ⟨r, hr, rfl⟩
    · exact ⟨old, hold, rfl⟩
  · rintro ⟨r, hr, rfl⟩
    refine ⟨_, List.mem_map_of_mem hr, ?_⟩
    split_ifs <;> rfl

/-! ## Writes to the other tables -/

/-- The write leaves the session rows alone. -/
def KeepsRows (write : StorageWrite) : Prop := ∀ s s', write s = some s' → s'.sessions = s.sessions

/-- The write leaves the blob under the path alone. -/
def KeepsBlob (path : List Char) (write : StorageWrite) : Prop :=
  ∀ s s', write s = some s' → s'.blob? path = s.blob? path

theorem keepsRows_checkpointBlob {blobType : BlobType} {payload : List UInt8} :
    ∀ write ∈ upsertCheckpointBlob services checkpointId sessionIndex blobType payload,
      KeepsRows write := by
  intro write hwrite s s' h
  simp only [upsertCheckpointBlob, List.mem_cons, List.not_mem_nil, or_false] at hwrite
  rcases hwrite with rfl | rfl
  · obtain ⟨path, -, rfl⟩ := writeBlob_eq_some.mp h
    rfl
  · obtain rfl := Option.some.inj h
    rfl

theorem keepsBlob_of_blobs {path : List Char} {write : StorageWrite}
    (h : ∀ s s', write s = some s' → s'.blobs = s.blobs) : KeepsBlob path write := by
  intro s s' hwrite
  rw [Storage.blob?, h s s' hwrite, Storage.blob?]

/-- The blobs of one kind are not those of another. -/
theorem keepsBlob_checkpointBlob {path : List Char} {blobType other : BlobType}
    {payload : List UInt8} (hplain : PlainSegment checkpointId.toList)
    (hpath : blobPath services checkpointId sessionIndex blobType = some path)
    (hne : blobType ≠ other) :
    ∀ write ∈ upsertCheckpointBlob services checkpointId sessionIndex other payload,
      KeepsBlob path write := by
  intro write hwrite
  simp only [upsertCheckpointBlob, List.mem_cons, List.not_mem_nil, or_false] at hwrite
  rcases hwrite with rfl | rfl
  · intro s s' h
    obtain ⟨otherPath, hother, rfl⟩ := writeBlob_eq_some.mp h
    rw [blob?_upsert]
    refine if_neg ?_
    rintro rfl
    exact hne (normalizeBlobKey_injective hplain hplain hpath hother).2.2
  · refine keepsBlob_of_blobs fun s s' h => ?_
    obtain rfl := Option.some.inj h
    rfl

theorem keepsBlob_reference {path : List Char} {blobType : BlobType} {payload : List UInt8} :
    KeepsBlob path
      (upsertCheckpointBlobReference services checkpointId sessionIndex blobType payload) :=
  keepsBlob_of_blobs fun s s' h => by
    obtain rfl := Option.some.inj h
    rfl

theorem keepsBlob_sessionRow {path : List Char} {row : CheckpointSessionRow} :
    KeepsBlob path (upsertCheckpointSessionRow row) :=
  keepsBlob_of_blobs fun s s' h => by
    obtain rfl := Option.some.inj h
    rfl

theorem keepsBlob_contentHash {path : List Char} {hash : String} :
    KeepsBlob path (updateSessionContentHash checkpointId sessionIndex hash) :=
  keepsBlob_of_blobs fun s s' h => by
    obtain rfl := Option.some.inj h
    rfl

/-! ## What a call does -/

/-- Blobs of the checkpoint can be stored. -/
def Storable (services : CheckpointServices) (checkpointId : String) : Prop :=
  ∀ sessionIndex blobType, (blobPath services checkpointId sessionIndex blobType).isSome

/-- Whether a key is a path depends on the repository and the checkpoint. -/
theorem storable_of_blobPath {blobType : BlobType} (hplain : PlainSegment checkpointId.toList)
    (hpath : (blobPath services checkpointId sessionIndex blobType).isSome) :
    Storable services checkpointId := by
  obtain ⟨front, hfront⟩ := exists_pathSegments services.repoId
  have hdigits : ∀ n : ℕ, n.repr.toList ≠ ['.', '.'] := by
    intro n hn
    have hdot : '.' ∈ n.repr.toList := hn ▸ List.mem_cons_self
    rw [Nat.toList_repr] at hdot
    exact absurd (Nat.isDigit_of_mem_toDigits (by decide) (by decide) hdot) (by decide)
  have hfile : ∀ blobType : BlobType, blobType.defaultFileName.toList ≠ ['.', '.'] := by
    intro blobType
    cases blobType <;> decide
  have hiff : ∀ n blobType, (blobPath services checkpointId n blobType).isSome ↔
      ['.', '.'] ∉ front ∧ checkpointId.toList ≠ ['.', '.'] := by
    intro n blobType
    have hcondition : (front ++ [checkpointId.toList, n.repr.toList,
          blobType.defaultFileName.toList] = [] ∨
        ['.', '.'] ∈ front ++ [checkpointId.toList, n.repr.toList,
          blobType.defaultFileName.toList]) ↔
        ¬ (['.', '.'] ∉ front ∧ checkpointId.toList ≠ ['.', '.']) := by
      have hn := (hdigits n).symm
      have hb := (hfile blobType).symm
      rw [List.mem_append]
      simp only [List.mem_cons, List.not_mem_nil, or_false, hn, hb, List.append_eq_nil_iff,
        reduceCtorEq, and_false, false_or, not_and_or, not_not, ne_eq]
      exact or_congr Iff.rfl eq_comm
    simp only [blobPath, normalizeBlobKey]
    rw [hfront _ _ _ hplain]
    split_ifs with hinvalid
    · exact ⟨fun h => absurd h (by decide), fun h => absurd h (hcondition.mp hinvalid)⟩
    · refine ⟨fun _ => ?_, fun _ => rfl⟩
      exact Classical.byContradiction fun hnot => hinvalid (hcondition.mpr hnot)
  exact fun n blobType => (hiff n blobType).mpr ((hiff _ _).mp hpath)

/-- Every row belongs to a checkpoint whose blobs can be stored. -/
def Placed (services : CheckpointServices) (s : Storage) : Prop :=
  ∀ r ∈ s.sessions.rows, PlainSegment r.checkpointId.toList ∧ Storable services r.checkpointId

/-- **What a call does**: it is refused for a checkpoint without rows, or makes its writes in a
slot of the session. -/
theorem call_cases {op : CheckpointOp} (hs : s.Consistent) (hplaced : Placed services s)
    (h : op.Addressed s) :
    (op.call services s = (s, false) ∧ ∀ r ∈ s.sessions.rows, r.checkpointId ≠ op.checkpointId) ∨
      ∃ n, s.IsSlot op.checkpointId op.sessionId n ∧ PlainSegment op.checkpointId.toList ∧
        Storable services op.checkpointId ∧
        op.call services s = runWrites op.stop (op.writesAt services n) s := by
  cases op with
  | write ctx opts =>
    by_cases hempty : opts.checkpointId = ""
    · refine .inl ⟨if_pos hempty, fun r hr hcheckpoint => (hplaced r hr).1.1 ?_⟩
      rw [hcheckpoint]
      exact congrArg String.toList hempty
    · have hplain : PlainSegment opts.checkpointId.toList := h hempty
      have hcall : CheckpointOp.call services s (.write ctx opts) =
          runWrites ctx.stop (committedWrites services ctx opts
            (resolveCheckpointSessionIndexForWrite opts.checkpointId opts.sessionId s)) s :=
        if_neg hempty
      by_cases hstorable : Storable services opts.checkpointId
      · exact .inr ⟨_, isSlot_resolve hs, hplain, hstorable, hcall⟩
      · refine .inl ⟨?_, fun r hr hcheckpoint => hstorable ?_⟩
        · have hrefused : writeBlob services opts.checkpointId
              (resolveCheckpointSessionIndexForWrite opts.checkpointId opts.sessionId s)
              .transcript (services.redactJsonlBytesWithFallback opts.transcript) s = none := by
            refine Option.eq_none_iff_forall_ne_some.mpr fun s' hs' => hstorable ?_
            obtain ⟨path, hpath, -⟩ := writeBlob_eq_some.mp hs'
            exact storable_of_blobPath hplain (Option.isSome_iff_exists.mpr ⟨path, hpath⟩)
          rw [hcall]
          exact runWrites_failed hrefused
        · have hcheckpoint' : r.checkpointId = opts.checkpointId := hcheckpoint
          exact hcheckpoint' ▸ (hplaced r hr).2
  | update ctx opts =>
    obtain ⟨r, hr, hcheckpoint, hsession⟩ := h
    obtain ⟨hplain, hstorable⟩ := hplaced r hr
    rw [hcheckpoint] at hplain hstorable
    have hempty : opts.checkpointId ≠ "" := by
      intro hempty
      exact hplain.1 (congrArg String.toList hempty)
    cases hfind : findCheckpointSessionIndex opts.checkpointId opts.sessionId s with
    | none => exact absurd hsession (findCheckpointSessionIndex_eq_none hfind r hr hcheckpoint)
    | some n =>
      refine .inr ⟨n, isSlot_of_find hs hfind, hplain, hstorable, ?_⟩
      show updateCommitted services ctx opts s = _
      rw [updateCommitted, if_neg hempty, hfind]
      rfl

theorem slotted_of_keepsRows {write : StorageWrite} (hkeeps : KeepsRows write)
    (h : s.Slotted checkpointId sessionId sessionIndex) (hwrite : write s = some s') :
    s'.Slotted checkpointId sessionId sessionIndex :=
  slotted_of_names h fun _ => by rw [hkeeps s s' hwrite]

theorem keepsRows_blobWrites {opts : WriteCommittedOptions} :
    ∀ write ∈ blobWrites services opts sessionIndex, KeepsRows write := by
  intro write hwrite
  rcases List.mem_append.mp hwrite with hwrite | hwrite
  · rcases List.mem_append.mp hwrite with hwrite | hwrite
    · exact keepsRows_checkpointBlob write hwrite
    · exact keepsRows_checkpointBlob write hwrite
  · exact keepsRows_checkpointBlob write hwrite

theorem keepsRows_provenance {ctx : CallContext} {opts : WriteCommittedOptions} :
    KeepsRows (persistCheckpointProvenanceRows services ctx opts) :=
  fun _ _ h => (provenance_tables h).1

theorem keepsRows_aggregated {ctx : CallContext} {opts : WriteCommittedOptions} :
    KeepsRows (upsertAggregatedCheckpointRow services ctx opts) :=
  fun _ _ h => (aggregated_tables h).1

/-- The blobs of a call are not rows of checkpoints. -/
theorem checkpoints_of_blobWrites {opts : WriteCommittedOptions} :
    ∀ write ∈ blobWrites services opts sessionIndex, ∀ s s', write s = some s' →
      s'.checkpoints = s.checkpoints := by
  have hblob : ∀ blobType payload, ∀ write ∈ upsertCheckpointBlob services opts.checkpointId
      sessionIndex blobType payload, ∀ s s', write s = some s' →
        s'.checkpoints = s.checkpoints := by
    intro blobType payload write hwrite s s' h
    simp only [upsertCheckpointBlob, List.mem_cons, List.not_mem_nil, or_false] at hwrite
    rcases hwrite with rfl | rfl
    · obtain ⟨path, -, rfl⟩ := writeBlob_eq_some.mp h
      rfl
    · obtain rfl := Option.some.inj h
      rfl
  intro write hwrite
  rcases List.mem_append.mp hwrite with hwrite | hwrite
  · rcases List.mem_append.mp hwrite with hwrite | hwrite
    · exact hblob _ _ write hwrite
    · exact hblob _ _ write hwrite
  · exact hblob _ _ write hwrite

theorem checkpoints_of_provenance {ctx : CallContext} {opts : WriteCommittedOptions}
    (h : persistCheckpointProvenanceRows services ctx opts s = some s') :
    s'.checkpoints = s.checkpoints := by
  unfold persistCheckpointProvenanceRows at h
  split at h <;> obtain rfl := Option.some.inj h <;> rfl

/-- The writes of an update after those of the transcript. -/
def updateBack (services : CheckpointServices) (ctx : CallContext)
    (opts : UpdateCommittedOptions) (sessionIndex : ℕ) : List StorageWrite :=
  promptsWrites services opts sessionIndex ++ contextWrites services opts sessionIndex ++
    [touchCheckpointUpdatedAt opts.checkpointId ctx.now]

theorem mem_updateBack {ctx : CallContext} {opts : UpdateCommittedOptions} {write : StorageWrite}
    (h : write ∈ updateBack services ctx opts sessionIndex) :
    (∃ blobType payload, BlobType.transcript ≠ blobType ∧ write ∈
      upsertCheckpointBlob services opts.checkpointId sessionIndex blobType payload) ∨
      write = touchCheckpointUpdatedAt opts.checkpointId ctx.now := by
  simp only [updateBack, List.mem_append, List.mem_singleton] at h
  rcases h with (hwrite | hwrite) | hwrite
  · unfold promptsWrites at hwrite
    split at hwrite
    · exact absurd hwrite List.not_mem_nil
    · exact .inl ⟨.prompts, _, nofun, hwrite⟩
  · unfold contextWrites at hwrite
    split at hwrite
    · exact absurd hwrite List.not_mem_nil
    · exact .inl ⟨.context, _, nofun, hwrite⟩
  · exact .inr hwrite

theorem keepsRows_updateBack {ctx : CallContext} {opts : UpdateCommittedOptions} :
    ∀ write ∈ updateBack services ctx opts sessionIndex, KeepsRows write := by
  intro write hwrite
  rcases mem_updateBack hwrite with ⟨blobType, payload, -, hwrite⟩ | rfl
  · exact keepsRows_checkpointBlob write hwrite
  · exact fun _ _ h => (touch_tables h).1

theorem keepsBlob_updateBack {ctx : CallContext} {opts : UpdateCommittedOptions}
    {path : List Char} (hplain : PlainSegment opts.checkpointId.toList)
    (hpath : blobPath services opts.checkpointId sessionIndex .transcript = some path) :
    ∀ write ∈ updateBack services ctx opts sessionIndex, KeepsBlob path write := by
  intro write hwrite
  rcases mem_updateBack hwrite with ⟨blobType, payload, hne, hwrite⟩ | rfl
  · exact keepsBlob_checkpointBlob hplain hpath hne write hwrite
  · exact keepsBlob_of_blobs fun _ _ h => (touch_tables h).2.1

theorem updatedWrites_of_transcript {ctx : CallContext} {opts : UpdateCommittedOptions}
    {transcript : List UInt8}
    (h : (opts.transcript.filter fun transcript => !transcript.isEmpty) = some transcript) :
    updatedWrites services ctx opts sessionIndex =
      upsertCheckpointBlob services opts.checkpointId sessionIndex .transcript
          (services.redactJsonlBytesWithFallback transcript) ++
        updateSessionContentHash opts.checkpointId sessionIndex
            (contentHash services (services.redactJsonlBytesWithFallback transcript)) ::
          updateBack services ctx opts sessionIndex := by
  have htranscript : transcriptWrites services opts sessionIndex =
      upsertCheckpointBlob services opts.checkpointId sessionIndex .transcript
          (services.redactJsonlBytesWithFallback transcript) ++
        [updateSessionContentHash opts.checkpointId sessionIndex
          (contentHash services (services.redactJsonlBytesWithFallback transcript))] := by
    unfold transcriptWrites
    rw [h]
  simp only [updatedWrites]
  rw [htranscript, if_neg (by simp [upsertCheckpointBlob])]
  simp only [updateBack, List.append_assoc, List.cons_append, List.nil_append]

/-- An update without a transcript. -/
theorem mem_updatedWrites_of_none {ctx : CallContext} {opts : UpdateCommittedOptions}
    (h : (opts.transcript.filter fun transcript => !transcript.isEmpty) = none) :
    ∀ write ∈ updatedWrites services ctx opts sessionIndex,
      write ∈ updateBack services ctx opts sessionIndex := by
  intro write hwrite
  have htranscript : transcriptWrites services opts sessionIndex = [] := by
    unfold transcriptWrites
    rw [h]
  simp only [updatedWrites] at hwrite
  rw [htranscript, List.nil_append] at hwrite
  split_ifs at hwrite
  · exact absurd hwrite List.not_mem_nil
  · exact hwrite

/-- **Every write of a call keeps the slots.** -/
theorem slotted_writesAt {op : CheckpointOp} :
    ∀ write ∈ op.writesAt services sessionIndex, ∀ s s',
      s.Slotted op.checkpointId op.sessionId sessionIndex → write s = some s' →
        s'.Slotted op.checkpointId op.sessionId sessionIndex := by
  intro write hmem s s' h hwrite
  cases op with
  | write ctx opts =>
    rcases List.mem_append.mp hmem with hmem | hmem
    · exact slotted_of_keepsRows (keepsRows_blobWrites write hmem) h hwrite
    · simp only [List.mem_cons, List.not_mem_nil, or_false] at hmem
      rcases hmem with rfl | rfl | rfl
      · exact slotted_sessionRow (sessionRowOf services ctx opts sessionIndex) h hwrite
      · exact slotted_of_keepsRows keepsRows_provenance h hwrite
      · exact slotted_of_keepsRows keepsRows_aggregated h hwrite
  | update ctx opts =>
    cases htranscript : opts.transcript.filter fun transcript => !transcript.isEmpty with
    | none =>
      have hback := mem_updatedWrites_of_none htranscript write hmem
      exact slotted_of_keepsRows (keepsRows_updateBack write hback) h hwrite
    | some transcript =>
      rw [CheckpointOp.writesAt, updatedWrites_of_transcript htranscript] at hmem
      rcases List.mem_append.mp hmem with hmem | hmem
      · exact slotted_of_keepsRows (keepsRows_checkpointBlob write hmem) h hwrite
      · rcases List.mem_cons.mp hmem with rfl | hmem
        · exact slotted_of_names h (names_modify hwrite)
        · exact slotted_of_keepsRows (keepsRows_updateBack write hmem) h hwrite

theorem concerns_writesAt {op : CheckpointOp} (hplain : PlainSegment op.checkpointId.toList) :
    ∀ write ∈ op.writesAt services sessionIndex,
      Concerns services op.checkpointId sessionIndex write := by
  cases op with
  | write ctx opts => exact concerns_committedWrites hplain
  | update ctx opts => exact concerns_updatedWrites hplain

/-! ## Hashes -/

/-- The hash in the row is that of the transcript stored at its index. -/
def HashMatches (services : CheckpointServices) (s : Storage) (r : CheckpointSessionRow) : Prop :=
  ∃ path data, blobPath services r.checkpointId r.sessionIndex .transcript = some path ∧
    s.blob? path = some data ∧ r.contentHash = contentHash services data

theorem hashMatches_iff {r : CheckpointSessionRow} : HashMatches services s r ↔
    ((blobPath services r.checkpointId r.sessionIndex .transcript).bind s.blob?).map
      (contentHash services) = some r.contentHash := by
  simp only [HashMatches, Option.map_eq_some_iff, Option.bind_eq_some_iff]
  constructor
  · rintro ⟨path, data, hpath, hdata, hhash⟩
    exact ⟨data, ⟨path, hpath, hdata⟩, hhash.symm⟩
  · rintro ⟨data, ⟨path, hpath, hdata⟩, hhash⟩
    exact ⟨path, data, hpath, hdata, hhash.symm⟩

instance {r : CheckpointSessionRow} : Decidable (HashMatches services s r) :=
  decidable_of_iff' _ hashMatches_iff

/-- The rows at an index have the hash. -/
def RowsHashed (checkpointId : String) (sessionIndex : ℕ) (hash : String) (s : Storage) : Prop :=
  ∀ r ∈ s.sessions.rows, r.key = (checkpointId, sessionIndex) → r.contentHash = hash

theorem rowsHashed_sessionRow (row : CheckpointSessionRow) (s : Storage) :
    ∃ s', upsertCheckpointSessionRow row s = some s' ∧
      RowsHashed row.checkpointId row.sessionIndex row.contentHash s' := by
  refine ⟨_, rfl, fun r hr hkey => ?_⟩
  rcases mem_upsertMerged.mp hr with rfl | ⟨-, hne⟩
  · exact (storedRow_columns row s).2.2.2
  · exact absurd hkey hne

theorem rowsHashed_contentHash (checkpointId : String) (sessionIndex : ℕ) (hash : String)
    (s : Storage) : ∃ s', updateSessionContentHash checkpointId sessionIndex hash s = some s' ∧
      RowsHashed checkpointId sessionIndex hash s' := by
  refine ⟨_, rfl, fun r hr hkey => ?_⟩
  rw [UniqueTable.mem_modify] at hr
  rcases hr with ⟨-, hne⟩ | ⟨old, -, -, rfl⟩
  · obtain ⟨hcheckpoint, hindex⟩ := Prod.ext_iff.mp hkey
    exact absurd ⟨hcheckpoint, hindex⟩ (of_decide_eq_false hne)
  · rfl

theorem isSome_checkpointBlob (hstorable : Storable services checkpointId) {blobType : BlobType}
    {payload : List UInt8} :
    ∀ write ∈ upsertCheckpointBlob services checkpointId sessionIndex blobType payload,
      ∀ s, (write s).isSome := by
  intro write hwrite s
  simp only [upsertCheckpointBlob, List.mem_cons, List.not_mem_nil, or_false] at hwrite
  rcases hwrite with rfl | rfl
  · obtain ⟨path, hpath⟩ := Option.isSome_iff_exists.mp (hstorable sessionIndex blobType)
    exact Option.isSome_iff_exists.mpr ⟨_, writeBlob_eq_some.mpr ⟨path, hpath, rfl⟩⟩
  · rfl

theorem isSome_blobWrites {opts : WriteCommittedOptions}
    (hstorable : Storable services opts.checkpointId) :
    ∀ write ∈ blobWrites services opts sessionIndex, ∀ s, (write s).isSome := by
  intro write hwrite
  rcases List.mem_append.mp hwrite with hwrite | hwrite
  · rcases List.mem_append.mp hwrite with hwrite | hwrite
    · exact isSome_checkpointBlob hstorable write hwrite
    · exact isSome_checkpointBlob hstorable write hwrite
  · exact isSome_checkpointBlob hstorable write hwrite

/-- **The transcript comes first**, and no later write of the call changes it. -/
theorem blob?_of_stored {op : CheckpointOp} {data : List UInt8} {path : List Char}
    (hplain : PlainSegment op.checkpointId.toList)
    (hpath : blobPath services op.checkpointId sessionIndex .transcript = some path)
    (hdata : op.transcript? services = some data) (hstop : op.stop ≠ some 0) :
    (runWrites op.stop (op.writesAt services sessionIndex) s).1.blob? path = some data := by
  have hfirst : ∀ s, ∃ s', writeBlob services op.checkpointId sessionIndex .transcript data s =
      some s' ∧ s'.blob? path = some data := by
    intro s
    refine ⟨_, writeBlob_eq_some.mpr ⟨path, hpath, rfl⟩, ?_⟩
    rw [blob?_upsert, if_pos rfl]
  have hreached : ∀ n, op.stop = some n → ([] : List StorageWrite).length < n := by
    intro n hn
    have hne : n ≠ 0 := fun hzero => hstop (hzero ▸ hn)
    exact Nat.pos_of_ne_zero hne
  have hrun : ∀ back, op.writesAt services sessionIndex =
      writeBlob services op.checkpointId sessionIndex .transcript data :: back →
      (∀ write ∈ back, KeepsBlob path write) →
        (runWrites op.stop (op.writesAt services sessionIndex) s).1.blob? path = some data := by
    intro back hwrites hback
    rw [hwrites]
    refine runWrites_of_reached [] (fun s => s.blob? path = some data)
      (fun write hwrite => absurd hwrite List.not_mem_nil) hreached hfirst ?_
    intro write hwrite s s' hs hstep
    exact (hback write hwrite s s' hstep).trans hs
  cases op with
  | write ctx opts =>
    obtain rfl := Option.some.inj hdata
    refine hrun (upsertCheckpointBlobReference services opts.checkpointId sessionIndex .transcript
        (services.redactJsonlBytesWithFallback opts.transcript) ::
      (upsertCheckpointBlob services opts.checkpointId sessionIndex .prompts
          (promptBytes services (opts.prompts.getD [])) ++
        (upsertCheckpointBlob services opts.checkpointId sessionIndex .context
            (services.redactBytes (opts.context.getD [])) ++
          [upsertCheckpointSessionRow (sessionRowOf services ctx opts sessionIndex),
            persistCheckpointProvenanceRows services ctx opts,
            upsertAggregatedCheckpointRow services ctx opts]))) rfl fun write hwrite => ?_
    rcases List.mem_cons.mp hwrite with rfl | hwrite
    · exact keepsBlob_reference
    · simp only [List.mem_append, List.mem_cons, List.not_mem_nil, or_false] at hwrite
      rcases hwrite with hwrite | hwrite | rfl | rfl | rfl
      · exact keepsBlob_checkpointBlob hplain hpath (by decide) write hwrite
      · exact keepsBlob_checkpointBlob hplain hpath (by decide) write hwrite
      · exact keepsBlob_sessionRow
      · exact keepsBlob_of_blobs fun _ _ h => (provenance_tables h).2.1
      · exact keepsBlob_of_blobs fun _ _ h => (aggregated_tables h).2.1
  | update ctx opts =>
    obtain ⟨transcript, htranscript, rfl⟩ := Option.map_eq_some_iff.mp hdata
    refine hrun _ (updatedWrites_of_transcript htranscript) fun write hwrite => ?_
    rcases List.mem_cons.mp hwrite with rfl | hwrite
    · exact keepsBlob_reference
    · rcases List.mem_cons.mp hwrite with rfl | hwrite
      · exact keepsBlob_contentHash
      · exact keepsBlob_updateBack hplain hpath write hwrite

/-- **The hash follows**, if the call is let through as far. -/
theorem rowsHashed_of_stored {op : CheckpointOp} {data : List UInt8}
    (hstorable : Storable services op.checkpointId)
    (hdata : op.transcript? services = some data)
    (hstop : ∀ n, op.stop = some n → op.writesBeforeHash < n) :
    RowsHashed op.checkpointId sessionIndex (contentHash services data)
      (runWrites op.stop (op.writesAt services sessionIndex) s).1 := by
  have hkeeps : ∀ back : List StorageWrite, (∀ write ∈ back, KeepsRows write) →
      ∀ write ∈ back, ∀ s s', RowsHashed op.checkpointId sessionIndex (contentHash services data) s →
        write s = some s' →
          RowsHashed op.checkpointId sessionIndex (contentHash services data) s' := by
    intro back hback write hwrite s s' hs hstep
    unfold RowsHashed
    rw [hback write hwrite s s' hstep]
    exact hs
  cases op with
  | write ctx opts =>
    obtain rfl := Option.some.inj hdata
    refine runWrites_of_reached _ _ (isSome_blobWrites hstorable) hstop
      (rowsHashed_sessionRow (sessionRowOf services ctx opts sessionIndex)) (hkeeps _ ?_)
    intro write hwrite
    simp only [List.mem_cons, List.not_mem_nil, or_false] at hwrite
    rcases hwrite with rfl | rfl
    · exact keepsRows_provenance
    · exact keepsRows_aggregated
  | update ctx opts =>
    obtain ⟨transcript, htranscript, rfl⟩ := Option.map_eq_some_iff.mp hdata
    rw [CheckpointOp.writesAt, updatedWrites_of_transcript htranscript]
    exact runWrites_of_reached _ _ (isSome_checkpointBlob hstorable) hstop
      (rowsHashed_contentHash _ _ _) (hkeeps _ keepsRows_updateBack)

/-- A call that does not store a transcript leaves the transcript and the rows alone. -/
theorem unchanged_of_not_stored {op : CheckpointOp} {path : List Char}
    (hplain : PlainSegment op.checkpointId.toList)
    (hpath : blobPath services op.checkpointId sessionIndex .transcript = some path)
    (hnot : ¬ op.StoresTranscript) :
    (runWrites op.stop (op.writesAt services sessionIndex) s).1.sessions = s.sessions ∧
      (runWrites op.stop (op.writesAt services sessionIndex) s).1.blob? path = s.blob? path := by
  by_cases hstop : op.stop = some 0
  · rw [hstop]
    cases op.writesAt services sessionIndex with
    | nil => exact ⟨rfl, rfl⟩
    | cons write writes => exact ⟨rfl, rfl⟩
  · cases op with
    | write ctx opts => exact absurd hstop hnot
    | update ctx opts =>
      have hnone : (opts.transcript.filter fun transcript => !transcript.isEmpty) = none :=
        Option.not_isSome_iff_eq_none.mp fun hsome => hnot ⟨hsome, hstop⟩
      refine runWrites_invariant
        (fun s' : Storage => s'.sessions = s.sessions ∧ s'.blob? path = s.blob? path) ?_ ⟨rfl, rfl⟩
      intro write hmem s₁ s₂ hs₁ hwrite
      have hback := mem_updatedWrites_of_none hnone write hmem
      exact ⟨(keepsRows_updateBack write hback s₁ s₂ hwrite).trans hs₁.1,
        (keepsBlob_updateBack hplain hpath write hback s₁ s₂ hwrite).trans hs₁.2⟩

/-! ## One call -/

/-- What is stored for the other sessions is the same. -/
structure OthersUnchanged (services : CheckpointServices) (target : String × String)
    (s s' : Storage) : Prop where
  rows : ∀ r : CheckpointSessionRow, (r.checkpointId, r.sessionId) ≠ target →
    (r ∈ s'.sessions.rows ↔ r ∈ s.sessions.rows)
  blobs : ∀ r ∈ s.sessions.rows, (r.checkpointId, r.sessionId) ≠ target → ∀ blobType path,
    blobPath services r.checkpointId r.sessionIndex blobType = some path →
      s'.blob? path = s.blob? path
  references : ∀ r ∈ s.sessions.rows, (r.checkpointId, r.sessionId) ≠ target → ∀ blobType,
    s'.reference? (blobReferenceId r.checkpointId r.sessionIndex blobType) =
      s.reference? (blobReferenceId r.checkpointId r.sessionIndex blobType)

variable {op : CheckpointOp}

/-- The slots and the frame of a call that makes its writes. -/
theorem runWrites_slot (services : CheckpointServices) (hs : s.Consistent)
    (hslot : s.IsSlot op.checkpointId op.sessionId sessionIndex)
    (hplain : PlainSegment op.checkpointId.toList) :
    (runWrites op.stop (op.writesAt services sessionIndex) s).1.Slotted op.checkpointId
        op.sessionId sessionIndex ∧
      Elsewhere services op.checkpointId sessionIndex s
        (runWrites op.stop (op.writesAt services sessionIndex) s).1 :=
  ⟨runWrites_invariant (fun s' : Storage => s'.Slotted op.checkpointId op.sessionId sessionIndex)
      slotted_writesAt ⟨hs, hslot⟩,
    elsewhere_runWrites (concerns_writesAt hplain)⟩

theorem consistent_call (hs : s.Consistent) (hplaced : Placed services s) (h : op.Addressed s) :
    (op.call services s).1.Consistent := by
  rcases call_cases hs hplaced h with ⟨hcall, -⟩ | ⟨n, hslot, hplain, -, hcall⟩
  · rwa [hcall]
  · rw [hcall]
    exact (runWrites_slot services hs hslot hplain).1.1

theorem placed_call (hs : s.Consistent) (hplaced : Placed services s) (h : op.Addressed s) :
    Placed services (op.call services s).1 := by
  rcases call_cases hs hplaced h with ⟨hcall, -⟩ | ⟨n, hslot, hplain, hstorable, hcall⟩
  · rwa [hcall]
  · rw [hcall]
    intro r hr
    by_cases hkey : r.key = (op.checkpointId, n)
    · have hcheckpoint : r.checkpointId = op.checkpointId := congrArg Prod.fst hkey
      rw [hcheckpoint]
      exact ⟨hplain, hstorable⟩
    · exact hplaced r (((runWrites_slot services hs hslot hplain).2.rows r hkey).mp hr)

/-- **A call for one session changes nothing of another.** -/
theorem othersUnchanged_call (hs : s.Consistent) (hplaced : Placed services s)
    (h : op.Addressed s) : OthersUnchanged services op.target s (op.call services s).1 := by
  rcases call_cases hs hplaced h with ⟨hcall, -⟩ | ⟨n, hslot, hplain, -, hcall⟩
  · rw [hcall]
    exact ⟨fun _ _ => Iff.rfl, fun _ _ _ _ _ _ => rfl, fun _ _ _ _ => rfl⟩
  · rw [hcall]
    obtain ⟨hslotted, helsewhere⟩ := runWrites_slot services hs hslot hplain
    refine ⟨fun r hother => ?_, fun r hr hother blobType path hpath => ?_,
      fun r hr hother blobType => ?_⟩
    · by_cases hkey : r.key = (op.checkpointId, n)
      · constructor
        · exact fun hr => absurd hkey (hslotted.2.key_ne hr hother)
        · exact fun hr => absurd hkey (hslot.key_ne hr hother)
      · exact helsewhere.rows r hkey
    · exact helsewhere.blobs _ _ blobType path (hplaced r hr).1 (hslot.key_ne hr hother) hpath
    · exact helsewhere.references _ _ blobType (hplaced r hr).1 (hslot.key_ne hr hother)

theorem hashMatches_of_same {r : CheckpointSessionRow} (h : HashMatches services s r)
    (hblob : ∀ path, blobPath services r.checkpointId r.sessionIndex .transcript = some path →
      s'.blob? path = s.blob? path) : HashMatches services s' r := by
  obtain ⟨path, data, hpath, hdata, hhash⟩ := h
  exact ⟨path, data, hpath, (hblob path hpath).trans hdata, hhash⟩

theorem LastTorn.concat {ops : List CheckpointOp} {target : String × String}
    (h : LastTorn ops target) (hop : op.target = target → ¬ op.StoresTranscript) :
    LastTorn (ops ++ [op]) target := by
  obtain ⟨front, torn, back, rfl, htarget, htears, hback⟩ := h
  refine ⟨front, torn, back ++ [op], by simp, htarget, htears, fun later hlater => ?_⟩
  rcases List.mem_append.mp hlater with hlater | hlater
  · exact hback later hlater
  · rw [List.mem_singleton.mp hlater]
    exact hop

theorem transcript?_of_stores (services : CheckpointServices) (h : op.StoresTranscript) :
    op.stop ≠ some 0 ∧ ∃ data, op.transcript? services = some data := by
  cases op with
  | write ctx opts => exact ⟨h, _, rfl⟩
  | update ctx opts =>
    obtain ⟨transcript, htranscript⟩ := Option.isSome_iff_exists.mp h.1
    refine ⟨h.2, services.redactJsonlBytesWithFallback transcript, ?_⟩
    rw [CheckpointOp.transcript?, htranscript]
    rfl

/-- **The hash after a call**: right, or the last call that stored a transcript was torn. -/
theorem hashMatches_call {ops : List CheckpointOp} (hs : s.Consistent)
    (hplaced : Placed services s) (h : op.Addressed s)
    (hhash : ∀ r ∈ s.sessions.rows,
      HashMatches services s r ∨ LastTorn ops (r.checkpointId, r.sessionId)) :
    ∀ r ∈ (op.call services s).1.sessions.rows, HashMatches services (op.call services s).1 r ∨
      LastTorn (ops ++ [op]) (r.checkpointId, r.sessionId) := by
  intro r hr
  have hframe := othersUnchanged_call hs hplaced h
  by_cases hother : (r.checkpointId, r.sessionId) = op.target
  · rcases call_cases hs hplaced h with ⟨hcall, hnone⟩ | ⟨n, hslot, hplain, hstorable, hcall⟩
    · rw [hcall] at hr
      exact absurd (congrArg Prod.fst hother) (hnone r hr)
    · rw [hcall] at hr ⊢
      obtain ⟨hslotted, -⟩ := runWrites_slot services hs hslot hplain
      have hcheckpoint : r.checkpointId = op.checkpointId := congrArg Prod.fst hother
      have hindex : r.sessionIndex = n :=
        hslotted.2.only r hr hcheckpoint (congrArg Prod.snd hother)
      obtain ⟨path, hpath⟩ := Option.isSome_iff_exists.mp (hstorable n .transcript)
      by_cases hstores : op.StoresTranscript
      · by_cases htears : op.Tears
        · exact .inr ⟨ops, op, [], rfl, hother.symm, htears, fun _ hlater => nomatch hlater⟩
        · obtain ⟨hstop, data, hdata⟩ := transcript?_of_stores services hstores
          have hreached : ∀ k, op.stop = some k → op.writesBeforeHash < k := by
            intro k hk
            exact Nat.lt_of_not_le fun hle => htears ⟨hstores, k, hk, hle⟩
          refine .inl ⟨path, data, ?_, blob?_of_stored hplain hpath hdata hstop,
            rowsHashed_of_stored hstorable hdata hreached r hr (Prod.ext hcheckpoint hindex)⟩
          rw [hcheckpoint, hindex]
          exact hpath
      · obtain ⟨hrows, hblob⟩ := unchanged_of_not_stored (s := s) hplain hpath hstores
        rw [hrows] at hr
        refine (hhash r hr).imp ?_ fun htorn => htorn.concat fun _ => hstores
        intro hmatches
        refine hashMatches_of_same hmatches fun path' hpath' => ?_
        rw [hcheckpoint, hindex] at hpath'
        obtain rfl := Option.some.inj (hpath.symm.trans hpath')
        exact hblob
  · have hold := (hframe.rows r hother).mp hr
    refine (hhash r hold).imp ?_ fun htorn => htorn.concat fun h => absurd h.symm hother
    intro hmatches
    exact hashMatches_of_same hmatches fun path hpath =>
      hframe.blobs r hold hother .transcript path hpath

/-! ## The aggregate -/

/-- The row of a checkpoint holds the aggregate over its session rows. -/
def Aggregated (s : Storage) (checkpointId : String) : Prop :=
  ∃ row ∈ s.checkpoints.rows, row.checkpointId = checkpointId ∧
    row.checkpointsCount.toNat =
      min ((s.sessionRows checkpointId).map (·.checkpointsCount.toNat)).sum (2 ^ 32 - 1) ∧
    IsUsageTotal ((s.sessionRows checkpointId).map (·.tokenUsage)) row.tokenUsage

/-- The aggregate does not depend on the order of the session rows. -/
theorem aggregateCheckpointMetadata_spec (checkpointId : String) (s : Storage) :
    (aggregateCheckpointMetadata checkpointId s).1.toNat =
        min ((s.sessionRows checkpointId).map (·.checkpointsCount.toNat)).sum (2 ^ 32 - 1) ∧
      IsUsageTotal ((s.sessionRows checkpointId).map (·.tokenUsage))
        (aggregateCheckpointMetadata checkpointId s).2 := by
  have hperm := perm_orderBy (·.sessionIndex) (s.sessionRows checkpointId)
  constructor
  · have hsum := (hperm.map (·.checkpointsCount.toNat)).sum_eq
    simp only [aggregateCheckpointMetadata]
    rw [hsum, UInt32.toNat_ofNat']
    refine Nat.mod_eq_of_lt ?_
    have hle := Nat.min_le_right
      ((s.sessionRows checkpointId).map (·.checkpointsCount.toNat)).sum (2 ^ 32 - 1)
    omega
  · have htotal := isUsageTotal_foldl
      ((orderBy (·.sessionIndex) (s.sessionRows checkpointId)).map (·.tokenUsage))
    rw [List.foldl_map] at htotal
    exact htotal.perm (hperm.map (·.tokenUsage))

/-- The last write of a call puts the aggregate into the row. -/
theorem aggregated_of_upsert {ctx : CallContext} {opts : WriteCommittedOptions}
    (h : upsertAggregatedCheckpointRow services ctx opts s = some s') :
    Aggregated s' opts.checkpointId := by
  obtain ⟨hcount, husage⟩ := aggregateCheckpointMetadata_spec opts.checkpointId s
  obtain rfl := Option.some.inj h
  unfold Aggregated
  have hrows : ∀ table checkpointId, ({ s with checkpoints := table } : Storage).sessionRows
      checkpointId = s.sessionRows checkpointId := fun _ _ => rfl
  rw [hrows]
  refine ⟨_, UniqueTable.mem_upsert.mpr (.inl rfl), ?_⟩
  cases findRow (·.checkpointId) opts.checkpointId s.checkpoints.rows with
  | none => exact ⟨rfl, hcount, husage⟩
  | some old => exact ⟨rfl, hcount, husage⟩

/-- **A successful write leaves the aggregate.** -/
theorem aggregated_of_written {ctx : CallContext} {opts : WriteCommittedOptions}
    (h : (writeCommitted services ctx opts s).2 = true) :
    Aggregated (writeCommitted services ctx opts s).1 opts.checkpointId := by
  simp only [writeCommitted] at h ⊢
  split_ifs at h ⊢ with hempty
  generalize resolveCheckpointSessionIndexForWrite opts.checkpointId opts.sessionId s = n at h ⊢
  have hwrites : committedWrites services ctx opts n =
      (blobWrites services opts n ++
        [upsertCheckpointSessionRow (sessionRowOf services ctx opts n),
          persistCheckpointProvenanceRows services ctx opts]) ++
        [upsertAggregatedCheckpointRow services ctx opts] := by
    rw [committedWrites, List.append_assoc]
    rfl
  rw [hwrites, runWrites_append] at h ⊢
  split_ifs at h ⊢ with hfirst
  · generalize (runWrites ctx.stop _ s).1 = s₁ at h ⊢
    generalize ctx.stop.map _ = stop at h ⊢
    have hstop : stop ≠ some 0 := by
      rintro rfl
      exact absurd h Bool.false_ne_true
    obtain ⟨s₂, hs₂⟩ : ∃ s₂, upsertAggregatedCheckpointRow services ctx opts s₁ = some s₂ :=
      ⟨_, rfl⟩
    rw [runWrites_cons hstop hs₂, runWrites_nil]
    exact aggregated_of_upsert hs₂
  · exact absurd h hfirst

/-! ## Any calls -/

/-- What holds after a sequence of calls, and of a call that follows. -/
structure ConsistentAfter (services : CheckpointServices) (ops : List CheckpointOp)
    (s : Storage) : Prop where
  oneRow : ∀ r ∈ s.sessions.rows, ∀ r' ∈ s.sessions.rows, r.checkpointId = r'.checkpointId →
    r.sessionId = r'.sessionId → r = r'
  indices : ∀ checkpointId, ((s.sessionRows checkpointId).map (·.sessionIndex)).Perm
    (List.range (s.sessionRows checkpointId).length)
  contentHash : ∀ r ∈ s.sessions.rows,
    HashMatches services s r ∨ LastTorn ops (r.checkpointId, r.sessionId)
  others : ∀ op : CheckpointOp, op.Addressed s →
    OthersUnchanged services op.target s (op.call services s).1
  aggregated : ∀ ctx opts, (writeCommitted services ctx opts s).2 = true →
    Aggregated (writeCommitted services ctx opts s).1 opts.checkpointId

/-- The indices of a checkpoint are the first numbers. -/
theorem sessionIndices_perm (hs : s.Consistent) (checkpointId : String) :
    ((s.sessionRows checkpointId).map (·.sessionIndex)).Perm
      (List.range (s.sessionRows checkpointId).length) := by
  have hnodup : ((s.sessionRows checkpointId).map (·.sessionIndex)).Nodup := by
    have hkeys : ((s.sessionRows checkpointId).map CheckpointSessionRow.key).Nodup :=
      s.sessions.unique.sublist (List.filter_sublist.map _)
    refine List.Nodup.of_map (checkpointId, ·) ?_
    rw [List.map_map]
    have hsame : ∀ r ∈ s.sessionRows checkpointId,
        ((checkpointId, ·) ∘ (·.sessionIndex)) r = r.key := by
      intro r hr
      exact Prod.ext (mem_sessionRows.mp hr).2.symm rfl
    rw [List.map_congr_left hsame]
    exact hkeys
  have hperm := perm_range_of_noGap hnodup ?_
  · rwa [List.length_map] at hperm
  · intro n hn i hi
    obtain ⟨r, hr, rfl⟩ := List.mem_map.mp hn
    obtain ⟨hrows, hcheckpoint⟩ := mem_sessionRows.mp hr
    obtain ⟨r', hr', hsame, rfl⟩ := hs.noGap r hrows i hi
    exact List.mem_map_of_mem (mem_sessionRows.mpr ⟨hr', hsame.trans hcheckpoint⟩)

/-- The invariant of a run. -/
theorem run_invariant {ops : List CheckpointOp}
    (hok : Run.Meets (CheckpointOp.step services) (fun s op => op.Addressed s) .empty ops)
    (hrun : Run.exec (CheckpointOp.step services) .empty ops = some s) :
    s.Consistent ∧ Placed services s ∧ ∀ r ∈ s.sessions.rows,
      HashMatches services s r ∨ LastTorn ops (r.checkpointId, r.sessionId) := by
  induction ops using List.reverseRecOn generalizing s with
  | nil =>
    obtain rfl := Option.some.inj hrun
    have hnone : ∀ r ∈ Storage.empty.sessions.rows, False :=
      fun r hr => absurd hr List.not_mem_nil
    exact ⟨⟨fun r hr => (hnone r hr).elim, fun r hr => (hnone r hr).elim⟩,
      fun r hr => (hnone r hr).elim, fun r hr => (hnone r hr).elim⟩
  | append_singleton ops op ih =>
    obtain ⟨before, hbefore, hlast⟩ := Run.exec_append.mp hrun
    obtain ⟨hfront, hback⟩ := Run.meets_append.mp hok
    obtain ⟨hs, hplaced, hhash⟩ := ih hfront hbefore
    have haddressed : op.Addressed before := (hback before hbefore).1
    obtain ⟨after, hcall, hafter⟩ := Run.exec_cons.mp hlast
    obtain rfl := Option.some.inj hcall
    obtain rfl := Option.some.inj hafter
    exact ⟨consistent_call hs hplaced haddressed, placed_call hs hplaced haddressed,
      hashMatches_call hs hplaced haddressed hhash⟩

/-- **Committed checkpoint storage stays consistent**, wherever its calls stop. -/
theorem consistentAfter_run {ops : List CheckpointOp}
    (hok : Run.Meets (CheckpointOp.step services) (fun s op => op.Addressed s) .empty ops)
    (hrun : Run.exec (CheckpointOp.step services) .empty ops = some s) :
    ConsistentAfter services ops s := by
  obtain ⟨hs, hplaced, hhash⟩ := run_invariant hok hrun
  refine ⟨?_, sessionIndices_perm hs, hhash, fun op h => othersUnchanged_call hs hplaced h,
    fun ctx opts h => aggregated_of_written h⟩
  intro r hr r' hr' hcheckpoint hsession
  exact UniqueTable.eq_of_key_eq hr hr'
    (Prod.ext hcheckpoint (hs.oneRow r hr r' hr' hcheckpoint hsession))

/-- The digests of three texts; nothing in them is redacted. -/
def sampleServices : CheckpointServices where
  repoId := "repo"
  blobBackend := "local"
  cliVersion := "1.0.0"
  sha256Hex payload :=
    if payload = [] then "e3b0c44298fc1c149afbf4c8996fb92427ae41e4649b934ca495991b7852b855"
    else if payload = [65] then "559aead08264d5795d3909718cdd05abd49572e84fe55590eef31a88a08fdffd"
    else if payload = [66] then "df7e70e5021544f4834bbee64a9e3789febc4be81470df629cad6ddb03320a5c"
    else ""
  redactJsonlBytesWithFallback := id
  redactBytes := id
  redactText := id
  redactJsonValue := id
  redactSummary := some

def firstTranscript : WriteCommittedOptions :=
  { checkpointId := "0123456789ab", sessionId := "session", transcript := [65] }

def secondTranscript : WriteCommittedOptions := { firstTranscript with transcript := [66] }

def thirdTranscript : UpdateCommittedOptions :=
  { checkpointId := "0123456789ab", sessionId := "session", transcript := some [65] }

/-- A session is written, and the call that rewrites it stops after the first blob. -/
def tornOps : List CheckpointOp :=
  [.write {} firstTranscript, .write { stop := some 1 } secondTranscript]

/-- The same, and an update puts the hash right again. -/
def repairedOps : List CheckpointOp := tornOps ++ [.update {} thirdTranscript]

theorem consistentAfter_repairedOps : ∃ s,
    Run.exec (CheckpointOp.step sampleServices) .empty repairedOps = some s ∧
      ConsistentAfter sampleServices repairedOps s :=
  ⟨_, rfl, consistentAfter_run (by decide) rfl⟩

/-- The row still has the hash of the transcript that was there before. -/
theorem tornOps_hash :
    Run.Meets (CheckpointOp.step sampleServices) (fun s op => op.Addressed s) .empty tornOps ∧
      ∃ s, Run.exec (CheckpointOp.step sampleServices) .empty tornOps = some s ∧
        ∃ r ∈ s.sessions.rows, ¬ HashMatches sampleServices s r :=
  ⟨by decide, _, rfl, by decide⟩

end Checkpoints
end Bitloops
