import Bitloops.Checkpoints.Storage
import Bitloops.Foundation.Run

/-!
# What a call leaves alone

Every write of `write_committed` and `update_committed` concerns one index of one checkpoint: the
rows, the blobs and the references of every other index stay as they are, wherever the call stops.
-/

namespace Bitloops
namespace Checkpoints

/-! ## What is stored for a session -/

def Storage.blob? (s : Storage) (path : List Char) : Option (List UInt8) :=
  (findRow (·.path) path s.blobs.rows).map (·.data)

def Storage.reference? (s : Storage) (blobId : List Char) : Option CheckpointBlobReference :=
  findRow (·.blobId) blobId s.references.rows

variable {services : CheckpointServices} {checkpointId sessionId : String} {sessionIndex : ℕ}
  {s s' : Storage}

/-- Nothing has changed but what is stored for one index of one checkpoint. -/
structure Elsewhere (services : CheckpointServices) (checkpointId : String) (sessionIndex : ℕ)
    (s s' : Storage) : Prop where
  rows : ∀ r : CheckpointSessionRow, r.key ≠ (checkpointId, sessionIndex) →
    (r ∈ s'.sessions.rows ↔ r ∈ s.sessions.rows)
  blobs : ∀ otherId otherIndex blobType path, PlainSegment otherId.toList →
    (otherId, otherIndex) ≠ (checkpointId, sessionIndex) →
    blobPath services otherId otherIndex blobType = some path → s'.blob? path = s.blob? path
  references : ∀ otherId otherIndex blobType, PlainSegment otherId.toList →
    (otherId, otherIndex) ≠ (checkpointId, sessionIndex) →
    s'.reference? (blobReferenceId otherId otherIndex blobType) =
      s.reference? (blobReferenceId otherId otherIndex blobType)

theorem Elsewhere.refl (s : Storage) : Elsewhere services checkpointId sessionIndex s s :=
  ⟨fun _ _ => Iff.rfl, fun _ _ _ _ _ _ _ => rfl, fun _ _ _ _ _ => rfl⟩

theorem Elsewhere.trans {s'' : Storage} (h : Elsewhere services checkpointId sessionIndex s s')
    (h' : Elsewhere services checkpointId sessionIndex s' s'') :
    Elsewhere services checkpointId sessionIndex s s'' where
  rows r hr := (h'.rows r hr).trans (h.rows r hr)
  blobs otherId otherIndex blobType path hplain hne hpath :=
    (h'.blobs otherId otherIndex blobType path hplain hne hpath).trans
      (h.blobs otherId otherIndex blobType path hplain hne hpath)
  references otherId otherIndex blobType hplain hne :=
    (h'.references otherId otherIndex blobType hplain hne).trans
      (h.references otherId otherIndex blobType hplain hne)

/-- The write concerns one index of one checkpoint. -/
def Concerns (services : CheckpointServices) (checkpointId : String) (sessionIndex : ℕ)
    (write : StorageWrite) : Prop :=
  ∀ s s', write s = some s' → Elsewhere services checkpointId sessionIndex s s'

theorem writeBlob_eq_some {blobType : BlobType} {payload : List UInt8} :
    writeBlob services checkpointId sessionIndex blobType payload s = some s' ↔
      ∃ path, blobPath services checkpointId sessionIndex blobType = some path ∧
        s' = { s with blobs := s.blobs.upsert { path, data := payload } } := by
  cases hpath : blobPath services checkpointId sessionIndex blobType with
  | none => simp [writeBlob, hpath]
  | some path => simp [writeBlob, hpath, eq_comm]

theorem blob?_upsert {path path' : List Char} {payload : List UInt8} :
    Storage.blob? { s with blobs := s.blobs.upsert { path := path', data := payload } } path =
      if path = path' then some payload else s.blob? path := by
  unfold Storage.blob?
  rw [UniqueTable.findRow_upsert]
  split_ifs <;> rfl

theorem concerns_writeBlob (hplain : PlainSegment checkpointId.toList) {blobType : BlobType}
    {payload : List UInt8} : Concerns services checkpointId sessionIndex
      (writeBlob services checkpointId sessionIndex blobType payload) := by
  intro s s' hwrite
  obtain ⟨path, hpath, rfl⟩ := writeBlob_eq_some.mp hwrite
  refine ⟨fun _ _ => Iff.rfl, ?_, fun _ _ _ _ _ => rfl⟩
  intro otherId otherIndex otherType otherPath hother hne hotherPath
  rw [blob?_upsert]
  refine if_neg ?_
  rintro rfl
  obtain ⟨hid, hindex, -⟩ := normalizeBlobKey_injective hother hplain hotherPath hpath
  exact hne (Prod.ext hid hindex)

theorem concerns_blobReference (hplain : PlainSegment checkpointId.toList) {blobType : BlobType}
    {payload : List UInt8} : Concerns services checkpointId sessionIndex
      (upsertCheckpointBlobReference services checkpointId sessionIndex blobType payload) := by
  intro s s' hwrite
  obtain rfl := Option.some.inj hwrite
  refine ⟨fun _ _ => Iff.rfl, fun _ _ _ _ _ _ _ => rfl, ?_⟩
  intro otherId otherIndex otherType hother hne
  show findRow _ _ (s.references.upsert _).rows = _
  rw [UniqueTable.findRow_upsert]
  refine if_neg fun hsame => ?_
  obtain ⟨hid, hindex, -⟩ := blobReferenceId_injective hother hplain hsame
  exact hne (Prod.ext hid hindex)

theorem concerns_checkpointBlob (hplain : PlainSegment checkpointId.toList) {blobType : BlobType}
    {payload : List UInt8} :
    ∀ write ∈ upsertCheckpointBlob services checkpointId sessionIndex blobType payload,
      Concerns services checkpointId sessionIndex write := by
  intro write hwrite
  rcases List.mem_cons.mp hwrite with rfl | hwrite
  · exact concerns_writeBlob hplain
  · rw [List.mem_singleton.mp hwrite]
    exact concerns_blobReference hplain

/-- The row as it is stored: a row that was there keeps the time of its creation. -/
def storedRow (row : CheckpointSessionRow) (s : Storage) : CheckpointSessionRow :=
  ((findRow CheckpointSessionRow.key row.key s.sessions.rows).map
    fun old => mergeSessionRow old row).getD row

theorem storedRow_eq (row : CheckpointSessionRow) (s : Storage) :
    ∃ createdAt, storedRow row s = { row with createdAt } := by
  unfold storedRow
  cases findRow CheckpointSessionRow.key row.key s.sessions.rows with
  | none => exact ⟨row.createdAt, rfl⟩
  | some old => exact ⟨old.createdAt, rfl⟩

theorem key_storedRow (row : CheckpointSessionRow) (s : Storage) :
    (storedRow row s).key = row.key := by
  obtain ⟨createdAt, hrow⟩ := storedRow_eq row s
  rw [hrow]
  rfl

theorem mem_upsertMerged {row r : CheckpointSessionRow} :
    r ∈ (s.sessions.upsertMerged mergeSessionRow row).rows ↔
      r = storedRow row s ∨ (r ∈ s.sessions.rows ∧ r.key ≠ row.key) := by
  have hkey := key_storedRow row s
  unfold storedRow at hkey ⊢
  rw [UniqueTable.upsertMerged, UniqueTable.mem_upsert, hkey]

theorem concerns_sessionRow {row : CheckpointSessionRow} :
    Concerns services row.checkpointId row.sessionIndex (upsertCheckpointSessionRow row) := by
  intro s s' hwrite
  obtain rfl := Option.some.inj hwrite
  refine ⟨fun r hr => ?_, fun _ _ _ _ _ _ _ => rfl, fun _ _ _ _ _ => rfl⟩
  show r ∈ (s.sessions.upsertMerged mergeSessionRow row).rows ↔ _
  rw [mem_upsertMerged]
  refine ⟨?_, fun hmem => .inr ⟨hmem, hr⟩⟩
  rintro (rfl | ⟨hmem, -⟩)
  · exact absurd (key_storedRow row s) hr
  · exact hmem

theorem concerns_contentHash {hash : String} : Concerns services checkpointId sessionIndex
    (updateSessionContentHash checkpointId sessionIndex hash) := by
  intro s s' hwrite
  obtain rfl := Option.some.inj hwrite
  refine ⟨fun r hr => ?_, fun _ _ _ _ _ _ _ => rfl, fun _ _ _ _ _ => rfl⟩
  rw [UniqueTable.mem_modify]
  refine ⟨?_, fun hmem => .inl ⟨hmem, decide_eq_false fun h => hr (Prod.ext h.1 h.2)⟩⟩
  rintro (⟨hmem, -⟩ | ⟨old, -, hold, rfl⟩)
  · exact hmem
  · have hkey := of_decide_eq_true hold
    exact absurd (Prod.ext hkey.1 hkey.2) hr

/-- A write to another table than those of the sessions. -/
theorem concerns_of_tables {write : StorageWrite}
    (h : ∀ s s', write s = some s' → s'.sessions = s.sessions ∧ s'.blobs = s.blobs ∧
      s'.references = s.references) : Concerns services checkpointId sessionIndex write := by
  intro s s' hwrite
  obtain ⟨hsessions, hblobs, hreferences⟩ := h s s' hwrite
  refine ⟨fun r _ => by rw [hsessions], fun _ _ _ path _ _ _ => ?_, fun _ _ _ _ _ => ?_⟩
  · rw [Storage.blob?, hblobs, Storage.blob?]
  · rw [Storage.reference?, hreferences, Storage.reference?]

/-- A sequence of such writes, wherever it stops. -/
theorem elsewhere_runWrites {stop : Option ℕ} {writes : List StorageWrite}
    (h : ∀ write ∈ writes, Concerns services checkpointId sessionIndex write) :
    Elsewhere services checkpointId sessionIndex s (runWrites stop writes s).1 :=
  runWrites_invariant (Elsewhere services checkpointId sessionIndex s)
    (fun write hwrite _ _ hs hstep => hs.trans (h write hwrite _ _ hstep)) (.refl s)

theorem provenance_tables {ctx : CallContext} {opts : WriteCommittedOptions}
    (h : persistCheckpointProvenanceRows services ctx opts s = some s') :
    s'.sessions = s.sessions ∧ s'.blobs = s.blobs ∧ s'.references = s.references := by
  unfold persistCheckpointProvenanceRows at h
  split at h <;> obtain rfl := Option.some.inj h <;> exact ⟨rfl, rfl, rfl⟩

theorem aggregated_tables {ctx : CallContext} {opts : WriteCommittedOptions}
    (h : upsertAggregatedCheckpointRow services ctx opts s = some s') :
    s'.sessions = s.sessions ∧ s'.blobs = s.blobs ∧ s'.references = s.references := by
  obtain rfl := Option.some.inj h
  exact ⟨rfl, rfl, rfl⟩

theorem concerns_blobWrites {opts : WriteCommittedOptions}
    (hplain : PlainSegment opts.checkpointId.toList) :
    ∀ write ∈ blobWrites services opts sessionIndex,
      Concerns services opts.checkpointId sessionIndex write := by
  intro write hwrite
  rcases List.mem_append.mp hwrite with hwrite | hwrite
  · rcases List.mem_append.mp hwrite with hwrite | hwrite
    · exact concerns_checkpointBlob hplain write hwrite
    · exact concerns_checkpointBlob hplain write hwrite
  · exact concerns_checkpointBlob hplain write hwrite

theorem concerns_committedWrites {ctx : CallContext} {opts : WriteCommittedOptions}
    (hplain : PlainSegment opts.checkpointId.toList) :
    ∀ write ∈ committedWrites services ctx opts sessionIndex,
      Concerns services opts.checkpointId sessionIndex write := by
  intro write hwrite
  rcases List.mem_append.mp hwrite with hwrite | hwrite
  · exact concerns_blobWrites hplain write hwrite
  · simp only [List.mem_cons, List.not_mem_nil, or_false] at hwrite
    rcases hwrite with rfl | rfl | rfl
    · exact concerns_sessionRow
    · exact concerns_of_tables fun _ _ h => provenance_tables h
    · exact concerns_of_tables fun _ _ h => aggregated_tables h

theorem concerns_transcriptWrites {opts : UpdateCommittedOptions}
    (hplain : PlainSegment opts.checkpointId.toList) :
    ∀ write ∈ transcriptWrites services opts sessionIndex,
      Concerns services opts.checkpointId sessionIndex write := by
  intro write hwrite
  unfold transcriptWrites at hwrite
  split at hwrite
  · exact absurd hwrite List.not_mem_nil
  · rcases List.mem_append.mp hwrite with hwrite | hwrite
    · exact concerns_checkpointBlob hplain write hwrite
    · rw [List.mem_singleton.mp hwrite]
      exact concerns_contentHash

theorem concerns_promptsWrites {opts : UpdateCommittedOptions}
    (hplain : PlainSegment opts.checkpointId.toList) :
    ∀ write ∈ promptsWrites services opts sessionIndex,
      Concerns services opts.checkpointId sessionIndex write := by
  intro write hwrite
  unfold promptsWrites at hwrite
  split at hwrite
  · exact absurd hwrite List.not_mem_nil
  · exact concerns_checkpointBlob hplain write hwrite

theorem concerns_contextWrites {opts : UpdateCommittedOptions}
    (hplain : PlainSegment opts.checkpointId.toList) :
    ∀ write ∈ contextWrites services opts sessionIndex,
      Concerns services opts.checkpointId sessionIndex write := by
  intro write hwrite
  unfold contextWrites at hwrite
  split at hwrite
  · exact absurd hwrite List.not_mem_nil
  · exact concerns_checkpointBlob hplain write hwrite

theorem touch_tables {now : String} (h : touchCheckpointUpdatedAt checkpointId now s = some s') :
    s'.sessions = s.sessions ∧ s'.blobs = s.blobs ∧ s'.references = s.references := by
  obtain rfl := Option.some.inj h
  exact ⟨rfl, rfl, rfl⟩

theorem concerns_updatedWrites {ctx : CallContext} {opts : UpdateCommittedOptions}
    (hplain : PlainSegment opts.checkpointId.toList) :
    ∀ write ∈ updatedWrites services ctx opts sessionIndex,
      Concerns services opts.checkpointId sessionIndex write := by
  intro write hwrite
  simp only [updatedWrites] at hwrite
  split_ifs at hwrite
  · exact absurd hwrite List.not_mem_nil
  · simp only [List.mem_append, List.mem_singleton] at hwrite
    rcases hwrite with ((hwrite | hwrite) | hwrite) | rfl
    · exact concerns_transcriptWrites hplain write hwrite
    · exact concerns_promptsWrites hplain write hwrite
    · exact concerns_contextWrites hplain write hwrite
    · exact concerns_of_tables fun _ _ h => touch_tables h

end Checkpoints
end Bitloops
