import Bitloops.Foundation.Decimals
import Bitloops.Foundation.GreedyGroups
import Bitloops.Foundation.OrderBy
import Bitloops.Foundation.Results

/-!
# Chunks of a transcript

The agents with a transcript of lines cut it between lines into chunks of a bounded size, and join
the chunks again.  `chunkJsonl_spec` says that the chunks are small enough and give back the
bytes, and `sortChunkFiles_names_iff` when the names of the chunk files lead back to their order.
-/

namespace Bitloops
namespace Agents
namespace Chunking

open Decimals GreedyGroups Results

/-! ## Lines -/

def newline : UInt8 := 0x0A

/-- `JSONL line {line} exceeds maximum chunk size ({size} bytes > {maxSize} bytes); cannot split a
single JSON object`. -/
structure LineTooLong where
  line : ℕ
  size : ℕ
  maxSize : ℕ
  deriving DecidableEq

structure ChunkState where
  chunks : List (List UInt8) := []
  currentChunk : List UInt8 := []

def popNewline (chunk : List UInt8) : List UInt8 :=
  if chunk.getLast? = some newline then chunk.dropLast else chunk

def chunkLine (maxSize : ℕ) (state : ChunkState) (entry : List UInt8 × ℕ) :
    Except LineTooLong ChunkState :=
  let (line, i) := entry
  let lineWithNewlineLen := line.length + 1
  if lineWithNewlineLen > maxSize then .error ⟨i + 1, lineWithNewlineLen, maxSize⟩
  else
    let state :=
      if state.currentChunk.length + lineWithNewlineLen > maxSize ∧ state.currentChunk ≠ [] then
        { chunks := state.chunks ++ [popNewline state.currentChunk], currentChunk := [] }
      else state
    .ok { state with currentChunk := state.currentChunk ++ line ++ [newline] }

def chunkJsonl (content : List UInt8) (maxSize : ℕ) : Except LineTooLong (List (List UInt8)) :=
  if content = [] then .ok []
  else do
    let state ← (content.splitOn newline).zipIdx.foldlM (chunkLine maxSize) {}
    if state.currentChunk = [] then return state.chunks
    else return state.chunks ++ [popNewline state.currentChunk]

def reassembleJsonl (chunks : List (List UInt8)) : List UInt8 := [newline].intercalate chunks

/-! ## The names of the files -/

def chunkFileName (baseName : List Char) (index : ℕ) : List Char :=
  if index = 0 then baseName else baseName ++ '.' :: padded 3 index

def parseChunkIndex (filename baseName : List Char) : ℤ :=
  if filename = baseName then 0
  else if (baseName ++ ['.']).isPrefixOf filename then
    let suffix := filename.drop (baseName.length + 1)
    if suffix = [] ∨ ¬ suffix.all Char.isDigit then -1
    else (parseSigned (-2 ^ 31) (2 ^ 31 - 1) suffix).getD (-1)
  else -1

def sortChunkFiles (files : List (List Char)) (baseName : List Char) : List (List Char) :=
  orderBy (fun file => parseChunkIndex file baseName) files

/-! ## The chunks give back the bytes -/

/-- The lines with a line feed after each of them. -/
def terminated (lines : List (List UInt8)) : List UInt8 :=
  lines.flatMap fun line => line ++ [newline]

theorem intercalate_append {lines : List (List UInt8)} (h : lines ≠ []) :
    [newline].intercalate lines ++ [newline] = terminated lines := by
  induction lines with
  | nil => exact absurd rfl h
  | cons line lines ih =>
    cases lines with
    | nil => simp [terminated]
    | cons other lines =>
      rw [List.intercalate_cons_cons, List.append_assoc, List.append_assoc,
        ih (List.cons_ne_nil _ _)]
      simp [terminated]

theorem popNewline_terminated {lines : List (List UInt8)} (h : lines ≠ []) :
    popNewline (terminated lines) = [newline].intercalate lines := by
  rw [← intercalate_append h, popNewline, if_pos List.getLast?_concat, List.dropLast_concat]

theorem terminated_eq_nil {lines : List (List UInt8)} : terminated lines = [] ↔ lines = [] := by
  cases lines <;> simp [terminated]

def lineSize (line : List UInt8) : ℕ := line.length + 1

theorem length_terminated (lines : List (List UInt8)) :
    (terminated lines).length = size lineSize 0 lines := by
  rw [terminated, List.length_flatMap, size, Nat.zero_add]
  exact congrArg List.sum (List.map_congr_left fun line _ => List.length_append)

/-- The state of the loop after the lines have been put into groups. -/
def ofGroups (state : State (List UInt8)) : ChunkState where
  chunks := state.closed.map [newline].intercalate
  currentChunk := terminated state.current

variable {maxSize : ℕ}

theorem chunkLine_ofGroups {state : State (List UInt8)} {line : List UInt8} {i : ℕ}
    (h : lineSize line ≤ maxSize) :
    chunkLine maxSize (ofGroups state) (line, i) =
      .ok (ofGroups (push lineSize 0 maxSize state line)) := by
  have hfits : ¬ line.length + 1 > maxSize := Nat.not_lt.mpr h
  have hcases : (ofGroups state).currentChunk.length + (line.length + 1) > maxSize ∧
      (ofGroups state).currentChunk ≠ [] ↔
        maxSize < size lineSize 0 state.current + lineSize line ∧ state.current ≠ [] := by
    rw [← length_terminated]
    exact and_congr Iff.rfl (not_congr terminated_eq_nil)
  rw [chunkLine, if_neg hfits, push]
  by_cases hfull : maxSize < size lineSize 0 state.current + lineSize line ∧ state.current ≠ []
  · rw [if_pos (hcases.mpr hfull), if_pos hfull, ofGroups, ofGroups,
      popNewline_terminated hfull.2]
    simp [terminated]
  · rw [if_neg (mt hcases.mp hfull), if_neg hfull]
    simp [ofGroups, terminated]

theorem foldlM_chunkLine {entries : List (List UInt8 × ℕ)} (state : State (List UInt8))
    (h : ∀ entry ∈ entries, lineSize entry.1 ≤ maxSize) :
    entries.foldlM (chunkLine maxSize) (ofGroups state) =
      .ok (ofGroups ((entries.map Prod.fst).foldl (push lineSize 0 maxSize) state)) := by
  induction entries generalizing state with
  | nil => rfl
  | cons entry entries ih =>
    obtain ⟨line, i⟩ := entry
    rw [List.foldlM_cons, chunkLine_ofGroups (h _ List.mem_cons_self)]
    exact ih _ fun entry hentry => h entry (List.mem_cons_of_mem _ hentry)

/-- The loop goes through only when every line fits. -/
theorem lineSize_le_of_foldlM {entries : List (List UInt8 × ℕ)} {state state' : ChunkState}
    (h : entries.foldlM (chunkLine maxSize) state = .ok state') :
    ∀ entry ∈ entries, lineSize entry.1 ≤ maxSize := by
  induction entries generalizing state with
  | nil => exact fun _ hentry => absurd hentry List.not_mem_nil
  | cons entry entries ih =>
    rw [List.foldlM_cons] at h
    obtain ⟨next, hstep, hrest⟩ := bind_eq_ok.mp h
    refine List.forall_mem_cons.mpr ⟨?_, ih hrest⟩
    by_contra hlong
    have hlong' : entry.1.length + 1 > maxSize := Nat.not_le.mp hlong
    rw [chunkLine, if_pos hlong'] at hstep
    exact nomatch hstep

/-- The lines of a transcript, in the groups that the limit allows. -/
def lineGroups (content : List UInt8) (maxSize : ℕ) : List (List (List UInt8)) :=
  groups lineSize 0 maxSize (content.splitOn newline)

theorem chunkJsonl_nil : chunkJsonl [] maxSize = .ok [] := rfl

theorem chunkJsonl_of_fits {content : List UInt8} (hne : content ≠ [])
    (h : ∀ line ∈ content.splitOn newline, lineSize line ≤ maxSize) :
    chunkJsonl content maxSize =
      .ok ((lineGroups content maxSize).map [newline].intercalate) := by
  have hfold : (content.splitOn newline).zipIdx.foldlM (chunkLine maxSize) {} =
      .ok (ofGroups ((content.splitOn newline).foldl (push lineSize 0 maxSize) {})) := by
    have hentries := @foldlM_chunkLine _ ((content.splitOn newline).zipIdx) {}
      fun entry hentry => h entry.1 (List.fst_mem_of_mem_zipIdx hentry)
    rwa [List.zipIdx_map_fst] at hentries
  have hcurrent : ((content.splitOn newline).foldl (push lineSize 0 maxSize) {}).current ≠ [] :=
    current_ne_nil (List.splitOn_ne_nil newline content)
  rw [chunkJsonl, if_neg hne, hfold, lineGroups, groups]
  generalize (content.splitOn newline).foldl (push lineSize 0 maxSize) {} = state at hcurrent ⊢
  have hchunk : (ofGroups state).currentChunk ≠ [] := mt terminated_eq_nil.mp hcurrent
  change (if (ofGroups state).currentChunk = [] then _ else _) = _
  rw [if_neg hchunk, State.groups, if_neg hcurrent, List.map_append, List.map_singleton,
    ← popNewline_terminated hcurrent]
  rfl

/-- Which transcripts are cut, and where. -/
theorem chunkJsonl_eq_ok_iff {content : List UInt8} {chunks : List (List UInt8)} :
    chunkJsonl content maxSize = .ok chunks ↔
      content = [] ∧ chunks = [] ∨
      content ≠ [] ∧ (∀ line ∈ content.splitOn newline, lineSize line ≤ maxSize) ∧
        chunks = (lineGroups content maxSize).map [newline].intercalate := by
  by_cases hnil : content = []
  · rw [hnil, chunkJsonl_nil]
    simp [eq_comm]
  · constructor
    · intro h
      have hfits : ∀ line ∈ content.splitOn newline, lineSize line ≤ maxSize := by
        rw [chunkJsonl, if_neg hnil] at h
        obtain ⟨state, hfold, -⟩ := bind_eq_ok.mp h
        intro line hline
        obtain ⟨i, hi, rfl⟩ := List.getElem_of_mem hline
        exact lineSize_le_of_foldlM hfold (_, i) (List.mk_mem_zipIdx_iff_getElem?.mpr
          (List.getElem?_eq_getElem hi))
      rw [chunkJsonl_of_fits hnil hfits] at h
      exact Or.inr ⟨hnil, hfits, (Except.ok.inj h).symm⟩
    · rintro (⟨h, -⟩ | ⟨-, hfits, rfl⟩)
      · exact absurd h hnil
      · exact chunkJsonl_of_fits hnil hfits

theorem reassembleJsonl_groups (content : List UInt8) :
    reassembleJsonl ((lineGroups content maxSize).map [newline].intercalate) = content := by
  have hne : (lineGroups content maxSize).map [newline].intercalate ≠ [] := by
    intro h
    have hflatten := flatten_groups lineSize 0 maxSize (content.splitOn newline)
    rw [← lineGroups, List.map_eq_nil_iff.mp h] at hflatten
    exact List.splitOn_ne_nil newline content hflatten.symm
  have hgroups : ∀ groups : List (List (List UInt8)), (∀ group ∈ groups, group ≠ []) →
      terminated (groups.map [newline].intercalate) = terminated groups.flatten := by
    intro groups h
    induction groups with
    | nil => rfl
    | cons group groups ih =>
      rw [List.map_cons, List.flatten_cons, terminated, List.flatMap_cons,
        intercalate_append (h group List.mem_cons_self), ← terminated,
        ih fun other hother => h other (List.mem_cons_of_mem _ hother), terminated, terminated,
        terminated, List.flatMap_append]
  refine (List.append_left_inj [newline]).mp ?_
  rw [reassembleJsonl, intercalate_append hne,
    hgroups (lineGroups content maxSize) fun _ hgroup => ne_nil_of_mem_groups hgroup,
    lineGroups, flatten_groups,
    ← intercalate_append (List.splitOn_ne_nil newline content), List.intercalate_splitOn]

/-- The chunks are small enough, and joined they are the transcript. -/
theorem chunkJsonl_spec {content : List UInt8} {maxSize : ℕ} {chunks : List (List UInt8)}
    (h : chunkJsonl content maxSize = .ok chunks) :
    (∀ chunk ∈ chunks, chunk.length ≤ maxSize) ∧ reassembleJsonl chunks = content := by
  rcases chunkJsonl_eq_ok_iff.mp h with ⟨rfl, rfl⟩ | ⟨-, hfits, rfl⟩
  · exact ⟨fun _ hchunk => absurd hchunk List.not_mem_nil, rfl⟩
  · refine ⟨fun chunk hchunk => ?_, reassembleJsonl_groups content⟩
    obtain ⟨group, hgroup, rfl⟩ := List.mem_map.mp hchunk
    have hlength := congrArg List.length (intercalate_append (ne_nil_of_mem_groups hgroup))
    rw [List.length_append, length_terminated] at hlength
    rcases fits_of_mem_groups hgroup with hsize | ⟨line, rfl⟩
    · omega
    · have hline : line ∈ content.splitOn newline := by
        rw [← flatten_groups lineSize 0 maxSize (content.splitOn newline)]
        exact List.mem_flatten_of_mem hgroup List.mem_cons_self
      have := hfits line hline
      rw [size, List.map_singleton, List.sum_singleton] at hlength
      omega

/-! ## The order of the files -/

section Names

variable {baseName : List Char} {index n : ℕ}

theorem parseChunkIndex_append (suffix : List Char) :
    parseChunkIndex (baseName ++ '.' :: suffix) baseName =
      if suffix = [] ∨ ¬ suffix.all Char.isDigit then -1
      else (parseSigned (-2 ^ 31) (2 ^ 31 - 1) suffix).getD (-1) := by
  have hne : baseName ++ '.' :: suffix ≠ baseName := fun h =>
    List.cons_ne_nil _ _ (List.append_right_eq_self.mp h)
  have hleading : (baseName ++ ['.']).isPrefixOf (baseName ++ '.' :: suffix) = true := by
    rw [List.isPrefixOf_iff_prefix]
    exact ⟨suffix, by simp⟩
  have hdrop : (baseName ++ '.' :: suffix).drop (baseName.length + 1) = suffix := by
    rw [List.drop_append]
    simp
  rw [parseChunkIndex, if_neg hne, if_pos hleading, hdrop]

/-- A name tells its index as long as the index fits in 32 bits. -/
theorem parseChunkIndex_chunkFileName :
    parseChunkIndex (chunkFileName baseName index) baseName =
      if index < 2 ^ 31 then (index : ℤ) else -1 := by
  rw [chunkFileName]
  by_cases hzero : index = 0
  · rw [if_pos hzero, parseChunkIndex, if_pos rfl, hzero]
    rfl
  · have hdigits : ¬ (padded 3 index = [] ∨ ¬ (padded 3 index).all Char.isDigit) := by
      rintro (h | h)
      · exact padded_ne_nil h
      · exact h (List.all_eq_true.mpr isDigit_padded)
    rw [if_neg hzero, parseChunkIndex_append, if_neg hdigits]
    split_ifs with hsmall
    · rw [parseSigned_padded (by omega) (by omega), Option.getD_some]
    · rw [parseSigned_padded_eq_none (by omega), Option.getD_none]

/-- The names of the given number of chunks. -/
def chunkFileNames (baseName : List Char) (n : ℕ) : List (List Char) :=
  (List.range n).map (chunkFileName baseName)

theorem map_parseChunkIndex_names (h : n ≤ 2 ^ 31) :
    (chunkFileNames baseName n).map (fun file => parseChunkIndex file baseName) =
      (List.range n).map fun i : ℕ => (i : ℤ) := by
  rw [chunkFileNames, List.map_map]
  refine List.map_congr_left fun i hi => ?_
  rw [List.mem_range] at hi
  exact parseChunkIndex_chunkFileName.trans (if_pos (by omega))

/-- Sorting restores the order of the chunks, however the files are listed, exactly for up to
`2 ^ 31` chunks. -/
theorem sortChunkFiles_names_iff (baseName : List Char) (n : ℕ) :
    (∀ files : List (List Char), files.Perm (chunkFileNames baseName n) →
      sortChunkFiles files baseName = chunkFileNames baseName n) ↔ n ≤ 2 ^ 31 := by
  constructor
  · intro h
    by_contra hlarge
    have hsorted := pairwise_orderBy (fun file => parseChunkIndex file baseName)
      (chunkFileNames baseName n)
    have hself := h _ (List.Perm.refl _)
    rw [sortChunkFiles] at hself
    rw [hself, chunkFileNames, List.pairwise_map] at hsorted
    -- the first name has the index 0, and the name of chunk `2 ^ 31` the index -1
    have hle := List.pairwise_iff_getElem.mp hsorted 0 (2 ^ 31)
      (by rw [List.length_range]; omega) (by rw [List.length_range]; omega) (by omega)
    simp only [List.getElem_range, parseChunkIndex_chunkFileName] at hle
    omega
  · intro h files hperm
    have hkeys := @map_parseChunkIndex_names baseName _ h
    have hnodup : ((chunkFileNames baseName n).map
        fun file => parseChunkIndex file baseName).Nodup := by
      rw [hkeys]
      exact List.nodup_range.map fun _ _ h => Int.ofNat_inj.mp h
    have hsorted : (chunkFileNames baseName n).Pairwise
        fun a b => parseChunkIndex a baseName ≤ parseChunkIndex b baseName := by
      rw [← List.pairwise_map (f := fun file => parseChunkIndex file baseName) (R := (· ≤ ·)),
        hkeys, List.pairwise_map]
      exact List.pairwise_lt_range.imp fun {a b} hlt => by exact_mod_cast hlt.le
    have hfiles : (orderBy (fun file => parseChunkIndex file baseName) files).Perm
        (chunkFileNames baseName n) := (perm_orderBy _ _).trans hperm
    exact eq_of_pairwise_key (pairwise_orderBy _ files) hsorted
      ((hfiles.map _).nodup_iff.mpr hnodup) hnodup fun _ => hfiles.mem_iff

end Names

end Chunking
end Agents
end Bitloops
