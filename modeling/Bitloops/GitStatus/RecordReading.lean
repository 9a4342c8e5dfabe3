import Bitloops.GitStatus.LineReading

/-!
# What the reader of records makes of a status

`mem_workingTreeChanges`: for every entry, it reports what the letters of the entry say, and the
old path of a rename as deleted.
-/

namespace Bitloops
namespace GitStatus

open LanguageAdapter (Text)
open PostCommit (isInfrastructurePath)
open Utf8Lossy

variable {p : Text} {e : StatusEntry} {status : Status} {kind : ChangeKind}

/-! ## Records -/

/-- Only NUL has a byte that is zero. -/
theorem zero_notMem_utf8EncodeChar {c : Char} (hc : c ≠ Char.ofNat 0) :
    0 ∉ String.utf8EncodeChar c := by
  have hne : c.toNat ≠ 0 := fun h => hc (by rw [← Char.ofNat_toNat c, h])
  have hval : c.val.toNat = c.toNat := rfl
  have hbyte : ∀ n, n < 0x100 → n ≠ 0 → (0 : UInt8) ≠ UInt8.ofNat n := by
    intro n hn hpos h
    have hzero := congrArg UInt8.toNat h
    rw [toNat_byte hn] at hzero
    exact hpos hzero.symm
  unfold String.utf8EncodeChar
  change 0 ∉ (if c.toNat ≤ 0x7f then _ else _)
  split_ifs with hone htwo hthree
  all_goals simp only [List.mem_cons, List.not_mem_nil, or_false, not_or]
  · exact hbyte _ (by omega) hne
  · exact ⟨hbyte _ (by omega) (by omega), hbyte _ (by omega) (by omega)⟩
  · exact ⟨hbyte _ (by omega) (by omega), hbyte _ (by omega) (by omega),
      hbyte _ (by omega) (by omega)⟩
  · exact ⟨hbyte _ (by omega) (by omega), hbyte _ (by omega) (by omega),
      hbyte _ (by omega) (by omega), hbyte _ (by omega) (by omega)⟩

theorem zero_notMem_encode {text : Text} (h : Char.ofNat 0 ∉ text) : 0 ∉ encode text := by
  rw [encode, List.mem_flatMap]
  rintro ⟨c, hc, hzero⟩
  exact zero_notMem_utf8EncodeChar (fun heq => h (heq ▸ hc)) hzero

theorem nulRecords_flatMap {records : List (List UInt8)} (h : ∀ record ∈ records, 0 ∉ record) :
    nulRecords (records.flatMap fun record => record ++ [0]) = records := by
  induction records with
  | nil => rfl
  | cons record records ih =>
    have hfree : ∀ byte ∈ record, (byte == 0) = false := fun byte hbyte =>
      beq_false_of_ne fun heq => h record List.mem_cons_self (heq ▸ hbyte)
    have hsplit : (record ++ 0 :: records.flatMap fun record => record ++ [0]).splitOn 0 =
        record :: (records.flatMap fun record => record ++ [0]).splitOn 0 :=
      List.splitOnP_append_cons_of_forall_mem hfree 0 rfl _
    have hrest := ih fun other hother => h other (List.mem_cons_of_mem _ hother)
    rw [nulRecords] at hrest
    have hne : (records.flatMap fun record => record ++ [0]).splitOn 0 ≠ [] :=
      List.splitOnP_ne_nil _ _
    rw [List.flatMap_cons, List.append_assoc, List.singleton_append, nulRecords, hsplit,
      List.dropLast_cons_of_ne_nil hne, hrest]

theorem code_ne_nul (change : Change) :
    change.code.1 ≠ Char.ofNat 0 ∧ change.code.2 ≠ Char.ofNat 0 := by
  have hletter : ∀ letter : Letter, letter.char ≠ Char.ofNat 0 := by
    intro letter
    cases letter <;> decide
  exact @forall_code (· ≠ Char.ofNat 0) hletter (by decide) change

theorem nul_notMem_statusRecords {record : Text} (h : record ∈ statusRecords e) :
    Char.ofNat 0 ∉ record := by
  rw [statusRecords, List.mem_cons] at h
  rcases h with rfl | h
  · simp only [List.mem_cons, not_or]
    exact ⟨(code_ne_nul e.change).1.symm, (code_ne_nul e.change).2.symm, by decide, e.path.noNul⟩
  · split_ifs at h
    · rw [List.mem_singleton.mp h]
      exact e.origPath.noNul
    · exact absurd h List.not_mem_nil

theorem nulRecords_nulOutput (status : Status) :
    nulRecords (nulOutput status) = (status.entries.flatMap statusRecords).map encode := by
  have hmap : nulOutput status = ((status.entries.flatMap statusRecords).map encode).flatMap
      fun record => record ++ [0] := by
    rw [List.flatMap_map]
    rfl
  rw [hmap, nulRecords_flatMap]
  intro record hrecord
  obtain ⟨text, htext, rfl⟩ := List.mem_map.mp hrecord
  obtain ⟨e, -, he⟩ := List.mem_flatMap.mp htext
  exact zero_notMem_encode (nul_notMem_statusRecords he)

/-! ## Entries -/

/-- The letters are one byte each. -/
theorem encode_code (change : Change) (path : Text) :
    ∃ x y : UInt8, Char.ofNat x.toNat = change.code.1 ∧ Char.ofNat y.toNat = change.code.2 ∧
      encode (change.code.1 :: change.code.2 :: ' ' :: path) = x :: y :: 0x20 :: encode path := by
  have hletter : ∀ letter : Letter, ∃ x : UInt8, Char.ofNat x.toNat = letter.char ∧
      String.utf8EncodeChar letter.char = [x] := by
    intro letter
    cases letter <;> exact ⟨_, rfl, rfl⟩
  have hmark : ∃ x : UInt8, Char.ofNat x.toNat = '?' ∧ String.utf8EncodeChar '?' = [x] :=
    ⟨_, rfl, rfl⟩
  obtain ⟨⟨x, hx, hxbytes⟩, y, hy, hybytes⟩ := @forall_code
    (fun c => ∃ x : UInt8, Char.ofNat x.toNat = c ∧ String.utf8EncodeChar c = [x]) hletter hmark
    change
  refine ⟨x, y, hx, hy, ?_⟩
  simp only [encode, List.flatMap_cons, hxbytes, hybytes]
  rfl

theorem encode_ne_nil {path : Text} (h : path ≠ []) : encode path ≠ [] := fun hnil => h <| by
  rw [← decode_encode path, hnil]
  rfl

/-- What an entry adds. -/
def addEntry (changes : FileChanges) (e : StatusEntry) : FileChanges :=
  addChange changes e.change.code.1 e.change.code.2 e.path.text
    (if e.change.moves then some e.origPath.text else none)

theorem moves_iff (change : Change) :
    (change.code.1 = 'R' ∨ change.code.2 = 'R' ∨ change.code.1 = 'C' ∨ change.code.2 = 'C') ↔
      change.moves = true := by
  have hrenamed := code_eq_iff change .renamed
  have hcopied := code_eq_iff change .copied
  rw [Change.moves, Bool.or_eq_true, ← hrenamed, ← hcopied, or_assoc]
  rfl

theorem readRecords_statusRecords (changes : FileChanges) (entries : List StatusEntry) :
    readRecords changes ((entries.flatMap statusRecords).map encode) =
      entries.foldl addEntry changes := by
  induction entries generalizing changes with
  | nil => rfl
  | cons e entries ih =>
    obtain ⟨x, y, hx, hy, hbytes⟩ := encode_code e.change e.path.text
    have hlong : ¬((x :: y :: 0x20 :: encode e.path.text).length < 4 ∨
        (x :: y :: 0x20 :: encode e.path.text).getD 2 0 ≠ 0x20) := by
      have hpos := List.length_pos_iff.mpr (encode_ne_nil e.path.ne_nil)
      simp only [List.length_cons, not_or, not_not]
      exact ⟨by omega, rfl⟩
    have hletters : letterAt (x :: y :: 0x20 :: encode e.path.text) 0 = e.change.code.1 ∧
        letterAt (x :: y :: 0x20 :: encode e.path.text) 1 = e.change.code.2 := ⟨hx, hy⟩
    have hfile : decode ((x :: y :: 0x20 :: encode e.path.text).drop 3) = e.path.text :=
      decode_encode e.path.text
    rw [List.flatMap_cons, statusRecords, List.cons_append, List.map_cons, hbytes,
      List.foldl_cons, ← ih, addEntry, readRecords, if_neg hlong]
    simp only [hletters, hfile, moves_iff]
    split_ifs with hmoves
    · rw [List.singleton_append, List.map_cons]
      show readRecords (addChange _ _ _ _ (some (decode (encode _)))) _ = _
      rw [decode_encode]
    · rw [List.nil_append]

/-! ## What is reported -/

theorem mem_get_addChange {changes : FileChanges} {x y : Char} {file : Text}
    {oldName : Option Text} :
    p ∈ (addChange changes x y file oldName).get kind ↔
      p ∈ changes.get kind ∨ p ∈ (addChange {} x y file oldName).get kind := by
  unfold addChange
  split_ifs
  all_goals
    cases kind <;>
      simp only [FileChanges.get, List.mem_append, List.not_mem_nil, false_or, or_false]

theorem mem_get_foldl_addEntry (entries : List StatusEntry) (changes : FileChanges) :
    p ∈ (entries.foldl addEntry changes).get kind ↔
      p ∈ changes.get kind ∨ ∃ e ∈ entries, p ∈ (addEntry {} e).get kind := by
  induction entries generalizing changes with
  | nil => simp
  | cons e entries ih =>
    rw [List.foldl_cons, ih, addEntry, mem_get_addChange, or_assoc]
    simp only [List.mem_cons, exists_eq_or_imp]
    rfl

theorem mem_workingTreeChanges :
    p ∈ (workingTreeChanges (nulOutput status)).get kind ↔
      ∃ e ∈ status.entries, p ∈ (addEntry {} e).get kind := by
  have hempty : FileChanges.get {} kind = [] := by cases kind <;> rfl
  rw [workingTreeChanges, nulRecords_nulOutput, readRecords_statusRecords, mem_get_foldl_addEntry,
    hempty]
  simp only [List.not_mem_nil, false_or]

theorem RepoPath.getLast_ne_slash (path : RepoPath) : path.text.getLast? ≠ some '/' := by
  intro h
  obtain ⟨front, hfront⟩ := List.getLast?_eq_some_iff.mp h
  refine (path.components [] ?_).1 rfl
  rw [hfront, List.splitOn_append_cons_self]
  exact List.mem_append_right _ List.mem_cons_self

theorem isInfrastructurePath_of_reported (e : StatusEntry) :
    isInfrastructurePath (String.ofList e.path.text) = false :=
  (Bool.or_eq_false_iff.mp e.reported).1

/-- What an entry adds, by its letters. -/
theorem addEntry_eq (e : StatusEntry) :
    addEntry {} e =
      if e.change = .untracked then ({ newFiles := [e.path.text] } : FileChanges)
      else if e.change.has .copied = true then { newFiles := [e.path.text] }
      else if e.change.has .renamed = true then
        { deleted := [e.origPath.text].filter fun old =>
            isInfrastructurePath (String.ofList old) = false
          modified := [e.path.text] }
      else if e.change.has .deleted = true then { deleted := [e.path.text] }
      else if e.change.has .added = true then { newFiles := [e.path.text] }
      else if e.change.has .modified = true ∨ e.change.has .typeChanged = true then
        { modified := [e.path.text] }
      else {} := by
  have hkept : ¬(e.path.text = [] ∨ isInfrastructurePath (String.ofList e.path.text) = true) := by
    rw [isInfrastructurePath_of_reported]
    exact fun h => h.elim e.path.ne_nil Bool.false_ne_true
  have hletters : (e.change.code.1 = 'M' ∨ e.change.code.2 = 'M' ∨ e.change.code.1 = 'T' ∨
      e.change.code.2 = 'T') ↔
        (e.change.has .modified = true ∨ e.change.has .typeChanged = true) := by
    rw [← code_eq_iff, ← code_eq_iff, or_assoc]
    rfl
  rw [addEntry, addChange, if_neg hkept, if_neg e.path.getLast_ne_slash]
  refine if_congr (code_question e.change) rfl (if_congr (code_eq_iff e.change .copied) rfl ?_)
  refine if_ctx_congr (code_eq_iff e.change .renamed) (fun h => ?_) fun _ =>
    if_congr (code_eq_iff e.change .deleted) rfl
      (if_congr (code_eq_iff e.change .added) rfl (if_congr hletters rfl rfl))
  have hmoves : e.change.moves = true := by rw [Change.moves, h, Bool.true_or]
  have hfilter : ([e.origPath.text].filter fun old =>
      old ≠ [] ∧ isInfrastructurePath (String.ofList old) = false) =
        [e.origPath.text].filter fun old => isInfrastructurePath (String.ofList old) = false := by
    refine List.filter_congr fun old hold => ?_
    rw [List.mem_singleton.mp hold]
    simp [e.origPath.ne_nil]
  rw [if_pos hmoves]
  exact congrArg (fun old => ({ deleted := old, modified := [e.path.text] } : FileChanges)) hfilter

theorem has_of_untracked (h : e.change = .untracked) (letter : Letter) :
    e.change.has letter = false := by
  rw [h]
  rfl

/-- A rename adds its old path to the deleted files, a deletion its path. -/
theorem mem_deleted_addEntry :
    p ∈ (addEntry {} e).deleted ↔
      (e.change.has .copied = false ∧ e.change.has .renamed = true ∧ p = e.origPath.text ∧
        isInfrastructurePath (String.ofList p) = false) ∨
      (e.change.moves = false ∧ e.change.has .deleted = true ∧ p = e.path.text) := by
  rw [addEntry_eq, Change.moves]
  split_ifs with huntracked hcopied hrenamed hdeleted
  · simp [has_of_untracked huntracked]
  · simp [hcopied]
  · rw [List.mem_filter, List.mem_singleton]
    simp [hcopied, hrenamed]
  · simp [hcopied, hrenamed, hdeleted]
  all_goals simp [hrenamed, hdeleted]

/-- All other entries add their paths to the modified or the new files, but for conflicts. -/
theorem mem_present_addEntry :
    p ∈ (addEntry {} e).modified ∨ p ∈ (addEntry {} e).newFiles ↔
      p = e.path.text ∧ (e.change.moves = true ∨ e.change.has .deleted = false ∧
        ¬e.change.OnlyUnmerged) := by
  rw [addEntry_eq, Change.moves, Change.OnlyUnmerged]
  split_ifs with huntracked hcopied hrenamed hdeleted hadded hmodified
  · simp [huntracked, Change.has]
  · simp [hcopied]
  · simp [hrenamed]
  · simp [hcopied, hrenamed, hdeleted]
  · simp [hcopied, hrenamed, hdeleted, hadded]
  · rcases hmodified with h | h <;> simp [hdeleted, h]
  · rw [not_or] at hmodified
    simp [huntracked, hcopied, hrenamed, hdeleted, hadded, hmodified]

end GitStatus
end Bitloops
