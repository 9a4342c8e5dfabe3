import Bitloops.Checkpoints.AttributionBounds
import Bitloops.Foundation.CommonSublists

/-!
# The comparison of lines

`diffLines` counts a longest common subsequence of the lines as unchanged and the other lines as
added and removed, `isLcsDiff_iff`, as long as these counts fit in 32 bits.  From there on the
casts of the lengths wrap around, `wraps_of_many_lines`.
-/

namespace Bitloops
namespace Checkpoints
namespace Attribution

open CommonSublists Int32Sums

/-! ## The table -/

/-- A row goes over in the next one. -/
theorem lcsRow_prefixRow (line : Line) (done seen right : List Line) :
    lcsRow line right (prefixRow done seen right) (commonLength (line :: done) seen) =
      (prefixRow (line :: done) seen right).tail := by
  induction right generalizing seen with
  | nil => rw [lcsRow.eq_def]; rfl
  | cons head rest ih =>
    rw [prefixRow, prefixRow_eq_cons done, lcsRow, ← prefixRow_eq_cons, prefixRow, List.tail_cons,
      prefixRow_eq_cons (line :: done), ← ih, commonLength_cons_cons]

theorem lcsTable_eq_prefixRow (left right : List Line) :
    lcsTable left right = prefixRow left.reverse [] right := by
  have hfold : ∀ (left done : List Line),
      left.foldl (fun row line => 0 :: lcsRow line right row 0) (prefixRow done [] right) =
        prefixRow (left.reverse ++ done) [] right := by
    intro left
    induction left with
    | nil => exact fun done => rfl
    | cons line left ih =>
      intro done
      have hrow := lcsRow_prefixRow line done [] right
      have hnext := prefixRow_eq_cons (line :: done) [] right
      rw [commonLength_nil_right] at hrow hnext
      rw [List.foldl_cons, hrow, ← hnext, ih, List.reverse_cons, List.append_assoc]
      rfl
  rw [lcsTable, ← prefixRow_nil (α := Line) [] right, hfold, List.append_nil]

/-- The table ends with the length of a longest common subsequence. -/
theorem lcsLineCount_eq (left right : List Line) :
    lcsLineCount left right = commonLength left right := by
  rw [lcsLineCount, lcsTable_eq_prefixRow, getLast?_prefixRow, List.append_nil,
    commonLength_reverse]
  split_ifs with hempty
  · rcases Bool.or_eq_true_iff.mp hempty with h | h
    · rw [List.isEmpty_iff.mp h, commonLength]
    · rw [List.isEmpty_iff.mp h, commonLength_nil_right]
  · rfl

/-! ## The counts -/

/-- The comparison without its shortcuts. -/
def tableDiff (x y : String) : LineDiff :=
  let unchanged := Int32.ofNat (lcsLineCount (splitLines x) (splitLines y))
  { unchanged
    added := max (Int32.ofNat (splitLines y).length - unchanged) 0
    removed := max (Int32.ofNat (splitLines x).length - unchanged) 0 }

def LineDiff.swap (d : LineDiff) : LineDiff := ⟨d.unchanged, d.removed, d.added⟩

/-- The counts are those of a longest common subsequence, found with or without the shortcuts. -/
structure IsLcsDiff (x y : String) : Prop where
  unchanged : ∃ n : ℕ, (diffLines x y).unchanged.toInt = n ∧
    IsGreatest (commonLengths (splitLines x) (splitLines y)) n
  committed : (diffLines x y).unchanged.toInt + (diffLines x y).added.toInt = linesIn y
  checkpoint : (diffLines x y).unchanged.toInt + (diffLines x y).removed.toInt = linesIn x
  shortcuts : diffLines x y = tableDiff x y
  swap : diffLines y x = (diffLines x y).swap

/-- The lines that a longest common subsequence keeps, and those of either text outside of it. -/
structure Countable (x y : String) : Prop where
  unchanged : commonLength (splitLines x) (splitLines y) < 2 ^ 31
  added : (splitLines y).length - commonLength (splitLines x) (splitLines y) < 2 ^ 31
  removed : (splitLines x).length - commonLength (splitLines x) (splitLines y) < 2 ^ 31

variable {x y : String}

theorem splitLines_empty : splitLines "" = [] := rfl

theorem eq_empty_of_isEmpty (h : x.isEmpty = true) : x = "" := String.isEmpty_iff.mp h

/-- What is left of a length when a part is taken away, in 32 bits. -/
theorem toInt_max_ofNat_sub {a k : ℕ} (hk : k ≤ a) (h : a - k < 2 ^ 31) :
    (max (Int32.ofNat a - Int32.ofNat k) 0).toInt = (a : ℤ) - k := by
  have hzero : (0 : Int32).toInt = 0 := rfl
  have hsub : Int32.ofNat a - Int32.ofNat k = Int32.ofNat (a - k) := by
    rw [Int32.ofNat_sub _ _ hk]
  rw [toInt_max, hsub, Int32.toInt_ofNat_of_lt h, hzero]
  omega

theorem Countable.symm (h : Countable x y) : Countable y x := by
  obtain ⟨hunchanged, hadded, hremoved⟩ := h
  rw [commonLength_comm] at hunchanged hadded hremoved
  exact ⟨hunchanged, hremoved, hadded⟩

/-- The shortcuts agree with the table. -/
theorem diffLines_eq_tableDiff (h : Countable x y) : diffLines x y = tableDiff x y := by
  have hzero : (0 : Int32).toInt = 0 := rfl
  have hkeep : ∀ n : ℕ, n < 2 ^ 31 → max (Int32.ofNat n - Int32.ofNat 0) 0 = Int32.ofNat n := by
    intro n hn
    apply Int32.toInt_inj.mp
    rw [toInt_max_ofNat_sub (Nat.zero_le n) hn, Int32.toInt_ofNat_of_lt hn]
    exact sub_zero _
  have hdrop : ∀ n : ℕ, max (Int32.ofNat n - Int32.ofNat n) 0 = 0 := by
    intro n
    rw [Int32.sub_self]
    rfl
  unfold diffLines
  split_ifs with heq hx hy
  · subst heq
    rw [tableDiff, lcsLineCount_eq, commonLength_self, hdrop]
    rfl
  · have hadded := h.added
    rw [eq_empty_of_isEmpty hx, splitLines_empty, commonLength, Nat.sub_zero] at hadded
    rw [eq_empty_of_isEmpty hx, tableDiff, lcsLineCount_eq, splitLines_empty, commonLength,
      hkeep _ hadded, List.length_nil, hdrop]
    rfl
  · have hremoved := h.removed
    rw [eq_empty_of_isEmpty hy, splitLines_empty, commonLength_nil_right,
      Nat.sub_zero] at hremoved
    rw [eq_empty_of_isEmpty hy, tableDiff, lcsLineCount_eq, splitLines_empty,
      commonLength_nil_right, hkeep _ hremoved, List.length_nil, hdrop]
    rfl
  · rfl

theorem swap_tableDiff (x y : String) : tableDiff y x = (tableDiff x y).swap := by
  rw [tableDiff, lcsLineCount_eq, commonLength_comm, ← lcsLineCount_eq]
  rfl

theorem isLcsDiff_of_countable (h : Countable x y) : IsLcsDiff x y where
  unchanged := by
    refine ⟨_, ?_, isGreatest_commonLength _ _⟩
    rw [diffLines_eq_tableDiff h, tableDiff, lcsLineCount_eq]
    exact Int32.toInt_ofNat_of_lt h.unchanged
  committed := by
    have hsub := toInt_max_ofNat_sub (commonLength_le_right (splitLines x) (splitLines y)) h.added
    rw [diffLines_eq_tableDiff h, tableDiff, lcsLineCount_eq]
    simp only [hsub, Int32.toInt_ofNat_of_lt h.unchanged, linesIn]
    omega
  checkpoint := by
    have hsub := toInt_max_ofNat_sub (commonLength_le_left (splitLines x) (splitLines y)) h.removed
    rw [diffLines_eq_tableDiff h, tableDiff, lcsLineCount_eq]
    simp only [hsub, Int32.toInt_ofNat_of_lt h.unchanged, linesIn]
    omega
  shortcuts := diffLines_eq_tableDiff h
  swap := by
    rw [diffLines_eq_tableDiff h, diffLines_eq_tableDiff h.symm, swap_tableDiff]

/-- What a count of 32 bits tells is less than `2 ^ 31`. -/
theorem countable_of_isLcsDiff (h : IsLcsDiff x y) : Countable x y := by
  obtain ⟨n, hn, hgreatest⟩ := h.unchanged
  have heq : n = commonLength (splitLines x) (splitLines y) :=
    hgreatest.unique (isGreatest_commonLength _ _)
  have hcommitted := h.committed
  have hcheckpoint := h.checkpoint
  have hunchanged := Int32.toInt_lt (diffLines x y).unchanged
  have hadded := Int32.toInt_lt (diffLines x y).added
  have hremoved := Int32.toInt_lt (diffLines x y).removed
  subst heq
  rw [linesIn] at hcommitted hcheckpoint
  constructor <;> omega

/-- The comparison is right exactly when its counts fit in 32 bits. -/
theorem isLcsDiff_iff (x y : String) : IsLcsDiff x y ↔ Countable x y :=
  ⟨countable_of_isLcsDiff, isLcsDiff_of_countable⟩

/-! ## Too many lines -/

/-- Empty lines, one after the other. -/
def emptyLines (n : ℕ) : String := String.ofList (List.replicate n '\n')

theorem splitOn_replicate (n : ℕ) :
    (List.replicate n '\n').splitOn '\n' = List.replicate (n + 1) [] := by
  induction n with
  | zero => rfl
  | succ n ih =>
    rw [List.replicate_succ, List.splitOn_cons_eq_if_modifyHead, if_pos (beq_self_eq_true _), ih]
    rfl

theorem length_splitLines_emptyLines (n : ℕ) : (splitLines (emptyLines n)).length = n := by
  cases n with
  | zero => rfl
  | succ n =>
    have hempty : (emptyLines (n + 1)).isEmpty = false := by
      rw [emptyLines, ← Bool.not_eq_true, String.isEmpty_iff, ← String.toList_inj,
        String.toList_ofList]
      exact List.cons_ne_nil _ _
    have hlast : (emptyLines (n + 1)).toList.getLast? = some '\n' := by
      rw [emptyLines, String.toList_ofList, List.getLast?_replicate]
      exact if_neg (Nat.succ_ne_zero n)
    rw [splitLines, hempty, if_neg Bool.false_ne_true]
    simp only
    rw [if_pos hlast, emptyLines, String.toList_ofList, splitOn_replicate, List.length_dropLast,
      List.length_replicate]
    rfl

/-- `2 ^ 31` equal lines are counted as `-2 ^ 31`. -/
theorem wraps_of_many_lines : ¬ IsLcsDiff (emptyLines (2 ^ 31)) (emptyLines (2 ^ 31)) := by
  intro h
  obtain ⟨n, hn, -⟩ := h.unchanged
  have hwrap : (Int32.ofNat (2 ^ 31)).toInt = -2 ^ 31 := by decide
  rw [diffLines, if_pos rfl, countLinesStr, length_splitLines_emptyLines, hwrap] at hn
  omega

end Attribution
end Checkpoints
end Bitloops
