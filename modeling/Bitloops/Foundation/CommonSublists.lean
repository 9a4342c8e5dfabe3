import Mathlib.Data.List.Basic
import Mathlib.Order.Bounds.Basic
import Mathlib.Order.MinMax

/-!
# Longest common sublists

`commonLength a b` is the length of a longest common sublist of `a` and `b`,
`isGreatest_commonLength`.  It does not depend on the order of the two lists, nor on the end they
are read from.  `prefixRow` is the row of lengths for all prefixes of the second list, as a table
of such lengths holds it.
-/

namespace Bitloops
namespace CommonSublists

variable {α : Type*}

/-- The lengths of the common sublists. -/
def commonLengths (a b : List α) : Set ℕ :=
  {n | ∃ l : List α, l.Sublist a ∧ l.Sublist b ∧ l.length = n}

theorem commonLengths_comm (a b : List α) : commonLengths a b = commonLengths b a := by
  ext n
  exact exists_congr fun l => by rw [and_left_comm]

theorem commonLengths_reverse (a b : List α) :
    commonLengths a.reverse b.reverse = commonLengths a b := by
  ext n
  constructor
  · rintro ⟨l, ha, hb, hl⟩
    exact ⟨l.reverse, List.reverse_sublist.mp (by rwa [List.reverse_reverse]),
      List.reverse_sublist.mp (by rwa [List.reverse_reverse]), by rw [List.length_reverse, hl]⟩
  · rintro ⟨l, ha, hb, hl⟩
    exact ⟨l.reverse, ha.reverse, hb.reverse, by rw [List.length_reverse, hl]⟩

section Length

variable [DecidableEq α]

def commonLength : List α → List α → ℕ
  | [], _ => 0
  | _ :: _, [] => 0
  | x :: a, y :: b =>
    if x = y then commonLength a b + 1
    else max (commonLength a (y :: b)) (commonLength (x :: a) b)

theorem commonLength_nil_right (a : List α) : commonLength a [] = 0 := by
  cases a <;> rw [commonLength]

theorem commonLength_cons_cons (x y : α) (a b : List α) :
    commonLength (x :: a) (y :: b) =
      if x = y then commonLength a b + 1
      else max (commonLength a (y :: b)) (commonLength (x :: a) b) := by
  rw [commonLength]

theorem commonLength_mem (a b : List α) : commonLength a b ∈ commonLengths a b := by
  induction a, b using commonLength.induct with
  | case1 b => exact ⟨[], List.Sublist.refl _, List.nil_sublist b, by rw [commonLength]; rfl⟩
  | case2 x a => exact ⟨[], List.nil_sublist _, List.Sublist.refl _, by rw [commonLength]; rfl⟩
  | case3 a y b ih =>
    obtain ⟨l, ha, hb, hl⟩ := ih
    rw [commonLength_cons_cons, if_pos rfl]
    exact ⟨y :: l, ha.cons_cons y, hb.cons_cons y, by rw [List.length_cons, hl]⟩
  | case4 x a y b hne ihLeft ihRight =>
    rw [commonLength_cons_cons, if_neg hne]
    rcases max_choice (commonLength a (y :: b)) (commonLength (x :: a) b) with hmax | hmax
    · obtain ⟨l, ha, hb, hl⟩ := ihLeft
      exact ⟨l, ha.cons x, hb, hl.trans hmax.symm⟩
    · obtain ⟨l, ha, hb, hl⟩ := ihRight
      exact ⟨l, ha, hb.cons y, hl.trans hmax.symm⟩

theorem length_le_commonLength {a b : List α} :
    ∀ {l : List α}, l.Sublist a → l.Sublist b → l.length ≤ commonLength a b := by
  induction a, b using commonLength.induct with
  | case1 b =>
    intro l ha _
    rw [List.sublist_nil.mp ha]
    exact Nat.zero_le _
  | case2 x a =>
    intro l _ hb
    rw [List.sublist_nil.mp hb]
    exact Nat.zero_le _
  | case3 a y b ih =>
    intro l ha hb
    rw [commonLength_cons_cons, if_pos rfl]
    cases l with
    | nil => exact Nat.zero_le _
    | cons z l =>
      have htail := ih ha.tail hb.tail
      rw [List.length_cons]
      exact Nat.succ_le_succ htail
  | case4 x a y b hne ihLeft ihRight =>
    intro l ha hb
    rw [commonLength_cons_cons, if_neg hne]
    -- one of the two heads is not used
    rcases List.sublist_cons_iff.mp ha with hskip | ⟨l, rfl, -⟩
    · exact (ihLeft hskip hb).trans (le_max_left _ _)
    · rcases List.sublist_cons_iff.mp hb with hb | ⟨l', heq, -⟩
      · exact (ihRight ha hb).trans (le_max_right _ _)
      · exact absurd (List.cons_eq_cons.mp heq).1 hne

theorem isGreatest_commonLength (a b : List α) :
    IsGreatest (commonLengths a b) (commonLength a b) := by
  refine ⟨commonLength_mem a b, ?_⟩
  rintro n ⟨l, ha, hb, rfl⟩
  exact length_le_commonLength ha hb

theorem commonLength_comm (a b : List α) : commonLength a b = commonLength b a := by
  have hgreatest := isGreatest_commonLength b a
  rw [commonLengths_comm] at hgreatest
  exact (isGreatest_commonLength a b).unique hgreatest

theorem commonLength_reverse (a b : List α) :
    commonLength a.reverse b.reverse = commonLength a b := by
  have hgreatest := isGreatest_commonLength a.reverse b.reverse
  rw [commonLengths_reverse] at hgreatest
  exact hgreatest.unique (isGreatest_commonLength a b)

theorem commonLength_self (a : List α) : commonLength a a = a.length := by
  refine (isGreatest_commonLength a a).unique ⟨⟨a, List.Sublist.refl a, List.Sublist.refl a, rfl⟩, ?_⟩
  rintro n ⟨l, ha, -, rfl⟩
  exact ha.length_le

theorem commonLength_le_left (a b : List α) : commonLength a b ≤ a.length := by
  obtain ⟨l, ha, -, hl⟩ := commonLength_mem a b
  exact hl ▸ ha.length_le

theorem commonLength_le_right (a b : List α) : commonLength a b ≤ b.length := by
  rw [commonLength_comm]
  exact commonLength_le_left b a

/-! ## Rows of a table -/

/-- The lengths for what has been seen and for each prefix of what follows; what has been seen is
the last first. -/
def prefixRow (a : List α) : List α → List α → List ℕ
  | seen, [] => [commonLength a seen]
  | seen, x :: later => commonLength a seen :: prefixRow a (x :: seen) later

/-- A row begins with the length for what has been seen. -/
theorem prefixRow_eq_cons (a seen later : List α) :
    prefixRow a seen later = commonLength a seen :: (prefixRow a seen later).tail := by
  cases later <;> rfl

theorem prefixRow_nil (seen later : List α) :
    prefixRow [] seen later = List.replicate (later.length + 1) 0 := by
  induction later generalizing seen with
  | nil =>
    rw [prefixRow, commonLength]
    rfl
  | cons x later ih =>
    rw [prefixRow, ih, commonLength]
    rfl

theorem getLast?_prefixRow (a seen later : List α) :
    (prefixRow a seen later).getLast? = some (commonLength a (later.reverse ++ seen)) := by
  induction later generalizing seen with
  | nil => rfl
  | cons x later ih =>
    rw [prefixRow, List.getLast?_cons, ih, List.reverse_cons, List.append_assoc]
    rfl

end Length

end CommonSublists
end Bitloops
