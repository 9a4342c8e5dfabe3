import Mathlib

/-!
# Sums in 32-bit integers

Sums of `Int32` values wrap around.  Where the exact result is in range the sum is exact, and so
is a running sum of values that are not negative, if its end is in range.
-/

namespace Bitloops
namespace Int32Sums

variable {α : Type*} {a b : Int32} {f : α → Int32} {l l' : List α}

theorem toInt_add_of_mem (hlow : -2 ^ 31 ≤ a.toInt + b.toInt) (hhigh : a.toInt + b.toInt < 2 ^ 31) :
    (a + b).toInt = a.toInt + b.toInt := by
  rw [Int32.toInt_add]
  exact Int.bmod_eq_of_le (by omega) (by omega)

theorem toInt_sub_of_mem (hlow : -2 ^ 31 ≤ a.toInt - b.toInt) (hhigh : a.toInt - b.toInt < 2 ^ 31) :
    (a - b).toInt = a.toInt - b.toInt := by
  rw [Int32.toInt_sub]
  exact Int.bmod_eq_of_le (by omega) (by omega)

@[simp] theorem toInt_max : (max a b).toInt = max a.toInt b.toInt := by
  show (if a ≤ b then b else a).toInt = _
  by_cases h : a ≤ b
  · rw [if_pos h, max_eq_right (Int32.le_iff_toInt_le.mp h)]
  · rw [if_neg h, max_eq_left]
    exact le_of_lt (not_le.mp fun hle => h (Int32.le_iff_toInt_le.mpr hle))

@[simp] theorem toInt_min : (min a b).toInt = min a.toInt b.toInt := by
  show (if a ≤ b then a else b).toInt = _
  by_cases h : a ≤ b
  · rw [if_pos h, min_eq_left (Int32.le_iff_toInt_le.mp h)]
  · rw [if_neg h, min_eq_right]
    exact le_of_lt (not_le.mp fun hle => h (Int32.le_iff_toInt_le.mpr hle))

theorem nonneg_iff : 0 ≤ a ↔ 0 ≤ a.toInt := Int32.le_iff_toInt_le

theorem pos_iff : 0 < a ↔ 0 < a.toInt := Int32.lt_iff_toInt_lt

/-! ## Running sums -/

/-- The exact sum of the values. -/
def total (f : α → Int32) (l : List α) : ℤ := (l.map fun x => (f x).toInt).sum

@[simp] theorem total_nil : total f ([] : List α) = 0 := rfl

@[simp] theorem total_cons (x : α) : total f (x :: l) = (f x).toInt + total f l := by
  simp [total]

theorem total_nonneg (h : ∀ x ∈ l, 0 ≤ (f x).toInt) : 0 ≤ total f l :=
  List.sum_nonneg fun n hn => by
    obtain ⟨x, hx, rfl⟩ := List.mem_map.mp hn
    exact h x hx

/-- Bounds of the values add up. -/
theorem total_le {g : α → ℤ} (h : ∀ x ∈ l, (f x).toInt ≤ g x) : total f l ≤ (l.map g).sum :=
  List.sum_le_sum h

theorem toInt_foldl_add {acc : Int32} (hacc : 0 ≤ acc.toInt) (hf : ∀ x ∈ l, 0 ≤ (f x).toInt)
    (hsmall : acc.toInt + total f l < 2 ^ 31) :
    (l.foldl (fun n x => n + f x) acc).toInt = acc.toInt + total f l := by
  induction l generalizing acc with
  | nil => simp
  | cons x l ih =>
    have hx := hf x List.mem_cons_self
    have hl := fun y hy => hf y (List.mem_cons_of_mem x hy)
    have htotal := total_nonneg hl
    rw [total_cons] at hsmall ⊢
    have hadd : (acc + f x).toInt = acc.toInt + (f x).toInt :=
      toInt_add_of_mem (by omega) (by omega)
    rw [List.foldl_cons, ih (by omega) hl (by omega), hadd]
    omega

/-- A running sum does not depend on the order. -/
theorem foldl_add_perm (h : l.Perm l') (acc : Int32) :
    l.foldl (fun n x => n + f x) acc = l'.foldl (fun n x => n + f x) acc :=
  h.foldl_eq' (fun x _ y _ n => by ac_rfl) acc

end Int32Sums
end Bitloops
