import Mathlib.Data.Int.Notation
import Mathlib.Data.List.Basic

/-!
# Decimal numbers in texts

* `padded width n`: the digits of `n`, with zeros in front of them up to a width;
* `parseUnsigned` and `parseSigned`: numbers of a bounded type, with an optional sign;
* `parseUnsigned_padded` and `parseSigned_padded` read padded numbers back.
-/

namespace Bitloops
namespace Decimals

/-! ## Reading and writing -/

def padded (width n : ℕ) : List Char :=
  List.replicate (width - (Nat.toDigits 10 n).length) '0' ++ Nat.toDigits 10 n

def digitsValue (text : List Char) : Option ℕ :=
  if text ≠ [] ∧ text.all Char.isDigit then some (Nat.ofDigitChars 10 text 0) else none

/-- A plus sign may stand in front. -/
def parseUnsigned (high : ℕ) (text : List Char) : Option ℕ :=
  (match text with
  | '+' :: digits => digitsValue digits
  | _ => digitsValue text).filter fun n => n ≤ high

def parseSigned (low high : ℤ) (text : List Char) : Option ℤ :=
  (match text with
  | '+' :: digits => (digitsValue digits).map fun n : ℕ => (n : ℤ)
  | '-' :: digits => (digitsValue digits).map fun n : ℕ => -(n : ℤ)
  | _ => (digitsValue text).map fun n : ℕ => (n : ℤ)).filter fun n => low ≤ n ∧ n ≤ high

/-! ## Reading back -/

variable {width n : ℕ}

theorem isDigit_padded : ∀ c ∈ padded width n, c.isDigit = true := by
  intro c hc
  rcases List.mem_append.mp hc with hc | hc
  · rw [List.eq_of_mem_replicate hc]
    rfl
  · exact Nat.isDigit_of_mem_toDigits (by omega) (by omega) hc

theorem notMem_padded {c : Char} (h : c.isDigit = false) : c ∉ padded width n := fun hc => by
  rw [isDigit_padded c hc] at h
  exact Bool.noConfusion h

theorem padded_ne_nil : padded width n ≠ [] :=
  List.append_ne_nil_of_right_ne_nil _ Nat.toDigits_ne_nil

theorem le_length_padded : width ≤ (padded width n).length := by
  rw [padded, List.length_append, List.length_replicate]
  omega

theorem digitsValue_padded : digitsValue (padded width n) = some n := by
  have hall : (padded width n).all Char.isDigit = true := List.all_eq_true.mpr isDigit_padded
  rw [digitsValue, if_pos ⟨padded_ne_nil, hall⟩, padded, Nat.ofDigitChars_append,
    Nat.ofDigitChars_replicate_zero, Nat.mul_zero, Nat.ofDigitChars_ten_toDigits]

theorem exists_padded_cons : ∃ c digits, padded width n = c :: digits ∧ c.isDigit = true := by
  obtain ⟨c, digits, h⟩ := List.exists_cons_of_ne_nil (@padded_ne_nil width n)
  exact ⟨c, digits, h, isDigit_padded c (h ▸ List.mem_cons_self)⟩

theorem ne_sign {c : Char} (h : c.isDigit = true) : c ≠ '+' ∧ c ≠ '-' :=
  ⟨fun heq => by rw [heq] at h; exact Bool.noConfusion h,
    fun heq => by rw [heq] at h; exact Bool.noConfusion h⟩

theorem parseUnsigned_padded {high : ℕ} (h : n ≤ high) :
    parseUnsigned high (padded width n) = some n := by
  obtain ⟨c, digits, hcons, hdigit⟩ := @exists_padded_cons width n
  have hvalue := @digitsValue_padded width n
  rw [hcons] at hvalue ⊢
  unfold parseUnsigned
  split
  · rename_i rest heq
    exact absurd (List.cons_eq_cons.mp heq).1 (ne_sign hdigit).1
  · rw [hvalue, Option.filter_some, if_pos (decide_eq_true h)]

theorem parseSigned_padded {low high : ℤ} (hlow : low ≤ n) (hhigh : (n : ℤ) ≤ high) :
    parseSigned low high (padded width n) = some (n : ℤ) := by
  obtain ⟨c, digits, hcons, hdigit⟩ := @exists_padded_cons width n
  have hvalue := @digitsValue_padded width n
  rw [hcons] at hvalue ⊢
  unfold parseSigned
  split
  · rename_i rest heq
    exact absurd (List.cons_eq_cons.mp heq).1 (ne_sign hdigit).1
  · rename_i rest heq
    exact absurd (List.cons_eq_cons.mp heq).1 (ne_sign hdigit).2
  · rw [hvalue, Option.map_some, Option.filter_some, if_pos (decide_eq_true ⟨hlow, hhigh⟩)]

theorem parseSigned_padded_eq_none {low high : ℤ} (hhigh : high < n) :
    parseSigned low high (padded width n) = none := by
  obtain ⟨c, digits, hcons, hdigit⟩ := @exists_padded_cons width n
  have hvalue := @digitsValue_padded width n
  rw [hcons] at hvalue ⊢
  unfold parseSigned
  split
  · rename_i rest heq
    exact absurd (List.cons_eq_cons.mp heq).1 (ne_sign hdigit).1
  · rename_i rest heq
    exact absurd (List.cons_eq_cons.mp heq).1 (ne_sign hdigit).2
  · rw [hvalue, Option.map_some, Option.filter_some, if_neg]
    rw [decide_eq_true_eq]
    exact fun h => Int.not_le.mpr hhigh h.2

/-- A text with a character that is no digit, after the first one, is no number. -/
theorem parseUnsigned_eq_none {high : ℕ} {text : List Char} {c : Char} (hc : c ∈ text.tail)
    (hdigit : c.isDigit = false) : parseUnsigned high text = none := by
  have hnone : ∀ digits : List Char, c ∈ digits → digitsValue digits = none := by
    intro digits hmem
    rw [digitsValue, if_neg]
    rintro ⟨-, hall⟩
    rw [List.all_eq_true.mp hall c hmem] at hdigit
    exact Bool.noConfusion hdigit
  unfold parseUnsigned
  split
  · rename_i digits
    rw [hnone digits hc]
    rfl
  · rw [hnone _ (List.mem_of_mem_tail hc)]
    rfl

end Decimals
end Bitloops
