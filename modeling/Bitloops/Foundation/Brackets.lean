import Mathlib.Data.List.Basic
import Mathlib.Data.Int.Notation

/-!
# Brackets and what stands outside of them

Texts over any alphabet with an opening and a closing bracket, as scanners see them that count the
depth of the brackets.

* `Balanced`: every bracket has its partner;
* `closeAt`: where the depth comes back to zero, with `closeAt_balanced`;
* `splitTop`: the pieces between the separators outside of the brackets, with
  `splitTop_intercalate` for pieces that have no separator of their own outside of brackets.
-/

namespace Bitloops
namespace Brackets

variable {α : Type*} (opening closing separator : α)

/-- Every bracket has its partner. -/
inductive Balanced : List α → Prop
  | nil : Balanced []
  | cons {c : α} {text : List α} (hopening : c ≠ opening) (hclosing : c ≠ closing)
      (rest : Balanced text) : Balanced (c :: text)
  | group {inside text : List α} (hinside : Balanced inside) (rest : Balanced text) :
      Balanced (opening :: inside ++ closing :: text)

/-- Balanced, without a separator outside of the brackets. -/
inductive Closed : List α → Prop
  | nil : Closed []
  | cons {c : α} {text : List α} (hopening : c ≠ opening) (hclosing : c ≠ closing)
      (hseparator : c ≠ separator) (rest : Closed text) : Closed (c :: text)
  | group {inside text : List α} (hinside : Balanced opening closing inside)
      (rest : Closed text) : Closed (opening :: inside ++ closing :: text)

section Scanners

variable [DecidableEq α]

/-- The index at which the depth comes back to zero. -/
def closeAt (depth : ℤ) (idx : ℕ) : List α → Option ℕ
  | [] => none
  | c :: text =>
    if c = opening then closeAt (depth + 1) (idx + 1) text
    else if c = closing then
      if depth - 1 = 0 then some idx else closeAt (depth - 1) (idx + 1) text
    else closeAt depth (idx + 1) text

/-- The pieces between the separators at depth zero. -/
def splitTop (depth : ℤ) (piece : List α) : List α → List (List α)
  | [] => [piece]
  | c :: text =>
    if c = opening then splitTop (depth + 1) (piece ++ [c]) text
    else if c = closing then splitTop (depth - 1) (piece ++ [c]) text
    else if c = separator ∧ depth = 0 then piece :: splitTop depth [] text
    else splitTop depth (piece ++ [c]) text

end Scanners

variable {opening closing separator} {text text' rest : List α}

/-! ## Balanced texts -/

theorem Balanced.append (h : Balanced opening closing text)
    (h' : Balanced opening closing text') : Balanced opening closing (text ++ text') := by
  induction h with
  | nil => exact h'
  | cons hopening hclosing _ ih => exact .cons hopening hclosing ih
  | @group inside text hinside _ _ ih =>
    have hgroup := Balanced.group hinside ih
    simpa only [List.cons_append, List.append_assoc] using hgroup

theorem Closed.append (h : Closed opening closing separator text)
    (h' : Closed opening closing separator text') :
    Closed opening closing separator (text ++ text') := by
  induction h with
  | nil => exact h'
  | cons hopening hclosing hseparator _ ih => exact .cons hopening hclosing hseparator ih
  | @group inside text hinside _ ih =>
    have hgroup := Closed.group hinside ih
    simpa only [List.cons_append, List.append_assoc] using hgroup

theorem Closed.balanced (h : Closed opening closing separator text) :
    Balanced opening closing text := by
  induction h with
  | nil => exact .nil
  | cons hopening hclosing _ _ ih => exact .cons hopening hclosing ih
  | group hinside _ ih => exact .group hinside ih

theorem closed_of_forall
    (h : ∀ c ∈ text, c ≠ opening ∧ c ≠ closing ∧ c ≠ separator) :
    Closed opening closing separator text := by
  induction text with
  | nil => exact .nil
  | cons c text ih =>
    obtain ⟨hopening, hclosing, hseparator⟩ := h c List.mem_cons_self
    exact .cons hopening hclosing hseparator (ih fun x hx => h x (List.mem_cons_of_mem c hx))

theorem closed_group (h : Balanced opening closing text) :
    Closed opening closing separator (opening :: text ++ [closing]) := .group h .nil

/-- Pieces that are joined by separators are balanced together. -/
theorem balanced_intercalate (hopening : separator ≠ opening) (hclosing : separator ≠ closing)
    {pieces : List (List α)} (h : ∀ piece ∈ pieces, Balanced opening closing piece) :
    Balanced opening closing ([separator].intercalate pieces) := by
  induction pieces with
  | nil => exact .nil
  | cons piece pieces ih =>
    have hpiece := h piece List.mem_cons_self
    have hrest := ih fun x hx => h x (List.mem_cons_of_mem piece hx)
    cases pieces with
    | nil =>
      rw [List.intercalate_singleton]
      exact hpiece
    | cons next pieces =>
      rw [List.intercalate_cons_cons, List.append_assoc]
      exact hpiece.append (.cons hopening hclosing hrest)

/-! ## Scanning -/

variable [DecidableEq α]

/-- Inside of brackets a balanced text is passed over. -/
theorem closeAt_balanced (hne : opening ≠ closing) (h : Balanced opening closing text) {depth : ℤ}
    (hdepth : 0 < depth) (idx : ℕ) :
    closeAt opening closing depth idx (text ++ rest) =
      closeAt opening closing depth (idx + text.length) rest := by
  induction h generalizing depth idx rest with
  | nil => rfl
  | @cons c text hopening hclosing _ ih =>
    rw [List.cons_append, closeAt, if_neg hopening, if_neg hclosing, ih hdepth, List.length_cons]
    congr 1
    omega
  | @group inside text _ _ ihInside ih =>
    have hback : ¬ depth + 1 - 1 = 0 := by omega
    rw [List.cons_append, List.cons_append, List.append_assoc, closeAt, if_pos rfl,
      ihInside (by omega), List.cons_append, closeAt, if_neg hne.symm, if_pos rfl, if_neg hback,
      ih (by omega)]
    simp only [List.length_cons, List.length_append, Int.add_sub_cancel]
    congr 1
    omega

theorem closeAt_closing (hne : opening ≠ closing) (h : Balanced opening closing text) (idx : ℕ) :
    closeAt opening closing 0 idx (opening :: text ++ closing :: rest) =
      some (idx + 1 + text.length) := by
  rw [List.cons_append, closeAt, if_pos rfl, closeAt_balanced hne h (by omega), closeAt,
    if_neg hne.symm, if_pos rfl, if_pos (by omega)]

/-- Inside of brackets no separator counts. -/
theorem splitTop_balanced (hne : opening ≠ closing) (h : Balanced opening closing text) {depth : ℤ}
    (hdepth : 0 < depth) (piece : List α) :
    splitTop opening closing separator depth piece (text ++ rest) =
      splitTop opening closing separator depth (piece ++ text) rest := by
  induction h generalizing depth piece rest with
  | nil => rw [List.nil_append, List.append_nil]
  | @cons c text hopening hclosing _ ih =>
    have hinside : ¬ (c = separator ∧ depth = 0) := by omega
    rw [List.cons_append, splitTop, if_neg hopening, if_neg hclosing, if_neg hinside, ih hdepth,
      List.append_assoc, List.singleton_append]
  | @group inside text _ _ ihInside ih =>
    rw [List.cons_append, List.cons_append, List.append_assoc, splitTop, if_pos rfl,
      ihInside (by omega), List.cons_append, splitTop, if_neg hne.symm, if_pos rfl,
      Int.add_sub_cancel, ih hdepth]
    simp only [List.append_assoc, List.cons_append, List.nil_append]

theorem splitTop_closed (hne : opening ≠ closing) (h : Closed opening closing separator text)
    (piece : List α) :
    splitTop opening closing separator 0 piece (text ++ rest) =
      splitTop opening closing separator 0 (piece ++ text) rest := by
  induction h generalizing piece rest with
  | nil => rw [List.nil_append, List.append_nil]
  | @cons c text hopening hclosing hseparator _ ih =>
    have hother : ¬ (c = separator ∧ (0 : ℤ) = 0) := fun hc => hseparator hc.1
    rw [List.cons_append, splitTop, if_neg hopening, if_neg hclosing, if_neg hother, ih,
      List.append_assoc, List.singleton_append]
  | @group inside text hinside _ ih =>
    rw [List.cons_append, List.cons_append, List.append_assoc, splitTop, if_pos rfl,
      splitTop_balanced hne hinside (by omega), List.cons_append, splitTop, if_neg hne.symm,
      if_pos rfl, Int.add_sub_cancel, ih]
    simp only [List.append_assoc, List.cons_append, List.nil_append]

/-- **Pieces that are joined by separators are split again.** -/
theorem splitTop_intercalate (hne : opening ≠ closing) (hopening : separator ≠ opening)
    (hclosing : separator ≠ closing) {pieces : List (List α)} {piece : List α}
    (h : ∀ p ∈ piece :: pieces, Closed opening closing separator p) :
    splitTop opening closing separator 0 [] ([separator].intercalate (piece :: pieces)) =
      piece :: pieces := by
  induction pieces generalizing piece with
  | nil =>
    have hsplit : splitTop opening closing separator 0 [] (piece ++ []) = _ :=
      splitTop_closed hne (h piece List.mem_cons_self) []
    rw [List.append_nil, List.nil_append] at hsplit
    rw [List.intercalate_singleton, hsplit, splitTop]
  | cons next pieces ih =>
    rw [List.intercalate_cons_cons, List.append_assoc, List.singleton_append, splitTop_closed hne (h piece List.mem_cons_self), List.nil_append, splitTop,
      if_neg hopening, if_neg hclosing, if_pos ⟨rfl, rfl⟩,
      ih fun p hp => h p (List.mem_cons_of_mem piece hp)]

end Brackets
end Bitloops
