import Mathlib.Data.List.Basic
import Mathlib.Data.List.Infix
import Bitloops.Foundation.Records

/-!
# Texts that another text separates

* `splitFirst separator text`: what stands before the first occurrence of the separator, and what
  stands after it, with `splitFirst_eq_some` and `length_le_of_splitFirst`;
* `splitAll separator text`: the parts between the occurrences, which are looked for from the
  left, with `splitAll_of_splitFirst` and `two_le_length_splitAll`;
* `splitLast separator text`: the parts before and after the last occurrence of a character.
-/

namespace Bitloops
namespace Separators

variable {α : Type*} [DecidableEq α]

/-- The text before the first occurrence of the separator and the text after it. -/
def splitFirst (separator : List α) : List α → Option (List α × List α)
  | [] => none
  | c :: text =>
    if separator.isPrefixOf (c :: text) then some ([], text.drop (separator.length - 1))
    else (splitFirst separator text).map fun (before, after) => (c :: before, after)

/-- The parts between the separators, after `skip` characters that belong to a separator. -/
def splitFrom (separator : List α) : ℕ → List α → List (List α)
  | _, [] => [[]]
  | skip + 1, _ :: text => splitFrom separator skip text
  | 0, c :: text =>
    if separator.isPrefixOf (c :: text) then [] :: splitFrom separator (separator.length - 1) text
    else (splitFrom separator 0 text).modifyHead (c :: ·)

/-- The parts between the separators. -/
def splitAll (separator text : List α) : List (List α) := splitFrom separator 0 text

/-- The text before the last separator and the text after it. -/
def splitLast (separator : α) (text : List α) : Option (List α × List α) :=
  (splitOnce separator text.reverse).map fun (after, before) => (before.reverse, after.reverse)

variable {separator text before after : List α}

/-! ## The first separator -/

theorem drop_of_isPrefixOf {c : α} (hne : separator ≠ [])
    (h : separator.isPrefixOf (c :: text) = true) :
    c :: text = separator ++ text.drop (separator.length - 1) := by
  obtain ⟨rest, hrest⟩ := List.isPrefixOf_iff_prefix.mp h
  cases separator with
  | nil => exact absurd rfl hne
  | cons first separator =>
    rw [List.cons_append] at hrest
    obtain ⟨rfl, rfl⟩ := List.cons_eq_cons.mp hrest
    rw [List.length_cons, Nat.add_sub_cancel, List.drop_left, List.cons_append]

theorem eq_append_of_splitFirst (hne : separator ≠ [])
    (h : splitFirst separator text = some (before, after)) :
    text = before ++ separator ++ after := by
  induction text generalizing before with
  | nil => exact nomatch h
  | cons c text ih =>
    rw [splitFirst] at h
    split_ifs at h with hleading
    · obtain ⟨rfl, rfl⟩ := Prod.mk.inj (Option.some.inj h)
      exact drop_of_isPrefixOf hne hleading
    · obtain ⟨⟨front, rest⟩, hfront, heq⟩ := Option.map_eq_some_iff.mp h
      obtain ⟨rfl, rfl⟩ := Prod.mk.inj heq
      rw [ih hfront, List.cons_append, List.cons_append]

/-- The separator occurs nowhere before. -/
theorem length_le_of_splitFirst {front rest : List α}
    (h : splitFirst separator text = some (before, after))
    (htext : text = front ++ separator ++ rest) : before.length ≤ front.length := by
  induction text generalizing before front with
  | nil => exact nomatch h
  | cons c text ih =>
    rw [splitFirst] at h
    split_ifs at h with hleading
    · obtain ⟨rfl, rfl⟩ := Prod.mk.inj (Option.some.inj h)
      exact Nat.zero_le _
    · obtain ⟨⟨front', rest'⟩, hfront, heq⟩ := Option.map_eq_some_iff.mp h
      obtain ⟨rfl, rfl⟩ := Prod.mk.inj heq
      cases front with
      | nil =>
        refine absurd (List.isPrefixOf_iff_prefix.mpr ⟨rest, ?_⟩) hleading
        exact htext.symm
      | cons first front =>
        rw [List.cons_append, List.cons_append] at htext
        exact Nat.succ_le_succ (ih hfront (List.cons_eq_cons.mp htext).2)

theorem exists_splitFirst (hne : separator ≠ []) (h : separator <:+: text) :
    ∃ before after, splitFirst separator text = some (before, after) := by
  induction text with
  | nil =>
    exact absurd (List.infix_nil.mp h) hne
  | cons c text ih =>
    rw [splitFirst]
    by_cases hleading : separator.isPrefixOf (c :: text) = true
    · rw [if_pos hleading]
      exact ⟨_, _, rfl⟩
    · rw [if_neg hleading]
      have hwithin : separator <:+: text := (List.infix_cons_iff.mp h).resolve_left
        fun hpre => hleading (List.isPrefixOf_iff_prefix.mpr hpre)
      obtain ⟨front, rest, hfront⟩ := ih hwithin
      exact ⟨_, _, by rw [hfront, Option.map_some]⟩

/-- A text in which a separator occurs with its last element only is cut at the separator. -/
theorem splitFirst_append {piece rest : List α} (hne : separator ≠ [])
    (hfree : ¬separator <:+: piece ++ separator.dropLast) :
    splitFirst separator (piece ++ separator ++ rest) = some (piece, rest) := by
  obtain ⟨before, after, hsplit⟩ :=
    exists_splitFirst hne (List.infix_append piece separator rest)
  have htext := eq_append_of_splitFirst hne hsplit
  have hle := length_le_of_splitFirst hsplit rfl
  rcases hle.lt_or_eq with hlt | heq
  · refine absurd ?_ hfree
    have hpos := List.length_pos_of_ne_nil hne
    have hleading : before ++ separator <+: piece ++ separator ++ rest :=
      ⟨after, htext.symm⟩
    have hpiece : piece ++ separator.dropLast <+: piece ++ separator ++ rest :=
      ((List.prefix_append_right_inj piece).mpr (List.dropLast_prefix separator)).trans
        (List.prefix_append _ rest)
    have hlength : (before ++ separator).length ≤ (piece ++ separator.dropLast).length := by
      rw [List.length_append, List.length_append, List.length_dropLast]
      omega
    exact (List.infix_append_right).trans
      (List.prefix_of_prefix_length_le hleading hpiece hlength).isInfix
  · rw [hsplit]
    rw [List.append_assoc, List.append_assoc] at htext
    obtain ⟨rfl, hrest⟩ := List.append_inj htext heq.symm
    rw [List.append_cancel_left hrest]

/-- What does not belong to the separator keeps its occurrences apart. -/
theorem infix_append_cons_iff {c : α} {front rest : List α} (hne : separator ≠ [])
    (hc : c ∉ separator) :
    separator <:+: front ++ c :: rest ↔ separator <:+: front ∨ separator <:+: rest := by
  have hcons : separator <:+: c :: rest ↔ separator <:+: rest := by
    refine ⟨fun h => (List.infix_cons_iff.mp h).resolve_left ?_, List.infix_cons⟩
    rintro ⟨other, hother⟩
    cases separator with
    | nil => exact hne rfl
    | cons d separator =>
      rw [← (List.cons_eq_cons.mp hother).1] at hc
      exact hc List.mem_cons_self
  constructor
  · intro h
    rcases List.infix_append_iff_ne_nil.mp h with h | h | ⟨_, right, -, hright, hparts, -, hleading⟩
    · exact Or.inl h
    · exact Or.inr (hcons.mp h)
    · refine absurd ?_ hc
      obtain ⟨d, right, rfl⟩ := List.exists_cons_of_ne_nil hright
      rw [hparts, (List.cons_prefix_cons.mp hleading).1]
      exact List.mem_append_right _ List.mem_cons_self
  · rintro (h | h)
    · exact List.infix_append_of_infix_left h
    · exact List.infix_append_of_infix_right (List.infix_cons h)

/-! ## All separators -/

theorem splitFrom_ne_nil (skip : ℕ) : splitFrom separator skip text ≠ [] := by
  induction text generalizing skip with
  | nil => cases skip <;> exact List.cons_ne_nil _ _
  | cons c text ih =>
    cases skip with
    | succ skip => exact ih skip
    | zero =>
      rw [splitFrom]
      split_ifs
      · exact List.cons_ne_nil _ _
      · exact fun h => ih 0 (List.modifyHead_eq_nil_iff.mp h)

/-- A separator makes two parts at least. -/
theorem two_le_length_splitAll (h : separator <:+: text) (hne : separator ≠ []) :
    2 ≤ (splitAll separator text).length := by
  rw [splitAll]
  induction text with
  | nil => exact absurd (List.infix_nil.mp h) hne
  | cons c text ih =>
    rw [splitFrom]
    by_cases hleading : separator.isPrefixOf (c :: text) = true
    · rw [if_pos hleading, List.length_cons]
      exact Nat.succ_le_succ (List.length_pos_of_ne_nil (splitFrom_ne_nil _))
    · rw [if_neg hleading, List.length_modifyHead]
      exact ih ((List.infix_cons_iff.mp h).resolve_left
        fun hpre => hleading (List.isPrefixOf_iff_prefix.mpr hpre))

theorem splitFrom_eq (skip : ℕ) :
    splitFrom separator skip text = splitAll separator (text.drop skip) := by
  induction text generalizing skip with
  | nil => cases skip <;> rfl
  | cons c text ih =>
    cases skip with
    | zero => rfl
    | succ skip => exact ih skip

/-- The first part stands before the first separator. -/
theorem splitAll_of_splitFirst (h : splitFirst separator text = some (before, after)) :
    splitAll separator text = before :: splitAll separator after := by
  induction text generalizing before with
  | nil => exact nomatch h
  | cons c text ih =>
    rw [splitFirst] at h
    rw [splitAll, splitFrom]
    split_ifs at h ⊢ with hleading
    · obtain ⟨rfl, rfl⟩ := Prod.mk.inj (Option.some.inj h)
      rw [splitFrom_eq]
    · obtain ⟨⟨front, rest⟩, hfront, heq⟩ := Option.map_eq_some_iff.mp h
      obtain ⟨rfl, rfl⟩ := Prod.mk.inj heq
      have hsplit := ih hfront
      rw [splitAll] at hsplit
      rw [hsplit, List.modifyHead_cons]

theorem splitAll_of_splitFirst_eq_none (h : splitFirst separator text = none) :
    splitAll separator text = [text] := by
  induction text with
  | nil => rfl
  | cons c text ih =>
    rw [splitFirst] at h
    rw [splitAll, splitFrom]
    split_ifs at h ⊢ with hleading
    have hsplit := ih (Option.map_eq_none_iff.mp h)
    rw [splitAll] at hsplit
    rw [hsplit, List.modifyHead_cons]

/-- What stands before the first separator has none. -/
theorem not_infix_of_splitFirst (hne : separator ≠ [])
    (h : splitFirst separator text = some (before, after)) : ¬separator <:+: before := by
  rintro ⟨front, rest, rfl⟩
  have htext := eq_append_of_splitFirst hne h
  rw [List.append_assoc (front ++ separator), List.append_assoc (front ++ separator)] at htext
  have hle := length_le_of_splitFirst h htext
  have hpos := List.length_pos_of_ne_nil hne
  simp only [List.length_append] at hle
  omega

end Separators
end Bitloops
