import Mathlib.Data.List.Basic

/-!
# Terminated records and separated fields

A text of records, each followed by a separator, is read back by splitting it at the separator
and leaving out what is empty.  The fields of a record are separated in the same way by any
character of a class, such as white space.
-/

namespace Bitloops

variable {α : Type*}

/-- The non-empty parts between the characters that satisfy `p`. -/
def fields (p : α → Bool) (text : List α) : List (List α) :=
  (text.splitOnP p).filter fun part => !part.isEmpty

/-- The text before the first separator, and the text after it. -/
def splitOnce [DecidableEq α] (separator : α) (text : List α) : Option (List α × List α) :=
  match text.dropWhile (· ≠ separator) with
  | [] => none
  | _ :: rest => some (text.takeWhile (· ≠ separator), rest)

/-- A condition on the characters of a text is decided by going through the text. -/
instance (priority := high) decidableForallMemChar {P : Char → Prop} [DecidablePred P]
    (text : List Char) : Decidable (∀ c ∈ text, P c) := List.decidableBAll P text

variable {p : α → Bool} {field rest : List α} {separator : α}

theorem fields_cons (hfield : ∀ c ∈ field, p c = false) (hne : field ≠ [])
    (hseparator : p separator = true) :
    fields p (field ++ separator :: rest) = field :: fields p rest := by
  have hsplit : (field ++ separator :: rest).splitOnP p = field :: rest.splitOnP p :=
    List.splitOnP_append_cons_of_forall_mem hfield separator hseparator rest
  have hempty : field.isEmpty = false := by simpa using hne
  rw [fields, hsplit, List.filter_cons_of_pos (by simp [hempty]), fields]

theorem fields_last (hfield : ∀ c ∈ field, p c = false) (hne : field ≠ []) :
    fields p field = [field] := by
  have hsplit : field.splitOnP p = [field] :=
    List.splitOnP_eq_singleton hfield
  have hempty : field.isEmpty = false := by simpa using hne
  rw [fields, hsplit, List.filter_cons_of_pos (by simp [hempty]), List.filter_nil]

theorem fields_nil : fields p [] = [] := rfl

/-- No part has a separator in it. -/
theorem separator_notMem_splitOnP {text part : List α} (h : part ∈ text.splitOnP p) :
    ∀ c ∈ part, p c = false := by
  induction text generalizing part with
  | nil =>
    intro c hc
    rw [List.splitOnP_nil, List.mem_singleton] at h
    rw [h] at hc
    exact absurd hc List.not_mem_nil
  | cons x text ih =>
    intro c hc
    rw [List.splitOnP_cons_eq_if_modifyHead] at h
    split_ifs at h with hx
    · rcases List.mem_cons.mp h with rfl | h
      · exact absurd hc List.not_mem_nil
      · exact ih h c hc
    · cases hsplit : text.splitOnP p with
      | nil => exact absurd hsplit (List.splitOnP_ne_nil p text)
      | cons first others =>
        rw [hsplit, List.modifyHead_cons] at h
        rw [hsplit] at ih
        rcases List.mem_cons.mp h with rfl | h
        · rcases List.mem_cons.mp hc with rfl | hc
          · exact Bool.eq_false_iff.mpr hx
          · exact ih List.mem_cons_self c hc
        · exact ih (List.mem_cons_of_mem _ h) c hc

/-- No field has a separator in it. -/
theorem separator_notMem_fields {text part : List α} (h : part ∈ fields p text) :
    ∀ c ∈ part, p c = false := separator_notMem_splitOnP (List.mem_of_mem_filter h)

/-- A separator parts the fields before it from those after it. -/
theorem fields_append (text : List α) (hseparator : p separator = true) :
    fields p (text ++ separator :: rest) = fields p text ++ fields p rest := by
  rw [fields, List.splitOnP_append_cons text rest hseparator, List.filter_append, fields, fields]

/-- Separators at the front make no difference. -/
theorem fields_dropWhile (text : List α) : fields p (text.dropWhile p) = fields p text := by
  induction text with
  | nil => rfl
  | cons c text ih =>
    by_cases hc : p c = true
    · rw [List.dropWhile_cons_of_pos hc, ih]
      have happend : fields p ([] ++ c :: text) = fields p [] ++ fields p text :=
        fields_append [] hc
      exact happend.symm
    · rw [List.dropWhile_cons_of_neg hc]

/-- Terminated records are read back. -/
theorem fields_flatMap {records : List (List α)} (hseparator : p separator = true)
    (hrecords : ∀ record ∈ records, record ≠ [] ∧ ∀ c ∈ record, p c = false) :
    fields p (records.flatMap fun record => record ++ [separator]) = records := by
  induction records with
  | nil => rfl
  | cons record records ih =>
    obtain ⟨hne, hfree⟩ := hrecords record List.mem_cons_self
    rw [List.flatMap_cons, List.append_assoc, List.singleton_append,
      fields_cons hfree hne hseparator,
      ih fun other hother => hrecords other (List.mem_cons_of_mem _ hother)]

theorem splitOnce_eq_none [DecidableEq α] (h : separator ∉ field) :
    splitOnce separator field = none := by
  have hall : ∀ c ∈ field, decide (c ≠ separator) = true :=
    fun c hc => decide_eq_true fun heq => h (heq ▸ hc)
  have hdrop : field.dropWhile (· ≠ separator) = [] := by
    have happend : (field ++ []).dropWhile (· ≠ separator) = _ := List.dropWhile_append_of_pos hall
    rwa [List.append_nil] at happend
  rw [splitOnce, hdrop]

theorem splitOnce_append [DecidableEq α] (hfield : separator ∉ field) :
    splitOnce separator (field ++ separator :: rest) = some (field, rest) := by
  have hall : ∀ c ∈ field, decide (c ≠ separator) = true :=
    fun c hc => decide_eq_true fun h => hfield (h ▸ hc)
  have hdrop : (field ++ separator :: rest).dropWhile (· ≠ separator) = separator :: rest := by
    rw [List.dropWhile_append_of_pos hall, List.dropWhile_cons_of_neg (by simp)]
  have htake : (field ++ separator :: rest).takeWhile (· ≠ separator) = field := by
    rw [List.takeWhile_append_of_pos hall, List.takeWhile_cons_of_neg (by simp), List.append_nil]
  rw [splitOnce, hdrop, htake]

end Bitloops
