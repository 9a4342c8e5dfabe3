import Mathlib.Data.List.Nodup
import Bitloops.Foundation.KeyedTable

/-!
# Lists and maps in which the last entry wins

`dedupeLastWins key` keeps the last row with each key, in the order of the list.  `lastRow` is
the lookup in a hash map that was built by inserting the rows one after the other.  Deduplicating
a list does not change what is looked up in it.
-/

namespace Bitloops

variable {ρ κ : Type*} [DecidableEq κ] {key : ρ → κ}

/-- The rows without those that a later row with their key follows. -/
def dedupeLastWins (key : ρ → κ) : List ρ → List ρ
  | [] => []
  | r :: rows =>
    if key r ∈ rows.map key then dedupeLastWins key rows else r :: dedupeLastWins key rows

/-- The last row with the key. -/
def lastRow (key : ρ → κ) (k : κ) (rows : List ρ) : Option ρ := findRow key k rows.reverse

variable {rows : List ρ} {r : ρ} {k : κ}

theorem dedupeLastWins_sublist : (dedupeLastWins key rows).Sublist rows := by
  induction rows with
  | nil => exact List.Sublist.refl _
  | cons r rows ih =>
    rw [dedupeLastWins]
    split_ifs
    · exact ih.cons r
    · exact ih.cons_cons r

/-- Every key is kept. -/
theorem map_key_dedupeLastWins : k ∈ (dedupeLastWins key rows).map key ↔ k ∈ rows.map key := by
  induction rows with
  | nil => exact Iff.rfl
  | cons r rows ih =>
    rw [dedupeLastWins, List.map_cons, List.mem_cons]
    split_ifs with hlater
    · rw [ih]
      exact ⟨.inr, fun h => h.elim (fun heq => heq ▸ hlater) id⟩
    · rw [List.map_cons, List.mem_cons, ih]

theorem nodup_dedupeLastWins : ((dedupeLastWins key rows).map key).Nodup := by
  induction rows with
  | nil => exact List.nodup_nil
  | cons r rows ih =>
    rw [dedupeLastWins]
    split_ifs with hlater
    · exact ih
    · rw [List.map_cons, List.nodup_cons]
      exact ⟨fun h => hlater (map_key_dedupeLastWins.mp h), ih⟩

theorem dedupeLastWins_of_nodup (h : (rows.map key).Nodup) : dedupeLastWins key rows = rows := by
  induction rows with
  | nil => rfl
  | cons r rows ih =>
    rw [List.map_cons, List.nodup_cons] at h
    rw [dedupeLastWins, if_neg h.1, ih h.2]

@[simp] theorem lastRow_nil : lastRow key k ([] : List ρ) = none := rfl

theorem lastRow_cons : lastRow key k (r :: rows) =
    (lastRow key k rows).or (if key r = k then some r else none) := by
  rw [lastRow, findRow, List.reverse_cons, List.find?_append, lastRow, findRow]
  by_cases hr : key r = k
  · rw [if_pos hr, List.find?_cons_of_pos (by simpa using hr)]
  · rw [if_neg hr, List.find?_cons_of_neg (by simpa using hr), List.find?_nil]

theorem lastRow_eq_none : lastRow key k rows = none ↔ k ∉ rows.map key := by
  simp [lastRow, findRow, List.find?_eq_none]

theorem mem_of_lastRow (h : lastRow key k rows = some r) : r ∈ rows ∧ key r = k := by
  refine ⟨List.mem_reverse.mp (List.mem_of_find?_eq_some h), ?_⟩
  simpa using List.find?_some h

/-- The lookup in a list of mapped rows is the one in the list itself. -/
theorem lastRow_map {σ κ' : Type*} [DecidableEq κ'] {f : σ → ρ} {key' : σ → κ'} {k' : κ'}
    {rows : List σ} (hkey : ∀ r, key (f r) = k ↔ key' r = k') :
    lastRow key k (rows.map f) = (lastRow key' k' rows).map f := by
  induction rows with
  | nil => rfl
  | cons r rows ih =>
    rw [List.map_cons, lastRow_cons, lastRow_cons, ih]
    by_cases hr : key' r = k'
    · rw [if_pos hr, if_pos ((hkey r).mpr hr)]
      cases lastRow key' k' rows <;> rfl
    · rw [if_neg hr, if_neg fun h => hr ((hkey r).mp h)]
      cases lastRow key' k' rows <;> rfl

/-- Nothing that is looked up changes. -/
theorem lastRow_dedupeLastWins : lastRow key k (dedupeLastWins key rows) = lastRow key k rows := by
  induction rows with
  | nil => rfl
  | cons r rows ih =>
    rw [dedupeLastWins, lastRow_cons]
    split_ifs with hlater hr hr
    · -- the later row with the key is the one that is found
      rw [ih]
      cases hfound : lastRow key k rows with
      | some found => rfl
      | none => exact absurd (hr ▸ hlater) (lastRow_eq_none.mp hfound)
    · rw [ih, Option.or_none]
    · rw [lastRow_cons, ih, if_pos hr]
    · rw [lastRow_cons, ih, if_neg hr]

end Bitloops
