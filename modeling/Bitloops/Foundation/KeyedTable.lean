import Mathlib.Data.List.Nodup

/-!
# Rows found by their key

A table with a primary key is a list of rows: `findRow key k` is `SELECT … WHERE key = k`
and `updateAt key k f` is `UPDATE … WHERE key = k`.  An update that keeps the keys changes
the row found under its own key and no other.
-/

namespace Bitloops

variable {ρ κ : Type*} [DecidableEq κ] {key : ρ → κ} {k k' : κ} {f : ρ → ρ} {rows : List ρ}

/-- The row with the key. -/
def findRow (key : ρ → κ) (k : κ) (rows : List ρ) : Option ρ :=
  rows.find? fun r => key r = k

/-- Rewrite the rows with the key. -/
def updateAt (key : ρ → κ) (k : κ) (f : ρ → ρ) (rows : List ρ) : List ρ :=
  rows.map fun r => if key r = k then f r else r

theorem mem_of_findRow {r : ρ} (h : findRow key k rows = some r) : r ∈ rows ∧ key r = k :=
  ⟨List.mem_of_find?_eq_some h, by simpa using List.find?_some h⟩

theorem ne_of_findRow_none {r : ρ} (h : findRow key k rows = none) (hr : r ∈ rows) : key r ≠ k :=
  fun hk => absurd (List.find?_eq_none.mp h r hr) (by simpa using hk)

/-- A rewriting that keeps the keys reaches the row that is found. -/
theorem findRow_map (hf : ∀ r, key (f r) = key r) :
    findRow key k (rows.map f) = (findRow key k rows).map f := by
  induction rows with
  | nil => rfl
  | cons r rows ih =>
    by_cases hr : key r = k
    · simp [findRow, hr, hf]
    · simpa [findRow, hr, hf] using ih

theorem findRow_updateAt_self (hf : ∀ r, key (f r) = key r) :
    findRow key k (updateAt key k f rows) = (findRow key k rows).map f := by
  induction rows with
  | nil => rfl
  | cons r rows ih =>
    by_cases hr : key r = k
    · simp [findRow, updateAt, hr, hf]
    · simpa [findRow, updateAt, hr] using ih

theorem findRow_updateAt_of_ne (hf : ∀ r, key (f r) = key r) (hk : k' ≠ k) :
    findRow key k' (updateAt key k f rows) = findRow key k' rows := by
  induction rows with
  | nil => rfl
  | cons r rows ih =>
    by_cases hr : key r = k
    · have hne : key r ≠ k' := fun h => hk (h.symm.trans hr)
      simpa [findRow, updateAt, hr, hf, hk.symm, hne] using ih
    · by_cases hr' : key r = k'
      · simp [findRow, updateAt, hr', hk]
      · simpa [findRow, updateAt, hr, hr'] using ih

/-- An update that `g` does not see leaves every `g` of a found row unchanged. -/
theorem map_findRow_updateAt {β : Type*} {g : ρ → β} (hf : ∀ r, key (f r) = key r)
    (hg : ∀ r, g (f r) = g r) :
    (findRow key k' (updateAt key k f rows)).map g = (findRow key k' rows).map g := by
  by_cases hk : k' = k
  · subst hk
    rw [findRow_updateAt_self hf, Option.map_map]
    congr 1
    exact funext hg
  · rw [findRow_updateAt_of_ne hf hk]

theorem findRow_append_singleton {r : ρ} (hr : findRow key (key r) rows = none) :
    findRow key k' (rows ++ [r]) = if k' = key r then some r else findRow key k' rows := by
  by_cases hk : k' = key r
  · subst hk
    rw [findRow] at hr
    simp [findRow, List.find?_append, hr]
  · have : key r ≠ k' := fun h => hk h.symm
    simp [findRow, List.find?_append, hk, this]

end Bitloops
