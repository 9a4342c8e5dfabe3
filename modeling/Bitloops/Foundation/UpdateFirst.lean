import Mathlib.Data.List.Basic

/-!
# Updating the first row that satisfies a predicate

`updateFirst? p f` is `iter_mut().find(p)` followed by an assignment: it rewrites the first
row that satisfies `p`, and returns the new rows with the rewritten one.
-/

namespace Bitloops

variable {ρ : Type*} {p : ρ → Bool} {f : ρ → ρ} {rows rows' : List ρ} {r' : ρ}

/-- Rewrite the first row that satisfies `p`; `none` if there is no such row. -/
def updateFirst? (p : ρ → Bool) (f : ρ → ρ) : List ρ → Option (List ρ × ρ)
  | [] => none
  | r :: rows =>
    if p r then some (f r :: rows, f r)
    else (updateFirst? p f rows).map fun found => (r :: found.1, found.2)

/-- The rewritten row is the first one that satisfies `p`. -/
theorem updateFirst?_eq_some (h : updateFirst? p f rows = some (rows', r')) :
    ∃ front r back, rows = front ++ r :: back ∧ rows.find? p = some r ∧
      rows' = front ++ f r :: back ∧ r' = f r := by
  induction rows generalizing rows' with
  | nil => cases h
  | cons r rows ih =>
    rw [updateFirst?] at h
    split_ifs at h with hp
    · obtain ⟨rfl, rfl⟩ := Prod.mk.inj (Option.some.inj h)
      exact ⟨[], r, rows, rfl, List.find?_cons_of_pos hp, rfl, rfl⟩
    · obtain ⟨⟨found, r''⟩, hfound, heq⟩ := Option.map_eq_some_iff.mp h
      obtain ⟨rfl, rfl⟩ := Prod.mk.inj heq
      obtain ⟨front, x, back, rfl, hx, rfl, rfl⟩ := ih hfound
      exact ⟨r :: front, x, back, rfl, (List.find?_cons_of_neg hp).trans hx, rfl, rfl⟩

theorem updateFirst?_eq_none : updateFirst? p f rows = none ↔ rows.find? p = none := by
  induction rows with
  | nil => simp [updateFirst?]
  | cons r rows ih => by_cases hp : p r = true <;> simp [updateFirst?, hp, ih]

/-- The row that is rewritten, and where the other rows of the result come from. -/
theorem mem_of_updateFirst? (h : updateFirst? p f rows = some (rows', r')) :
    ∃ r ∈ rows, rows.find? p = some r ∧ p r = true ∧ r' = f r ∧ r' ∈ rows' ∧
      (∀ x ∈ rows', x ∈ rows ∨ x = r') ∧ ∀ x ∈ rows, x ∈ rows' ∨ x = r := by
  obtain ⟨front, r, back, rfl, hfind, rfl, rfl⟩ := updateFirst?_eq_some h
  refine ⟨r, by simp, hfind, List.find?_some hfind, rfl, by simp, fun x hx => ?_, fun x hx => ?_⟩
  · rcases List.mem_append.mp hx with hx | hx
    · exact .inl (List.mem_append_left _ hx)
    · rcases List.mem_cons.mp hx with rfl | hx
      · exact .inr rfl
      · exact .inl (List.mem_append_right _ (List.mem_cons_of_mem _ hx))
  · rcases List.mem_append.mp hx with hx | hx
    · exact .inl (List.mem_append_left _ hx)
    · rcases List.mem_cons.mp hx with rfl | hx
      · exact .inr rfl
      · exact .inl (List.mem_append_right _ (List.mem_cons_of_mem _ hx))

/-- Rewriting rows without changing their keys keeps the keys of the table. -/
theorem map_key_updateFirst? {κ : Type*} {key : ρ → κ} (hf : ∀ r, key (f r) = key r)
    (h : updateFirst? p f rows = some (rows', r')) : rows'.map key = rows.map key := by
  obtain ⟨front, r, back, rfl, -, rfl, -⟩ := updateFirst?_eq_some h
  simp [hf]

end Bitloops
