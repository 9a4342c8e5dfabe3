import Mathlib.Data.List.Sort

/-!
# Tables with an increasing sequence number

An `AUTOINCREMENT` table hands out strictly increasing sequence numbers, and a row keeps
its number for as long as it exists.  `SeqTable` carries both facts as fields: the rows are
stored in the order of their numbers, and no number exceeds the last one handed out.

* `insert` appends a row under a fresh number, `modify` rewrites rows in place and
  `delete` drops them;
* `find?_least` reads a query `ORDER BY sequence LIMIT 1`: the row it returns satisfies the
  predicate, and no row with a smaller number does.
-/

namespace Bitloops

variable {ρ : Type*} {key : ρ → ℕ}

/-- Rows in the order of their sequence numbers, with the last number handed out. -/
structure SeqTable (ρ : Type*) (key : ρ → ℕ) where
  rows : List ρ
  last : ℕ
  sorted : rows.Pairwise fun a b => key a < key b
  bounded : ∀ r ∈ rows, key r ≤ last

namespace SeqTable

/-- The table without rows. -/
def empty : SeqTable ρ key := ⟨[], 0, List.Pairwise.nil, by simp⟩

/-- Append the row that `mk` builds from the next sequence number. -/
def insert (t : SeqTable ρ key) (mk : ℕ → ρ) (hmk : ∀ n, key (mk n) = n) : SeqTable ρ key where
  rows := t.rows ++ [mk (t.last + 1)]
  last := t.last + 1
  sorted := by
    refine List.pairwise_append.mpr ⟨t.sorted, List.pairwise_singleton _ _, ?_⟩
    intro a ha b hb
    rw [List.mem_singleton.mp hb, hmk]
    exact Nat.lt_succ_of_le (t.bounded a ha)
  bounded := by
    intro r hr
    rcases List.mem_append.mp hr with h | h
    · exact (t.bounded r h).trans (Nat.le_succ _)
    · rw [List.mem_singleton.mp h, hmk]

/-- Rewrite every row in place, keeping its sequence number. -/
def modify (t : SeqTable ρ key) (f : ρ → ρ) (hf : ∀ r, key (f r) = key r) : SeqTable ρ key where
  rows := t.rows.map f
  last := t.last
  sorted := by
    refine List.pairwise_map.mpr (t.sorted.imp ?_)
    intro a b hab
    rwa [hf, hf]
  bounded := by
    intro r hr
    obtain ⟨r', hr', rfl⟩ := List.mem_map.mp hr
    rw [hf]
    exact t.bounded r' hr'

/-- Keep the rows that satisfy `p`. -/
def delete (t : SeqTable ρ key) (p : ρ → Bool) : SeqTable ρ key where
  rows := t.rows.filter p
  last := t.last
  sorted := t.sorted.filter p
  bounded := fun r hr => t.bounded r (List.mem_of_mem_filter hr)

@[simp] theorem rows_empty : (empty : SeqTable ρ key).rows = [] := rfl

@[simp] theorem rows_insert (t : SeqTable ρ key) (mk : ℕ → ρ) (hmk : ∀ n, key (mk n) = n) :
    (t.insert mk hmk).rows = t.rows ++ [mk (t.last + 1)] := rfl

@[simp] theorem rows_modify (t : SeqTable ρ key) (f : ρ → ρ) (hf : ∀ r, key (f r) = key r) :
    (t.modify f hf).rows = t.rows.map f := rfl

@[simp] theorem rows_delete (t : SeqTable ρ key) (p : ρ → Bool) :
    (t.delete p).rows = t.rows.filter p := rfl

theorem nodup_keys (t : SeqTable ρ key) : (t.rows.map key).Nodup :=
  List.pairwise_map.mpr (t.sorted.imp fun h => h.ne)

/-- Two rows with the same sequence number are the same row. -/
theorem eq_of_key_eq (t : SeqTable ρ key) {a b : ρ} (ha : a ∈ t.rows) (hb : b ∈ t.rows)
    (hab : key a = key b) : a = b :=
  List.inj_on_of_nodup_map t.nodup_keys ha hb hab

/-- `ORDER BY sequence LIMIT 1`: the row found satisfies the predicate, and every row with a
smaller sequence number does not. -/
theorem find?_least (t : SeqTable ρ key) {p : ρ → Bool} {r : ρ} (h : t.rows.find? p = some r) :
    r ∈ t.rows ∧ p r = true ∧ ∀ k ∈ t.rows, key k < key r → p k = false := by
  obtain ⟨hp, front, back, hrows, hfront⟩ := List.find?_eq_some_iff_append.mp h
  refine ⟨List.mem_of_find?_eq_some h, hp, ?_⟩
  intro k hk hlt
  have hsorted := t.sorted
  rw [hrows] at hk hsorted
  rcases List.mem_append.mp hk with hk | hk
  · simpa using hfront k hk
  · rcases List.mem_cons.mp hk with rfl | hk
    · exact absurd hlt (lt_irrefl _)
    · have htail := (List.pairwise_append.mp hsorted).2.1
      exact absurd hlt (List.rel_of_pairwise_cons htail hk).not_gt

end SeqTable
end Bitloops
