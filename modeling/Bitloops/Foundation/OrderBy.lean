import Mathlib.Data.List.Dedup
import Mathlib.Data.List.Sort
import Mathlib.Data.Prod.Lex
import Mathlib.Data.String.Basic

/-!
# Ordered queries and sorted sets of keys

`orderBy key` is the list model of `ORDER BY key`: a stable sort of the rows by a key in a
linear order.  `sortDedup` is the list model of `sort` followed by `dedup` on a vector.
-/

namespace Bitloops

variable {ρ κ : Type*} [LinearOrder κ]

/-- The rows in ascending order of their keys; rows with equal keys keep their order. -/
def orderBy (key : ρ → κ) (rows : List ρ) : List ρ :=
  rows.insertionSort fun a b => key a ≤ key b

@[simp] theorem mem_orderBy {key : ρ → κ} {rows : List ρ} {r : ρ} :
    r ∈ orderBy key rows ↔ r ∈ rows :=
  List.mem_insertionSort _

theorem perm_orderBy (key : ρ → κ) (rows : List ρ) : (orderBy key rows).Perm rows :=
  List.perm_insertionSort _ rows

theorem pairwise_orderBy (key : ρ → κ) (rows : List ρ) :
    (orderBy key rows).Pairwise fun a b => key a ≤ key b := by
  have : Std.Total fun a b : ρ => key a ≤ key b := ⟨fun a b => le_total (key a) (key b)⟩
  have : IsTrans ρ fun a b => key a ≤ key b := ⟨fun _ _ _ => le_trans⟩
  exact List.pairwise_insertionSort _ rows

/-- The order looks at the keys of the rows alone. -/
theorem orderBy_congr {key key' : ρ → κ} {rows : List ρ} (h : ∀ r ∈ rows, key r = key' r) :
    orderBy key rows = orderBy key' rows := by
  have hinsert : ∀ (r : ρ) (l : List ρ), key r = key' r → (∀ s ∈ l, key s = key' s) →
      l.orderedInsert (fun a b => key a ≤ key b) r =
        l.orderedInsert (fun a b => key' a ≤ key' b) r := by
    intro r l hr hl
    induction l with
    | nil => rfl
    | cons s l ih =>
      obtain ⟨hs, hl⟩ := List.forall_mem_cons.mp hl
      rw [List.orderedInsert_cons, List.orderedInsert_cons, hr, hs, ih hl]
  induction rows with
  | nil => rfl
  | cons r rows ih =>
    obtain ⟨hr, hrows⟩ := List.forall_mem_cons.mp h
    have hcons : ∀ k : ρ → κ, orderBy k (r :: rows) =
        (orderBy k rows).orderedInsert (fun a b => k a ≤ k b) r := fun _ => rfl
    rw [hcons, hcons, ← ih hrows]
    exact hinsert r _ hr fun s hs => hrows s (mem_orderBy.mp hs)

/-- Two ordered lists of the same rows are one when the keys tell the rows apart. -/
theorem eq_of_pairwise_key {key : ρ → κ} {l l' : List ρ}
    (hl : l.Pairwise fun a b => key a ≤ key b) (hl' : l'.Pairwise fun a b => key a ≤ key b)
    (hnodup : (l.map key).Nodup) (hnodup' : (l'.map key).Nodup)
    (hmem : ∀ r, r ∈ l ↔ r ∈ l') : l = l' := by
  have hperm : l.Perm l' :=
    (List.perm_ext_iff_of_nodup (List.Nodup.of_map key hnodup)
      (List.Nodup.of_map key hnodup')).mpr hmem
  refine hperm.eq_of_pairwise (fun a b ha hb hab hba => ?_) hl hl'
  exact List.inj_on_of_nodup_map hnodup ha ((hmem b).mpr hb) (le_antisymm hab hba)

/-- `ORDER BY key LIMIT 1`: the first row has the least key. -/
theorem orderBy_head? {key : ρ → κ} {rows : List ρ} {r : ρ}
    (h : (orderBy key rows).head? = some r) : r ∈ rows ∧ ∀ k ∈ rows, key r ≤ key k := by
  cases hrows : orderBy key rows with
  | nil => simp [hrows] at h
  | cons first rest =>
    have hsorted := pairwise_orderBy key rows
    rw [hrows, List.head?_cons, Option.some.injEq] at h
    rw [hrows] at hsorted
    subst h
    refine ⟨mem_orderBy.mp (hrows ▸ List.mem_cons_self), fun k hk => ?_⟩
    rcases List.mem_cons.mp (hrows ▸ mem_orderBy.mpr hk) with rfl | hk
    · exact le_refl _
    · exact List.rel_of_pairwise_cons hsorted hk

/-- The query returns no row exactly when there is none. -/
theorem orderBy_head?_eq_none {key : ρ → κ} {rows : List ρ} :
    (orderBy key rows).head? = none ↔ rows = [] := by
  rw [List.head?_eq_none_iff]
  constructor
  · intro h
    exact List.Perm.eq_nil (h ▸ (perm_orderBy key rows).symm)
  · rintro rfl
    rfl

/-- The last row in the order has the greatest key. -/
theorem orderBy_getLast? {key : ρ → κ} {rows : List ρ} {r : ρ}
    (h : (orderBy key rows).getLast? = some r) : r ∈ rows ∧ ∀ k ∈ rows, key k ≤ key r := by
  obtain ⟨front, hrows⟩ := List.getLast?_eq_some_iff.mp h
  have hsorted := pairwise_orderBy key rows
  rw [hrows] at hsorted
  refine ⟨mem_orderBy.mp (hrows ▸ List.mem_concat_self), fun k hk => ?_⟩
  have hk' : k ∈ front ++ [r] := hrows ▸ mem_orderBy.mpr hk
  rcases List.mem_append.mp hk' with hk | hk
  · exact (List.pairwise_append.mp hsorted).2.2 k hk r List.mem_cons_self
  · rw [List.mem_singleton.mp hk]

/-- A map under which the rows keep their order commutes with the query. -/
theorem orderBy_map {σ κ' : Type*} [LinearOrder κ'] {f : σ → ρ} {key : ρ → κ} {key' : σ → κ'}
    {rows : List σ} (hkey : ∀ a b, key (f a) ≤ key (f b) ↔ key' a ≤ key' b) :
    orderBy key (rows.map f) = (orderBy key' rows).map f := by
  rw [orderBy, orderBy]
  exact (List.map_insertionSort _ _ f rows fun a _ b _ => (hkey a b).symm).symm

/-- Stability: the rows with one key keep their order. -/
theorem filter_orderBy {key : ρ → κ} {rows : List ρ} (k : κ) :
    (orderBy key rows).filter (fun r => decide (key r = k)) =
      rows.filter fun r => decide (key r = k) := by
  have hinsert (r : ρ) (l : List ρ) :
      (l.orderedInsert (fun a b => key a ≤ key b) r).filter (fun r => decide (key r = k)) =
        (r :: l).filter fun r => decide (key r = k) := by
    induction l with
    | nil => rfl
    | cons b l ih =>
      rw [List.orderedInsert_cons]
      split_ifs with hle
      · rfl
      · rw [List.filter_cons, ih, List.filter_cons, List.filter_cons, List.filter_cons]
        by_cases hr : key r = k
        · -- the rows that are passed over have smaller keys
          have hb : key b ≠ k := fun hb => hle (hr.trans hb.symm).le
          simp [hr, hb]
        · simp [hr]
  induction rows with
  | nil => rfl
  | cons r rows ih =>
    rw [orderBy, List.insertionSort_cons, hinsert, List.filter_cons, List.filter_cons, ← ih,
      orderBy]

/-- Rows that agree wherever their keys do come back in one order. -/
theorem orderBy_eq_of_perm {key : ρ → κ} {rows rows' : List ρ} (hperm : rows.Perm rows')
    (hkey : ∀ r ∈ rows, ∀ r' ∈ rows, key r = key r' → r = r') :
    orderBy key rows = orderBy key rows' := by
  have hsorted := ((perm_orderBy key rows).trans hperm).trans (perm_orderBy key rows').symm
  refine hsorted.eq_of_pairwise (fun a b ha hb hab hba => ?_) (pairwise_orderBy key rows)
    (pairwise_orderBy key rows')
  exact hkey a (mem_orderBy.mp ha) b (hperm.mem_iff.mpr (mem_orderBy.mp hb)) (le_antisymm hab hba)

/-- The first row of the list is the first of those with its key. -/
theorem eq_of_orderBy_cons {key : ρ → κ} {rows rows' : List ρ} {r r' : ρ}
    (h : orderBy key (r :: rows) = orderBy key (r' :: rows')) (hkey : key r = key r') : r = r' := by
  have hfilter : (r :: rows).filter (fun x => decide (key x = key r)) =
      (r' :: rows').filter fun x => decide (key x = key r) := by
    rw [← filter_orderBy (key r), h]
    exact filter_orderBy (key r)
  rw [List.filter_cons_of_pos (by simp), List.filter_cons_of_pos (by simp [hkey])] at hfilter
  exact (List.cons_eq_cons.mp hfilter).1

/-- A sorted list begins with the rows that have the least key. -/
theorem eq_filter_append_of_pairwise {key : ρ → ℕ} {first : ℕ} {l : List ρ}
    (hsorted : l.Pairwise fun a b => key a ≤ key b) (hfirst : ∀ r ∈ l, first ≤ key r) :
    l = l.filter (fun r => key r = first) ++ l.filter (fun r => first < key r) := by
  induction l with
  | nil => rfl
  | cons r l ih =>
    have htail := ih hsorted.of_cons fun r hr => hfirst r (List.mem_cons_of_mem _ hr)
    by_cases hr : key r = first
    · rw [List.filter_cons_of_pos (by simpa using hr), List.filter_cons_of_neg (by simp [hr]),
        List.cons_append, ← htail]
    · have hlt : first < key r := lt_of_le_of_ne (hfirst r List.mem_cons_self) (Ne.symm hr)
      have hnone : l.filter (fun r => key r = first) = [] := by
        refine List.filter_eq_nil_iff.mpr fun r' hr' => ?_
        have hle := List.rel_of_pairwise_cons hsorted hr'
        simp only [decide_eq_true_eq]
        omega
      rw [hnone, List.nil_append] at htail
      rw [List.filter_cons_of_neg (by simpa using hr), hnone, List.nil_append,
        List.filter_cons_of_pos (by simpa using hlt), ← htail]

/-- The rows of a sorted list, one key after the other. -/
theorem eq_flatMap_of_pairwise {key : ρ → ℕ} {count first : ℕ} {l : List ρ}
    (hsorted : l.Pairwise fun a b => key a ≤ key b)
    (hkeys : ∀ r ∈ l, first ≤ key r ∧ key r < first + count) :
    l = (List.range' first count).flatMap fun k => l.filter fun r => key r = k := by
  induction count generalizing first l with
  | zero =>
    cases l with
    | nil => rfl
    | cons r l =>
      have := hkeys r List.mem_cons_self
      omega
  | succ count ih =>
    have hrest : l.filter (fun r => first < key r) =
        (List.range' (first + 1) count).flatMap fun k =>
          (l.filter fun r => first < key r).filter fun r => key r = k := by
      refine ih (hsorted.filter _) fun r hr => ?_
      obtain ⟨hr, hlt⟩ := List.mem_filter.mp hr
      have := hkeys r hr
      simp only [decide_eq_true_eq] at hlt
      omega
    rw [List.range'_succ, List.flatMap_cons]
    conv_lhs => rw [eq_filter_append_of_pairwise hsorted fun r hr => (hkeys r hr).1, hrest]
    congr 1
    refine List.flatMap_congr fun k hk => ?_
    have hk := (List.mem_range'_1.mp hk).1
    rw [List.filter_filter]
    refine List.filter_congr fun r _ => ?_
    by_cases hr : key r = k
    · have hlt : first < key r := by omega
      rw [hr] at hlt
      simp [hr, hlt]
    · simp [hr]

/-- The query, one key after the other. -/
theorem orderBy_eq_flatMap {key : ρ → ℕ} {count first : ℕ} {rows : List ρ}
    (hkeys : ∀ r ∈ rows, first ≤ key r ∧ key r < first + count) :
    orderBy key rows =
      (List.range' first count).flatMap fun k => rows.filter fun r => key r = k := by
  have h := eq_flatMap_of_pairwise (pairwise_orderBy key rows)
    fun r hr => hkeys r (mem_orderBy.mp hr)
  simp only [filter_orderBy] at h
  exact h

@[simp] theorem orderBy_singleton (key : ρ → κ) (r : ρ) : orderBy key [r] = [r] := rfl

/-- `sort` and `dedup`: on a sorted list, dropping repetitions of the preceding entry drops
every repetition. -/
def sortDedup (l : List κ) : List κ := (l.insertionSort (· ≤ ·)).dedup

@[simp] theorem mem_sortDedup {l : List κ} {x : κ} : x ∈ sortDedup l ↔ x ∈ l := by
  simp [sortDedup]

/-- Different numbers without a gap below any of them are the first ones. -/
theorem perm_range_of_noGap {l : List ℕ} (hnodup : l.Nodup)
    (hnoGap : ∀ n ∈ l, ∀ i < n, i ∈ l) : l.Perm (List.range l.length) := by
  have hsub : l ⊆ List.range l.length := by
    intro n hn
    have hbelow : List.range (n + 1) ⊆ l := by
      intro i hi
      rcases Nat.lt_or_eq_of_le (Nat.lt_succ_iff.mp (List.mem_range.mp hi)) with hlt | rfl
      · exact hnoGap n hn i hlt
      · exact hn
    have hlength := (List.subperm_of_subset List.nodup_range hbelow).length_le
    rw [List.length_range] at hlength
    exact List.mem_range.mpr hlength
  exact (List.subperm_of_subset hnodup hsub).perm_of_length_le (by rw [List.length_range])

end Bitloops
