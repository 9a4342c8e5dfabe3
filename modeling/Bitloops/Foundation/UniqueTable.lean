import Mathlib.Data.List.Nodup
import Bitloops.Foundation.KeyedTable

/-!
# Tables with a primary key

`UniqueTable` carries the `PRIMARY KEY` constraint as a field: no two rows have the same key.
`insert?` is an `INSERT`, which the constraint may reject; `modify` is an `UPDATE` of the rows
that satisfy a condition, and `delete` is a `DELETE`.  An update or a deletion of the rows with
a given key concerns at most one row.  `upsert` is an `INSERT … ON CONFLICT DO UPDATE` of every
column, and `project` is a query whose rows keep the keys apart.
-/

namespace Bitloops

variable {ρ κ : Type*} {key : ρ → κ}

/-- Rows with pairwise different keys. -/
structure UniqueTable (ρ : Type*) {κ : Type*} (key : ρ → κ) where
  rows : List ρ
  unique : (rows.map key).Nodup

namespace UniqueTable

/-- The table without rows. -/
def empty : UniqueTable ρ key := ⟨[], List.nodup_nil⟩

/-- Append a row; `none` if its key is in use. -/
def insert? [DecidableEq κ] (t : UniqueTable ρ key) (r : ρ) : Option (UniqueTable ρ key) :=
  if h : key r ∉ t.rows.map key then
    some
      { rows := t.rows ++ [r]
        unique := by
          rw [List.map_append]
          refine List.nodup_append.mpr ⟨t.unique, List.nodup_singleton _, ?_⟩
          rintro k hk _ (_ | ⟨_, ⟨⟩⟩) rfl
          exact h hk }
  else none

/-- Append the rows one after the other. -/
def insertAll? [DecidableEq κ] : List ρ → UniqueTable ρ key → Option (UniqueTable ρ key)
  | [], t => some t
  | r :: rows, t => (t.insert? r).bind (insertAll? rows)

/-- Rewrite the rows that satisfy `p`, keeping their keys. -/
def modify (t : UniqueTable ρ key) (p : ρ → Bool) (f : ρ → ρ) (hf : ∀ r, key (f r) = key r) :
    UniqueTable ρ key where
  rows := t.rows.map fun r => if p r then f r else r
  unique := by
    have hkeys : (t.rows.map fun r => if p r then f r else r).map key = t.rows.map key := by
      rw [List.map_map]
      refine List.map_congr_left fun r _ => ?_
      simp only [Function.comp_apply]
      split_ifs
      · exact hf r
      · rfl
    rw [hkeys]
    exact t.unique

/-- Drop the rows that satisfy `p`. -/
def delete (t : UniqueTable ρ key) (p : ρ → Bool) : UniqueTable ρ key where
  rows := t.rows.filter fun r => !p r
  unique := t.unique.sublist (List.filter_sublist.map key)

/-- Put the row in the place of the row with its key, or append it. -/
def upsert [DecidableEq κ] (t : UniqueTable ρ key) (r : ρ) : UniqueTable ρ key :=
  if h : key r ∈ t.rows.map key then
    { rows := t.rows.map fun x => if key x = key r then r else x
      unique := by
        have hkeys : (t.rows.map fun x => if key x = key r then r else x).map key =
            t.rows.map key := by
          rw [List.map_map]
          refine List.map_congr_left fun x _ => ?_
          simp only [Function.comp_apply]
          split_ifs with hx
          · exact hx.symm
          · rfl
        rw [hkeys]
        exact t.unique }
  else
    { rows := t.rows ++ [r]
      unique := by
        rw [List.map_append]
        refine List.nodup_append.mpr ⟨t.unique, List.nodup_singleton _, ?_⟩
        rintro k hk _ (_ | ⟨_, ⟨⟩⟩) rfl
        exact h hk }

/-- Merge the row with the row that has its key, or append it: `INSERT … ON CONFLICT DO UPDATE`. -/
def upsertMerged [DecidableEq κ] (t : UniqueTable ρ key) (merge : ρ → ρ → ρ) (excluded : ρ) :
    UniqueTable ρ key :=
  t.upsert (((findRow key (key excluded) t.rows).map fun old => merge old excluded).getD excluded)

/-- Append the row unless its key is in use: `INSERT OR IGNORE`. -/
def insertOrIgnore [DecidableEq κ] (t : UniqueTable ρ key) (r : ρ) : UniqueTable ρ key :=
  (t.insert? r).getD t

/-- The rows that `f` computes, when it keeps rows with different keys apart. -/
def project {σ κ' : Type*} {key' : σ → κ'} (t : UniqueTable ρ key) (f : ρ → Option σ)
    (hf : ∀ r r' s s', f r = some s → f r' = some s' → key' s = key' s' → key r = key r') :
    UniqueTable σ key' where
  rows := t.rows.filterMap f
  unique := by
    rw [List.Nodup, List.pairwise_map, List.pairwise_filterMap]
    refine (List.pairwise_map.mp t.unique).imp ?_
    intro r r' hne s hs s' hs' heq
    exact hne (hf r r' s s' hs hs' heq)

variable {t t' : UniqueTable ρ key} {p : ρ → Bool} {f : ρ → ρ} {hf : ∀ r, key (f r) = key r}
  {r r' : ρ}

@[simp] theorem rows_empty : (empty : UniqueTable ρ key).rows = [] := rfl

theorem insert?_eq_some [DecidableEq κ] :
    t.insert? r = some t' ↔ key r ∉ t.rows.map key ∧ t'.rows = t.rows ++ [r] := by
  unfold insert?
  constructor
  · intro h
    split at h
    · rename_i hnew
      cases h
      exact ⟨hnew, rfl⟩
    · cases h
  · rintro ⟨hnew, hrows⟩
    obtain ⟨rows, hunique⟩ := t'
    obtain rfl := hrows
    rw [dif_pos hnew]

theorem insertAll?_eq_some [DecidableEq κ] {rows : List ρ} (h : insertAll? rows t = some t') :
    t'.rows = t.rows ++ rows := by
  induction rows generalizing t with
  | nil =>
    cases h
    exact (List.append_nil _).symm
  | cons r rows ih =>
    rw [insertAll?, Option.bind_eq_some_iff] at h
    obtain ⟨next, hinsert, hrest⟩ := h
    rw [ih hrest, (insert?_eq_some.mp hinsert).2, List.append_assoc]
    rfl

/-- Rows with new and pairwise different keys can be inserted. -/
theorem exists_insertAll? [DecidableEq κ] {rows : List ρ} (hnodup : (rows.map key).Nodup)
    (hnew : ∀ r ∈ rows, key r ∉ t.rows.map key) : ∃ t', insertAll? rows t = some t' := by
  induction rows generalizing t with
  | nil => exact ⟨t, rfl⟩
  | cons r rows ih =>
    rw [List.map_cons, List.nodup_cons] at hnodup
    have hinsert : t.insert? r = some ⟨t.rows ++ [r], _⟩ :=
      dif_pos (hnew r List.mem_cons_self)
    obtain ⟨t', ht'⟩ := ih (t := ⟨t.rows ++ [r], _⟩) hnodup.2 fun other hother hmem => by
      rw [List.map_append, List.mem_append] at hmem
      rcases hmem with hmem | hmem
      · exact hnew other (List.mem_cons_of_mem _ hother) hmem
      · have hkey : key other = key r := List.mem_singleton.mp hmem
        exact hnodup.1 (hkey ▸ List.mem_map_of_mem hother)
    exact ⟨t', by rw [insertAll?, hinsert]; exact ht'⟩

theorem mem_modify :
    r ∈ (t.modify p f hf).rows ↔
      (r ∈ t.rows ∧ p r = false) ∨ ∃ r' ∈ t.rows, p r' = true ∧ r = f r' := by
  simp only [modify, List.mem_map]
  constructor
  · rintro ⟨r', hr', rfl⟩
    split_ifs with hp
    · exact .inr ⟨r', hr', hp, rfl⟩
    · exact .inl ⟨hr', by simpa using hp⟩
  · rintro (⟨hr, hp⟩ | ⟨r', hr', hp, rfl⟩)
    · exact ⟨r, hr, by simp [hp]⟩
    · exact ⟨r', hr', by simp [hp]⟩

theorem mem_delete : r ∈ (t.delete p).rows ↔ r ∈ t.rows ∧ p r = false := by
  simp [delete]

theorem mem_upsert [DecidableEq κ] :
    r' ∈ (t.upsert r).rows ↔ r' = r ∨ (r' ∈ t.rows ∧ key r' ≠ key r) := by
  unfold upsert
  split_ifs with hkey
  · simp only [List.mem_map]
    constructor
    · rintro ⟨x, hx, rfl⟩
      split_ifs with hxr
      · exact .inl rfl
      · exact .inr ⟨hx, hxr⟩
    · rintro (rfl | ⟨hr', hne⟩)
      · obtain ⟨x, hx, hxr⟩ := List.mem_map.mp hkey
        exact ⟨x, hx, if_pos hxr⟩
      · exact ⟨r', hr', if_neg hne⟩
  · simp only [List.mem_append, List.mem_singleton]
    constructor
    · rintro (hr' | rfl)
      · exact .inr ⟨hr', fun h => hkey (h ▸ List.mem_map_of_mem hr')⟩
      · exact .inl rfl
    · rintro (rfl | ⟨hr', -⟩)
      · exact .inr rfl
      · exact .inl hr'

theorem mem_project {σ κ' : Type*} {key' : σ → κ'} {f : ρ → Option σ}
    {hf : ∀ r r' s s', f r = some s → f r' = some s' → key' s = key' s' → key r = key r'} {s : σ} :
    s ∈ (t.project f hf).rows ↔ ∃ r ∈ t.rows, f r = some s :=
  List.mem_filterMap

/-- Two rows with the same key are the same row. -/
theorem eq_of_key_eq (hr : r ∈ t.rows) (hr' : r' ∈ t.rows) (h : key r = key r') : r = r' :=
  List.inj_on_of_nodup_map t.unique hr hr' h

/-- The row found under a key is the row with that key. -/
theorem findRow_eq_some [DecidableEq κ] {k : κ} :
    findRow key k t.rows = some r ↔ r ∈ t.rows ∧ key r = k := by
  constructor
  · intro h
    exact ⟨List.mem_of_find?_eq_some h, by simpa using List.find?_some h⟩
  · rintro ⟨hr, rfl⟩
    cases hfind : findRow key (key r) t.rows with
    | none => exact absurd (List.find?_eq_none.mp hfind r hr) (by simp)
    | some x =>
      have hkey : key x = key r := by simpa using List.find?_some hfind
      rw [eq_of_key_eq (List.mem_of_find?_eq_some hfind) hr hkey]

theorem findRow_eq_none [DecidableEq κ] {k : κ} :
    findRow key k t.rows = none ↔ ∀ r ∈ t.rows, key r ≠ k := by
  simp [findRow, List.find?_eq_none]

/-- An upserted row is found under its key, and every other row under its own. -/
theorem findRow_upsert [DecidableEq κ] {k : κ} :
    findRow key k (t.upsert r).rows = if k = key r then some r else findRow key k t.rows := by
  split_ifs with hk
  · exact findRow_eq_some.mpr ⟨mem_upsert.mpr (.inl rfl), hk.symm⟩
  · cases hfound : findRow key k t.rows with
    | some x =>
      obtain ⟨hx, rfl⟩ := findRow_eq_some.mp hfound
      exact findRow_eq_some.mpr ⟨mem_upsert.mpr (.inr ⟨hx, hk⟩), rfl⟩
    | none =>
      refine findRow_eq_none.mpr fun x hx => ?_
      rcases mem_upsert.mp hx with rfl | ⟨hx, -⟩
      · exact fun h => hk h.symm
      · exact findRow_eq_none.mp hfound x hx

theorem findRow_upsertMerged [DecidableEq κ] {merge : ρ → ρ → ρ} {excluded : ρ} {k : κ}
    (hmerge : ∀ old, key (merge old excluded) = key excluded) :
    findRow key k (t.upsertMerged merge excluded).rows =
      if k = key excluded then
        some (((findRow key k t.rows).map fun old => merge old excluded).getD excluded)
      else findRow key k t.rows := by
  have hkey : key (((findRow key (key excluded) t.rows).map
      fun old => merge old excluded).getD excluded) = key excluded := by
    cases findRow key (key excluded) t.rows with
    | none => rfl
    | some old => exact hmerge old
  rw [upsertMerged, findRow_upsert, hkey]
  split_ifs with hk
  · rw [hk]
  · rfl

/-- An update reaches the row found under its key. -/
theorem findRow_modify [DecidableEq κ] {k : κ} :
    findRow key k (t.modify p f hf).rows =
      (findRow key k t.rows).map fun r => if p r then f r else r := by
  cases hfound : findRow key k t.rows with
  | some x =>
    obtain ⟨hx, rfl⟩ := findRow_eq_some.mp hfound
    refine findRow_eq_some.mpr ⟨List.mem_map_of_mem hx, ?_⟩
    show key (if p x then f x else x) = key x
    split_ifs
    · exact hf x
    · rfl
  | none =>
    refine findRow_eq_none.mpr fun x hx => ?_
    rcases mem_modify.mp hx with ⟨hx, -⟩ | ⟨y, hy, -, rfl⟩
    · exact findRow_eq_none.mp hfound x hx
    · rw [hf y]
      exact findRow_eq_none.mp hfound y hy

theorem insertOrIgnore_of_mem [DecidableEq κ] (h : key r ∈ t.rows.map key) :
    t.insertOrIgnore r = t := by
  have hrefused : t.insert? r = none := dif_neg (not_not.mpr h)
  rw [insertOrIgnore, hrefused, Option.getD_none]

theorem rows_insertOrIgnore_of_notMem [DecidableEq κ] (h : key r ∉ t.rows.map key) :
    (t.insertOrIgnore r).rows = t.rows ++ [r] := by
  rw [insertOrIgnore, insert?, dif_pos h, Option.getD_some]

/-- After an insertion that may be ignored, the key leads to the old row or to the new one. -/
theorem findRow_insertOrIgnore [DecidableEq κ] {k : κ} :
    findRow key k (t.insertOrIgnore r).rows =
      if k = key r then some ((findRow key k t.rows).getD r) else findRow key k t.rows := by
  by_cases hmem : key r ∈ t.rows.map key
  · rw [insertOrIgnore_of_mem hmem]
    split_ifs with hk
    · obtain ⟨x, hx, hkey⟩ := List.mem_map.mp hmem
      rw [findRow_eq_some.mpr ⟨hx, hkey.trans hk.symm⟩, Option.getD_some]
    · rfl
  · have hnone : findRow key (key r) t.rows = none :=
      findRow_eq_none.mpr fun x hx hkey => hmem (hkey ▸ List.mem_map_of_mem hx)
    rw [rows_insertOrIgnore_of_notMem hmem, findRow_append_singleton hnone]
    split_ifs with hk
    · rw [hk, hnone, Option.getD_none]
    · rfl

theorem ext_rows (h : t.rows = t'.rows) : t = t' := by
  obtain ⟨rows, hunique⟩ := t
  obtain rfl : rows = t'.rows := h
  rfl

/-- Upserting a row of the table changes nothing. -/
theorem upsert_of_mem [DecidableEq κ] (hr : r ∈ t.rows) : t.upsert r = t := by
  refine ext_rows ?_
  rw [upsert, dif_pos (List.mem_map_of_mem hr)]
  have hsame : ∀ x ∈ t.rows, (if key x = key r then r else x) = x := by
    intro x hx
    split_ifs with hkey
    · exact (eq_of_key_eq hx hr hkey).symm
    · rfl
  calc t.rows.map (fun x => if key x = key r then r else x) = t.rows.map id :=
        List.map_congr_left hsame
    _ = t.rows := List.map_id _

theorem upsert_upsert [DecidableEq κ] : (t.upsert r).upsert r = t.upsert r :=
  upsert_of_mem (mem_upsert.mpr (.inl rfl))

theorem insertOrIgnore_insertOrIgnore [DecidableEq κ] :
    (t.insertOrIgnore r).insertOrIgnore r = t.insertOrIgnore r := by
  by_cases hmem : key r ∈ t.rows.map key
  · rw [insertOrIgnore_of_mem hmem, insertOrIgnore_of_mem hmem]
  · refine insertOrIgnore_of_mem ?_
    rw [rows_insertOrIgnore_of_notMem hmem]
    exact List.mem_map_of_mem (List.mem_append_right _ List.mem_cons_self)

/-- An update made twice is made once, when it keeps its condition and repeats its result. -/
theorem modify_modify (hp : ∀ r, p r → p (f r)) (hff : ∀ r, f (f r) = f r) :
    (t.modify p f hf).modify p f hf = t.modify p f hf := by
  refine ext_rows ?_
  show (t.rows.map _).map _ = t.rows.map _
  rw [List.map_map]
  refine List.map_congr_left fun x _ => ?_
  simp only [Function.comp_apply]
  by_cases hx : p x = true
  · rw [if_pos hx, if_pos (hp x hx), hff x]
  · rw [if_neg hx, if_neg hx]

/-- A row whose key is not in use is appended by either write. -/
theorem insert?_eq_upsert [DecidableEq κ] (h : key r ∉ t.rows.map key) :
    t.insert? r = some (t.upsert r) := by
  rw [insert?, dif_pos h, upsert, dif_neg h]

/-- An update of the row with a key puts the updated row in its place. -/
theorem upsert_eq_modify [DecidableEq κ] (hr : r ∈ t.rows) :
    t.upsert (f r) = t.modify (fun x => key x = key r) f hf := by
  refine ext_rows ?_
  have hmem : key (f r) ∈ t.rows.map key := hf r ▸ List.mem_map_of_mem hr
  rw [upsert, dif_pos hmem]
  refine List.map_congr_left fun x hx => ?_
  rw [hf r]
  by_cases hkey : key x = key r
  · rw [if_pos hkey, if_pos (decide_eq_true hkey), eq_of_key_eq hx hr hkey]
  · rw [if_neg hkey, if_neg (by simpa using hkey)]

/-- An update that concerns no row changes nothing. -/
theorem modify_of_forall (h : ∀ r ∈ t.rows, p r = false) : t.modify p f hf = t := by
  refine ext_rows ?_
  calc t.rows.map (fun r => if p r then f r else r) = t.rows.map id :=
        List.map_congr_left fun r hr => if_neg (by simp [h r hr])
    _ = t.rows := List.map_id _

/-- Two updates are one when they are one on every row. -/
theorem modify_modify_eq {p' p'' : ρ → Bool} {f' f'' : ρ → ρ} {hf' : ∀ r, key (f' r) = key r}
    {hf'' : ∀ r, key (f'' r) = key r}
    (h : ∀ r ∈ t.rows, (if p' (if p r then f r else r) then f' (if p r then f r else r)
      else if p r then f r else r) = if p'' r then f'' r else r) :
    (t.modify p f hf).modify p' f' hf' = t.modify p'' f'' hf'' := by
  refine ext_rows ?_
  show (t.rows.map _).map _ = t.rows.map _
  rw [List.map_map]
  exact List.map_congr_left h

theorem modify_congr {p' : ρ → Bool} (h : ∀ r ∈ t.rows, p r = p' r) :
    t.modify p f hf = t.modify p' f hf := by
  refine ext_rows ?_
  refine List.map_congr_left fun r hr => ?_
  rw [h r hr]

/-! ## Tables with the same rows -/

/-- The order of the rows cannot be observed. -/
def SameRows (t t' : UniqueTable ρ key) : Prop := ∀ r, r ∈ t.rows ↔ r ∈ t'.rows

theorem SameRows.refl : t.SameRows t := fun _ => Iff.rfl

theorem SameRows.trans {t'' : UniqueTable ρ key} (h : t.SameRows t') (h' : t'.SameRows t'') :
    t.SameRows t'' := fun r => (h r).trans (h' r)

theorem sameRows_iff_findRow [DecidableEq κ] :
    t.SameRows t' ↔ ∀ k, findRow key k t.rows = findRow key k t'.rows := by
  constructor
  · intro h k
    cases hfound : findRow key k t.rows with
    | some r =>
      obtain ⟨hr, hk⟩ := findRow_eq_some.mp hfound
      exact (findRow_eq_some.mpr ⟨(h r).mp hr, hk⟩).symm
    | none =>
      refine (findRow_eq_none.mpr fun r hr => ?_).symm
      exact findRow_eq_none.mp hfound r ((h r).mpr hr)
  · intro h r
    have hiff : findRow key (key r) t.rows = some r ↔ findRow key (key r) t'.rows = some r := by
      rw [h]
    rw [findRow_eq_some, findRow_eq_some] at hiff
    exact ⟨fun hr => (hiff.mp ⟨hr, rfl⟩).1, fun hr => (hiff.mpr ⟨hr, rfl⟩).1⟩

/-! ## Rows put one after the other -/

/-- A key that is not among those of the rows leads where it led before. -/
theorem findRow_foldl_upsert_of_notMem [DecidableEq κ] {rows : List ρ} {k : κ}
    (h : k ∉ rows.map key) :
    findRow key k (rows.foldl upsert t).rows = findRow key k t.rows := by
  induction rows generalizing t with
  | nil => rfl
  | cons r rows ih =>
    rw [List.map_cons, List.mem_cons, not_or] at h
    rw [List.foldl_cons, ih h.2, findRow_upsert, if_neg h.1]

/-- A key among those of the rows leads to the last row with it, whatever the table held. -/
theorem findRow_foldl_upsert_of_mem [DecidableEq κ] {rows : List ρ} {k : κ}
    (h : k ∈ rows.map key) :
    findRow key k (rows.foldl upsert t).rows = findRow key k (rows.foldl upsert t').rows := by
  induction rows generalizing t t' with
  | nil => exact absurd h List.not_mem_nil
  | cons r rows ih =>
    rw [List.foldl_cons, List.foldl_cons]
    by_cases hrest : k ∈ rows.map key
    · exact ih hrest
    · rw [List.map_cons, List.mem_cons] at h
      have hk : k = key r := h.resolve_right hrest
      rw [findRow_foldl_upsert_of_notMem hrest, findRow_foldl_upsert_of_notMem hrest,
        findRow_upsert, findRow_upsert, if_pos hk, if_pos hk]

/-- **Putting rows again** after some of them were put leads to the same rows. -/
theorem sameRows_foldl_upsert [DecidableEq κ] {rows first : List ρ} (hfirst : first ⊆ rows) :
    (rows.foldl upsert t).SameRows (rows.foldl upsert (first.foldl upsert t)) := by
  refine sameRows_iff_findRow.mpr fun k => ?_
  by_cases hk : k ∈ rows.map key
  · exact findRow_foldl_upsert_of_mem hk
  · have hk' : k ∉ first.map key := fun h => hk (List.map_subset key hfirst h)
    rw [findRow_foldl_upsert_of_notMem hk, findRow_foldl_upsert_of_notMem hk,
      findRow_foldl_upsert_of_notMem hk']

theorem mem_of_mem_foldl_upsert [DecidableEq κ] {rows : List ρ}
    (h : r ∈ (rows.foldl upsert t).rows) : r ∈ t.rows ∨ r ∈ rows := by
  induction rows generalizing t with
  | nil => exact .inl h
  | cons first rows ih =>
    rcases ih h with h | h
    · rcases mem_upsert.mp h with rfl | ⟨h, -⟩
      · exact .inr List.mem_cons_self
      · exact .inl h
    · exact .inr (List.mem_cons_of_mem _ h)

theorem mem_foldl_upsert [DecidableEq κ] {rows : List ρ} (hnodup : (rows.map key).Nodup)
    (hr : r ∈ rows) : r ∈ (rows.foldl upsert t).rows := by
  induction rows generalizing t with
  | nil => exact absurd hr List.not_mem_nil
  | cons first rows ih =>
    rw [List.map_cons, List.nodup_cons] at hnodup
    rcases List.mem_cons.mp hr with rfl | hr
    · have hfound : findRow key (key r) (rows.foldl upsert (t.upsert r)).rows = some r := by
        rw [findRow_foldl_upsert_of_notMem hnodup.1, findRow_upsert, if_pos rfl]
      exact (findRow_eq_some.mp hfound).1
    · exact ih hnodup.2 hr

theorem exists_mem_foldl_upsert [DecidableEq κ] {rows : List ρ} {k : κ} (h : k ∈ rows.map key) :
    ∃ r ∈ (rows.foldl upsert t).rows, key r = k := by
  induction rows generalizing t with
  | nil => exact absurd h List.not_mem_nil
  | cons first rows ih =>
    by_cases hrest : k ∈ rows.map key
    · exact ih hrest
    · rw [List.map_cons, List.mem_cons] at h
      have hfound : findRow key k (rows.foldl upsert (t.upsert first)).rows = some first := by
        rw [findRow_foldl_upsert_of_notMem hrest, findRow_upsert, if_pos (h.resolve_right hrest)]
      obtain ⟨hmem, hsame⟩ := findRow_eq_some.mp hfound
      exact ⟨first, hmem, hsame⟩

/-- Rows that agree wherever their keys do are the rows of the table that they are put into. -/
theorem mem_foldl_upsert_empty [DecidableEq κ] {rows : List ρ}
    (hagree : ∀ r ∈ rows, ∀ r' ∈ rows, key r = key r' → r = r') :
    r ∈ (rows.foldl upsert (empty : UniqueTable ρ key)).rows ↔ r ∈ rows := by
  refine ⟨fun h => (mem_of_mem_foldl_upsert h).resolve_left List.not_mem_nil, fun hr => ?_⟩
  obtain ⟨found, hmem, hsame⟩ :=
    exists_mem_foldl_upsert (t := (empty : UniqueTable ρ key)) (List.mem_map_of_mem hr)
  have hfrom := (mem_of_mem_foldl_upsert hmem).resolve_left List.not_mem_nil
  exact hagree found hfrom r hr hsame ▸ hmem

/-- Putting rows that the table has changes nothing. -/
theorem foldl_upsert_of_mem [DecidableEq κ] {rows : List ρ} (h : ∀ r ∈ rows, r ∈ t.rows) :
    rows.foldl upsert t = t := by
  induction rows with
  | nil => rfl
  | cons r rows ih =>
    rw [List.foldl_cons, upsert_of_mem (h r List.mem_cons_self)]
    exact ih fun r hr => h r (List.mem_cons_of_mem _ hr)

/-- Of rows that are inserted unless their key is in use, the first with the key stays. -/
theorem findRow_foldl_insertOrIgnore [DecidableEq κ] {rows : List ρ} {k : κ} :
    findRow key k (rows.foldl insertOrIgnore t).rows =
      (findRow key k t.rows).or (findRow key k rows) := by
  induction rows generalizing t with
  | nil => exact Option.or_none.symm
  | cons r rows ih =>
    rw [List.foldl_cons, ih, findRow_insertOrIgnore, findRow, findRow, findRow, List.find?_cons]
    by_cases hk : k = key r
    · rw [if_pos hk, decide_eq_true hk.symm]
      cases t.rows.find? fun r => decide (key r = k) <;> rfl
    · rw [if_neg hk, decide_eq_false fun h => hk h.symm]

end UniqueTable
end Bitloops
