import Mathlib.Data.List.Basic
import Mathlib.Data.List.Perm.Basic
import Bitloops.Foundation.UniqueTable

/-!
# The first test that singles out one key

Rows are looked for by a list of tests.  The rows that satisfy a test are put into a table by
their keys; when the table ends up with one row, that row is the result, and otherwise the next
test is tried.

* `uniqueRow`: the row of a table that holds one row only, with `uniqueRow_eq_some`;
* `Selected`: the row satisfies the first test whose rows have one key.  It does not depend on the
  order of the rows (`Selected.perm`), while the result is the last of these rows
  (`firstUnique_of_last`).
-/

namespace Bitloops
namespace FirstUnique

variable {ρ ι κ : Type*} [DecidableEq κ] (key : ρ → κ)

/-- The row of the table that the rows are put into, when it is the only one. -/
def uniqueRow (found : List ρ) : Option ρ :=
  match (found.foldl UniqueTable.upsert (UniqueTable.empty : UniqueTable ρ key)).rows with
  | [r] => some r
  | _ => none

variable (sel : ι → ρ → Bool) (rows : List ρ)

/-- The result of the first test that has one. -/
def firstUnique (tests : List ι) : Option ρ :=
  tests.findSome? fun i => uniqueRow key (rows.filter (sel i))

/-- Some row satisfies the test, and all that do have one key. -/
def Singles (p : ρ → Bool) : Prop :=
  (∃ r ∈ rows, p r = true) ∧
    ∀ r ∈ rows, ∀ r' ∈ rows, p r = true → p r' = true → key r = key r'

/-- The row satisfies the first test whose rows have one key. -/
inductive Selected : List ι → ι → ρ → Prop
  | here {i : ι} {tests : List ι} {r : ρ} (hsingles : Singles key rows (sel i)) (hmem : r ∈ rows)
      (hsel : sel i r = true) : Selected (i :: tests) i r
  | later {i j : ι} {tests : List ι} {r : ρ} (hsingles : ¬Singles key rows (sel i))
      (hrest : Selected tests j r) : Selected (i :: tests) j r

variable {key sel rows} {rows' found : List ρ} {tests : List ι} {p : ρ → Bool} {i j : ι} {r r' : ρ}

/-! ## One row -/

theorem uniqueRow_eq_some :
    uniqueRow key found = some r ↔ (∀ r' ∈ found, key r' = key r) ∧ found.getLast? = some r := by
  rcases List.eq_nil_or_concat' found with rfl | ⟨front, last, rfl⟩
  · exact ⟨fun h => (nomatch h), fun h => (nomatch h.2)⟩
  have hlast : last ∈ ((front ++ [last]).foldl UniqueTable.upsert
      (UniqueTable.empty : UniqueTable ρ key)).rows := by
    rw [List.foldl_append]
    exact UniqueTable.mem_upsert.mpr (.inl rfl)
  rw [List.getLast?_concat, Option.some.injEq, uniqueRow]
  constructor
  · intro h
    split at h
    · rename_i only hrows
      obtain rfl := Option.some.inj h
      rw [hrows] at hlast
      refine ⟨fun r' hr' => ?_, List.mem_singleton.mp hlast⟩
      obtain ⟨kept, hkept, hkey⟩ := UniqueTable.exists_mem_foldl_upsert
        (t := (UniqueTable.empty : UniqueTable ρ key)) (List.mem_map_of_mem hr')
      rw [hrows] at hkept
      rw [← hkey, List.mem_singleton.mp hkept]
    · exact nomatch h
  · rintro ⟨hkeys, rfl⟩
    have hall : ∀ kept ∈ ((front ++ [last]).foldl UniqueTable.upsert
        (UniqueTable.empty : UniqueTable ρ key)).rows, kept = last := by
      intro kept hkept
      have hfrom := (UniqueTable.mem_of_mem_foldl_upsert hkept).resolve_left List.not_mem_nil
      exact UniqueTable.eq_of_key_eq hkept hlast (hkeys kept hfrom)
    have hnodup := List.Nodup.of_map key ((front ++ [last]).foldl UniqueTable.upsert
      (UniqueTable.empty : UniqueTable ρ key)).unique
    rw [List.perm_singleton.mp ((List.perm_ext_iff_of_nodup hnodup (List.nodup_singleton last)).mpr
      fun kept => ⟨fun h => List.mem_singleton.mpr (hall kept h),
        fun h => List.mem_singleton.mp h ▸ hlast⟩)]

theorem singles_of_uniqueRow (h : uniqueRow key (rows.filter p) = some r) :
    Singles key rows p ∧ r ∈ rows ∧ p r = true := by
  obtain ⟨hkeys, hlast⟩ := uniqueRow_eq_some.mp h
  obtain ⟨hmem, hp⟩ := List.mem_filter.mp (List.mem_of_getLast? hlast)
  refine ⟨⟨⟨r, hmem, hp⟩, fun x hx x' hx' hpx hpx' => ?_⟩, hmem, hp⟩
  exact (hkeys x (List.mem_filter.mpr ⟨hx, hpx⟩)).trans
    (hkeys x' (List.mem_filter.mpr ⟨hx', hpx'⟩)).symm

theorem Singles.exists_uniqueRow (h : Singles key rows p) :
    ∃ r, uniqueRow key (rows.filter p) = some r := by
  obtain ⟨⟨r, hr, hp⟩, hkeys⟩ := h
  have hmem : r ∈ rows.filter p := List.mem_filter.mpr ⟨hr, hp⟩
  obtain ⟨last, hlast⟩ := Option.isSome_iff_exists.mp
    (List.getLast?_isSome.mpr (List.ne_nil_of_mem hmem))
  obtain ⟨hlastMem, hlastp⟩ := List.mem_filter.mp (List.mem_of_getLast? hlast)
  refine ⟨last, uniqueRow_eq_some.mpr ⟨fun x hx => ?_, hlast⟩⟩
  obtain ⟨hxMem, hxp⟩ := List.mem_filter.mp hx
  exact hkeys x hxMem last hlastMem hxp hlastp

theorem uniqueRow_eq_none (h : ¬Singles key rows p) : uniqueRow key (rows.filter p) = none := by
  cases hrow : uniqueRow key (rows.filter p) with
  | none => rfl
  | some r => exact absurd (singles_of_uniqueRow hrow).1 h

theorem Singles.perm (hperm : rows.Perm rows') (h : Singles key rows p) : Singles key rows' p := by
  obtain ⟨⟨r, hr, hp⟩, hkeys⟩ := h
  exact ⟨⟨r, hperm.mem_iff.mp hr, hp⟩, fun x hx x' hx' =>
    hkeys x (hperm.mem_iff.mpr hx) x' (hperm.mem_iff.mpr hx')⟩

/-! ## The first test with a result -/

/-- What is found is selected. -/
theorem selected_of_firstUnique (h : firstUnique key sel rows tests = some r) :
    ∃ i, Selected key sel rows tests i r := by
  induction tests with
  | nil => exact nomatch h
  | cons i tests ih =>
    rw [firstUnique, List.findSome?_cons] at h
    cases hrow : uniqueRow key (rows.filter (sel i)) with
    | none =>
      rw [hrow] at h
      obtain ⟨j, hj⟩ := ih h
      refine ⟨j, .later (fun hsingles => ?_) hj⟩
      obtain ⟨r', hr'⟩ := hsingles.exists_uniqueRow
      exact nomatch hrow.symm.trans hr'
    | some r' =>
      rw [hrow] at h
      obtain rfl := Option.some.inj h
      obtain ⟨hsingles, hmem, hsel⟩ := singles_of_uniqueRow hrow
      exact ⟨i, .here hsingles hmem hsel⟩

/-- When a row is selected, one that the same test selects is found. -/
theorem Selected.firstUnique_eq (h : Selected key sel rows tests i r) :
    ∃ r', firstUnique key sel rows tests = some r' ∧ Selected key sel rows tests i r' := by
  induction h with
  | here hsingles hmem hsel =>
    obtain ⟨r', hr'⟩ := hsingles.exists_uniqueRow
    obtain ⟨-, hmem', hsel'⟩ := singles_of_uniqueRow hr'
    refine ⟨r', ?_, .here hsingles hmem' hsel'⟩
    rw [firstUnique, List.findSome?_cons, hr']
  | later hsingles _ ih =>
    obtain ⟨r', hr', hselected⟩ := ih
    refine ⟨r', ?_, .later hsingles hselected⟩
    rw [firstUnique, List.findSome?_cons, uniqueRow_eq_none hsingles]
    exact hr'

theorem Selected.mem (h : Selected key sel rows tests i r) : r ∈ rows := by
  induction h with
  | here _ hmem _ => exact hmem
  | later _ _ ih => exact ih

theorem Selected.sel_eq_true (h : Selected key sel rows tests i r) : sel i r = true := by
  induction h with
  | here _ _ hsel => exact hsel
  | later _ _ ih => exact ih

theorem Selected.test_mem (h : Selected key sel rows tests i r) : i ∈ tests := by
  induction h with
  | here => exact List.mem_cons_self
  | later _ _ ih => exact List.mem_cons_of_mem _ ih

/-- One test selects, and its rows have one key. -/
theorem Selected.unique (h : Selected key sel rows tests i r)
    (h' : Selected key sel rows tests j r') : i = j ∧ key r = key r' := by
  induction h with
  | here hsingles hmem hsel =>
    cases h' with
    | here _ hmem' hsel' => exact ⟨rfl, hsingles.2 _ hmem _ hmem' hsel hsel'⟩
    | later hnot => exact absurd hsingles hnot
  | later hnot _ ih =>
    cases h' with
    | here hsingles => exact absurd hsingles hnot
    | later _ hrest => exact ih hrest

theorem Selected.append_right (h : Selected key sel rows tests i r) (more : List ι) :
    Selected key sel rows (tests ++ more) i r := by
  induction h with
  | here hsingles hmem hsel => exact .here hsingles hmem hsel
  | later hnot _ ih => exact .later hnot ih

theorem Selected.of_append {more : List ι} (h : Selected key sel rows (tests ++ more) i r) :
    Selected key sel rows tests i r ∨ i ∈ more := by
  induction tests with
  | nil => exact .inr h.test_mem
  | cons j tests ih =>
    cases h with
    | here hsingles hmem hsel => exact .inl (.here hsingles hmem hsel)
    | later hnot hrest => exact (ih hrest).imp_left (.later hnot)

/-- **The order of the rows makes no difference** to what is selected. -/
theorem Selected.perm (hperm : rows.Perm rows') (h : Selected key sel rows tests i r) :
    Selected key sel rows' tests i r := by
  induction h with
  | here hsingles hmem hsel => exact .here (hsingles.perm hperm) (hperm.mem_iff.mp hmem) hsel
  | later hnot _ ih => exact .later (fun hsingles => hnot (hsingles.perm hperm.symm)) ih

/-- **The last row** is the one that is found if it is selected. -/
theorem firstUnique_of_last (h : Selected key sel (rows ++ [r]) tests i r) :
    firstUnique key sel (rows ++ [r]) tests = some r := by
  generalize hall : rows ++ [r] = all at h
  induction h with
  | @here i tests r hsingles hmem hsel =>
    have hlast : (all.filter (sel i)).getLast? = some r := by
      rw [← hall, List.filter_append, List.filter_singleton, hsel]
      exact List.getLast?_concat
    have hrow : uniqueRow key (all.filter (sel i)) = some r := by
      refine uniqueRow_eq_some.mpr ⟨fun x hx => ?_, hlast⟩
      obtain ⟨hxMem, hxsel⟩ := List.mem_filter.mp hx
      exact hsingles.2 x hxMem r hmem hxsel hsel
    rw [firstUnique, List.findSome?_cons, hrow]
  | later hnot _ ih =>
    rw [firstUnique, List.findSome?_cons, uniqueRow_eq_none hnot]
    exact ih hall

end FirstUnique
end Bitloops
