import Bitloops.Foundation.UniqueTable

/-!
# A table in another form

The rows of a table that have keys of some kind are what a function makes of the rows of another
table: a directory with the files for its rows, for instance.

* `IsImage`: this relation between two tables.
* `IsImage.upsert`, `IsImage.erase`: the same changes to both keep it.
* `IsImage.upsert_of_not`, `IsImage.erase_of_not`: changes to rows of other kinds do not matter.
* `IsImage.findRow`, `IsImage.perm`: both tables are read alike.
-/

namespace Bitloops
namespace UniqueTable

variable {ρ σ κ κ' : Type*} {key : ρ → κ} {key' : σ → κ'}

section Erase

variable [DecidableEq κ] {t : UniqueTable ρ key}

/-- `DELETE` of the row with a key. -/
def erase (t : UniqueTable ρ key) (k : κ) : UniqueTable ρ key := t.delete fun r => key r = k

theorem mem_erase {k : κ} {r : ρ} : r ∈ (t.erase k).rows ↔ r ∈ t.rows ∧ key r ≠ k := by
  rw [erase, mem_delete, decide_eq_false_iff_not]

theorem findRow_erase {k k' : κ} :
    findRow key k' (t.erase k).rows = if k' = k then none else findRow key k' t.rows := by
  split_ifs with hk
  · rw [findRow_eq_none]
    intro r hr heq
    exact (mem_erase.mp hr).2 (heq.trans hk)
  · cases hfound : findRow key k' t.rows with
    | none =>
      rw [findRow_eq_none] at hfound ⊢
      exact fun r hr => hfound r (mem_erase.mp hr).1
    | some r =>
      rw [findRow_eq_some] at hfound ⊢
      exact ⟨mem_erase.mpr ⟨hfound.1, fun heq => hk (hfound.2.symm.trans heq)⟩, hfound.2⟩

end Erase

/-- The rows with keys of the kind are the images of the rows of the other table. -/
structure IsImage (kind : κ → Prop) (g : σ → ρ) (t : UniqueTable ρ key)
    (t' : UniqueTable σ key') : Prop where
  kind_image : ∀ r ∈ t'.rows, kind (key (g r))
  mem_iff : ∀ x, kind (key x) → (x ∈ t.rows ↔ ∃ r ∈ t'.rows, g r = x)

namespace IsImage

variable {kind : κ → Prop} {g g' : σ → ρ} {f : κ' → κ} {t : UniqueTable ρ key}
  {t' : UniqueTable σ key'}

theorem empty : IsImage kind g (UniqueTable.empty : UniqueTable ρ key)
    (UniqueTable.empty : UniqueTable σ key') where
  kind_image _ hr := absurd hr List.not_mem_nil
  mem_iff x _ := by simp

theorem mem_image (h : IsImage kind g t t') {r : σ} (hr : r ∈ t'.rows) : g r ∈ t.rows :=
  (h.mem_iff _ (h.kind_image r hr)).mpr ⟨r, hr, rfl⟩

section Changes

variable [DecidableEq κ] [DecidableEq κ']

/-- The images of the rows with other keys may not change. -/
theorem upsert (h : IsImage kind g t t') (hkey : ∀ r, key (g' r) = f (key' r))
    (hf : Function.Injective f) {r : σ} (hkind : kind (key (g' r)))
    (hother : ∀ r' ∈ t'.rows, key' r' ≠ key' r → g r' = g' r')
    (hkeys : ∀ r' ∈ t'.rows, key (g r') = f (key' r')) :
    IsImage kind g' (t.upsert (g' r)) (t'.upsert r) where
  kind_image r' hr' := by
    rcases mem_upsert.mp hr' with rfl | ⟨hold, hne⟩
    · exact hkind
    · exact hother r' hold hne ▸ h.kind_image r' hold
  mem_iff x hx := by
    rw [mem_upsert, h.mem_iff x hx]
    constructor
    · rintro (rfl | ⟨⟨r', hr', rfl⟩, hne⟩)
      · exact ⟨r, mem_upsert.mpr (Or.inl rfl), rfl⟩
      · have hne' : key' r' ≠ key' r := fun heq => hne (by rw [hkeys r' hr', hkey, heq])
        exact ⟨r', mem_upsert.mpr (Or.inr ⟨hr', hne'⟩), (hother r' hr' hne').symm⟩
    · rintro ⟨r', hr', rfl⟩
      rcases mem_upsert.mp hr' with rfl | ⟨hold, hne⟩
      · exact Or.inl rfl
      · refine Or.inr ⟨⟨r', hold, hother r' hold hne⟩, fun heq => hne (hf ?_)⟩
        rwa [hkey, hkey] at heq

theorem erase (h : IsImage kind g t t') (hkey : ∀ r, key (g r) = f (key' r))
    (hf : Function.Injective f) (k : κ') : IsImage kind g (t.erase (f k)) (t'.erase k) where
  kind_image r' hr' := h.kind_image r' (mem_erase.mp hr').1
  mem_iff x hx := by
    rw [mem_erase, h.mem_iff x hx]
    constructor
    · rintro ⟨⟨r', hr', rfl⟩, hne⟩
      exact ⟨r', mem_erase.mpr ⟨hr', fun heq => hne (by rw [hkey, heq])⟩, rfl⟩
    · rintro ⟨r', hr', rfl⟩
      obtain ⟨hold, hne⟩ := mem_erase.mp hr'
      exact ⟨⟨r', hold, rfl⟩, fun heq => hne (hf ((hkey r').symm.trans heq))⟩

theorem upsert_of_not (h : IsImage kind g t t') {x : ρ} (hx : ¬ kind (key x)) :
    IsImage kind g (t.upsert x) t' where
  kind_image := h.kind_image
  mem_iff y hy := by
    rw [mem_upsert, ← h.mem_iff y hy]
    constructor
    · rintro (rfl | ⟨hold, -⟩)
      · exact absurd hy hx
      · exact hold
    · exact fun hold => Or.inr ⟨hold, fun heq => hx (heq ▸ hy)⟩

theorem erase_of_not (h : IsImage kind g t t') {k : κ} (hk : ¬ kind k) :
    IsImage kind g (t.erase k) t' where
  kind_image := h.kind_image
  mem_iff y hy := by
    rw [mem_erase, ← h.mem_iff y hy]
    exact and_iff_left fun heq => hk (heq ▸ hy)

theorem findRow (h : IsImage kind g t t') (hkey : ∀ r, key (g r) = f (key' r))
    (hf : Function.Injective f) {k : κ'} (hk : kind (f k)) :
    Bitloops.findRow key (f k) t.rows = (Bitloops.findRow key' k t'.rows).map g := by
  cases hfound : Bitloops.findRow key' k t'.rows with
  | none =>
    rw [findRow_eq_none] at hfound
    rw [Option.map_none, findRow_eq_none]
    intro x hx heq
    obtain ⟨r, hr, rfl⟩ := (h.mem_iff x (heq.symm ▸ hk)).mp hx
    exact hfound r hr (hf ((hkey r).symm.trans heq))
  | some r =>
    rw [findRow_eq_some] at hfound
    rw [Option.map_some, findRow_eq_some]
    exact ⟨h.mem_image hfound.1, (hkey r).trans (congrArg f hfound.2)⟩

end Changes

/-- A table of one kind only has the images as its rows. -/
theorem perm (h : IsImage kind g t t') (hkey : ∀ r, key (g r) = f (key' r))
    (hf : Function.Injective f) (hall : ∀ x ∈ t.rows, kind (key x)) :
    t.rows.Perm (t'.rows.map g) := by
  have hkeys : ((t'.rows.map g).map key).Nodup := by
    have hmap : (t'.rows.map g).map key = (t'.rows.map key').map f := by
      rw [List.map_map, List.map_map]
      exact List.map_congr_left fun r _ => hkey r
    rw [hmap]
    exact t'.unique.map hf
  refine (List.perm_ext_iff_of_nodup t.unique.of_map hkeys.of_map).mpr fun x => ?_
  rw [List.mem_map]
  constructor
  · exact fun hx => (h.mem_iff x (hall x hx)).mp hx
  · rintro ⟨r, hr, rfl⟩
    exact h.mem_image hr

end IsImage

end UniqueTable
end Bitloops
