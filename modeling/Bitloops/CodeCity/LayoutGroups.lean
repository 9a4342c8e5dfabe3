import Bitloops.CodeCity.Layout
import Mathlib.Data.List.Pairwise

/-!
# The buildings of a group

`layoutGroup` puts the buildings of a group in rows and leaves the others where they are.  What it
does with the buildings of the group depends on no other building, `layoutGroup_congr`; they are
apart, `apart_layoutGroup`, and they lie in the frame of the group, `within_layoutGroup`.
-/

namespace Bitloops
namespace CodeCity

open Packing

variable {n : ℕ} {layout : LayoutConfig} {columns : ℕ} {indices : List (Fin n)}
  {buildings buildings' : Fin n → Building}

/-! ## The loop -/

def sizesOf (buildings : Fin n → Building) (indices : List (Fin n)) : List (ℚ × ℚ) :=
  indices.map fun index =>
    ((buildings index).geometry.sideLength, (buildings index).geometry.sideLength)

theorem sizesOf_congr (h : ∀ index ∈ indices, buildings index = buildings' index) :
    sizesOf buildings indices = sizesOf buildings' indices :=
  List.map_congr_left fun index hindex => by rw [h index hindex]

theorem buildings_groupStep (state : GroupState n) (index v : Fin n) :
    (groupStep layout columns state index).buildings v =
      if v = index then
        (state.buildings index).place
          (state.shelf.nextRow columns layout.buildingPadding layout.buildingGap).currentX
          (state.shelf.nextRow columns layout.buildingPadding layout.buildingGap).currentZ
      else state.buildings v :=
  Function.update_apply ..

theorem foldl_groupStep_of_notMem (state : GroupState n) {index : Fin n} (h : index ∉ indices) :
    (indices.foldl (groupStep layout columns) state).buildings index = state.buildings index := by
  induction indices generalizing state with
  | nil => rfl
  | cons other indices ih =>
    rw [List.mem_cons, not_or] at h
    rw [List.foldl_cons, ih _ h.2, buildings_groupStep, if_neg h.1]

theorem foldl_groupStep_congr (state state' : GroupState n)
    (hshelf : state.shelf = state'.shelf) (hwidth : state.maxWidth = state'.maxWidth)
    (hdepth : state.maxDepth = state'.maxDepth) {all : List (Fin n)} (hall : indices ⊆ all)
    (h : ∀ index ∈ all, state.buildings index = state'.buildings index) :
    (∀ index ∈ all, (indices.foldl (groupStep layout columns) state).buildings index =
      (indices.foldl (groupStep layout columns) state').buildings index) ∧
      (indices.foldl (groupStep layout columns) state).maxWidth =
        (indices.foldl (groupStep layout columns) state').maxWidth ∧
      (indices.foldl (groupStep layout columns) state).maxDepth =
        (indices.foldl (groupStep layout columns) state').maxDepth := by
  induction indices generalizing state state' with
  | nil => exact ⟨h, hwidth, hdepth⟩
  | cons first indices ih =>
    obtain ⟨hfirst, hrest⟩ := List.cons_subset.mp hall
    have hbuilding := h first hfirst
    rw [List.foldl_cons, List.foldl_cons]
    refine ih _ _ ?_ ?_ ?_ hrest fun index hindex => ?_
    · simp only [groupStep, hshelf, hbuilding]
    · simp only [groupStep, hshelf, hbuilding, hwidth]
    · simp only [groupStep, hshelf, hbuilding, hdepth]
    · simp only [groupStep, hshelf, hbuilding, Function.update_apply, h index hindex]

/-- The rectangles of the loop are those of the rows. -/
theorem map_rect_foldl_groupStep (hnodup : indices.Nodup) (state : GroupState n) :
    indices.map (fun index =>
        ((indices.foldl (groupStep layout columns) state).buildings index).rect) =
      shelve columns layout.buildingPadding layout.buildingGap state.shelf
        (sizesOf state.buildings indices) := by
  induction indices generalizing state with
  | nil => rfl
  | cons first indices ih =>
    obtain ⟨hfirst, hnodup⟩ := List.nodup_cons.mp hnodup
    have hsizes : sizesOf (groupStep layout columns state first).buildings indices =
        sizesOf state.buildings indices :=
      sizesOf_congr fun index hindex => by
        rw [buildings_groupStep, if_neg fun heq : index = first => hfirst (heq ▸ hindex)]
    rw [List.map_cons, List.foldl_cons, ih hnodup, foldl_groupStep_of_notMem _ hfirst, hsizes,
      buildings_groupStep, if_pos rfl]
    rfl

/-- The greatest width and depth are never undercut. -/
theorem foldl_groupStep_max_le (state : GroupState n) :
    state.maxWidth ≤ (indices.foldl (groupStep layout columns) state).maxWidth ∧
      state.maxDepth ≤ (indices.foldl (groupStep layout columns) state).maxDepth := by
  induction indices generalizing state with
  | nil => exact ⟨le_refl _, le_refl _⟩
  | cons first indices ih =>
    obtain ⟨hwidth, hdepth⟩ := ih (groupStep layout columns state first)
    exact ⟨(le_max_left _ _).trans hwidth, (le_max_left _ _).trans hdepth⟩

theorem foldl_groupStep_le_max (hnodup : indices.Nodup) (state : GroupState n) :
    ∀ index ∈ indices,
      let rect := ((indices.foldl (groupStep layout columns) state).buildings index).rect
      rect.x + rect.width + layout.buildingPadding ≤
          (indices.foldl (groupStep layout columns) state).maxWidth ∧
        rect.z + rect.depth + layout.buildingPadding ≤
          (indices.foldl (groupStep layout columns) state).maxDepth := by
  induction indices generalizing state with
  | nil => exact fun _ hindex => absurd hindex List.not_mem_nil
  | cons first indices ih =>
    obtain ⟨hfirst, hnodup⟩ := List.nodup_cons.mp hnodup
    rw [List.forall_mem_cons]
    refine ⟨?_, ih hnodup _⟩
    rw [List.foldl_cons, foldl_groupStep_of_notMem _ hfirst]
    obtain ⟨hwidth, hdepth⟩ := @foldl_groupStep_max_le _ layout columns indices (groupStep layout columns state first)
    have hrect : ((groupStep layout columns state first).buildings first).rect =
        ⟨(state.shelf.nextRow columns layout.buildingPadding layout.buildingGap).currentX,
          (state.shelf.nextRow columns layout.buildingPadding layout.buildingGap).currentZ,
          (state.buildings first).geometry.sideLength,
          (state.buildings first).geometry.sideLength⟩ := by
      rw [buildings_groupStep, if_pos rfl]
      rfl
    simp only [hrect]
    exact ⟨(le_max_right _ _).trans hwidth, (le_max_right _ _).trans hdepth⟩

/-! ## The group -/

theorem layoutGroup_of_notMem {index : Fin n} (h : index ∉ indices) :
    (layoutGroup layout buildings indices).1 index = buildings index := by
  rw [layoutGroup]
  split_ifs
  · rfl
  · exact foldl_groupStep_of_notMem _ h

theorem layoutGroup_congr (h : ∀ index ∈ indices, buildings index = buildings' index) :
    (∀ index ∈ indices, (layoutGroup layout buildings indices).1 index =
      (layoutGroup layout buildings' indices).1 index) ∧
      (layoutGroup layout buildings indices).2 = (layoutGroup layout buildings' indices).2 := by
  rw [layoutGroup, layoutGroup]
  split_ifs
  · exact ⟨h, rfl⟩
  · obtain ⟨hbuildings, hwidth, hdepth⟩ := @foldl_groupStep_congr _ layout (groupColumns layout indices) _ (groupStart layout buildings) (groupStart layout buildings') rfl rfl rfl _ (List.Subset.refl indices) h
    exact ⟨hbuildings, Prod.ext hwidth hdepth⟩

theorem map_rect_layoutGroup (hnodup : indices.Nodup) :
    indices.map (fun index => ((layoutGroup layout buildings indices).1 index).rect) =
      shelve (groupColumns layout indices) layout.buildingPadding layout.buildingGap
        ⟨layout.buildingPadding, layout.buildingPadding, 0, 0⟩ (sizesOf buildings indices) := by
  by_cases hnil : indices = []
  · rw [hnil]
    rfl
  · rw [layoutGroup, if_neg hnil]
    exact map_rect_foldl_groupStep hnodup _

theorem after_start (start : ℚ) : (⟨start, start, 0, 0⟩ : Packing.Shelf ℚ).After start :=
  ⟨le_refl _, le_refl _, le_refl _⟩

/-- No side is negative. -/
def HasSides (buildings : Fin n → Building) : Prop :=
  ∀ index, 0 ≤ (buildings index).geometry.sideLength

theorem HasSides.sizesOf (hsides : HasSides buildings) :
    ∀ size ∈ sizesOf buildings indices, 0 ≤ size.1 := by
  intro size hsize
  obtain ⟨index, -, rfl⟩ := List.mem_map.mp hsize
  exact hsides index

/-- The buildings of a group are apart. -/
theorem apart_layoutGroup (hgap : 0 ≤ layout.buildingGap) (hsides : HasSides buildings)
    (hnodup : indices.Nodup) {index index' : Fin n} (hindex : index ∈ indices)
    (hindex' : index' ∈ indices) (hne : index ≠ index') :
    Apart ((layoutGroup layout buildings indices).1 index).rect
      ((layoutGroup layout buildings indices).1 index').rect := by
  have hsizes := @HasSides.sizesOf _ indices _ hsides
  have hpairwise := @pairwise_shelve _ _ _ _ (groupColumns layout indices) _ _ hgap _ hsizes _
    (after_start layout.buildingPadding)
  rw [← map_rect_layoutGroup hnodup, List.pairwise_map] at hpairwise
  have : Std.Symm fun index index' => Apart ((layoutGroup layout buildings indices).1 index).rect
      ((layoutGroup layout buildings indices).1 index').rect := ⟨fun _ _ h => h.symm⟩
  exact hpairwise.forall hindex hindex' hne

/-- No building of a group begins before the padding. -/
theorem le_layoutGroup (hgap : 0 ≤ layout.buildingGap) (hsides : HasSides buildings)
    (hnodup : indices.Nodup) {index : Fin n} (hindex : index ∈ indices) :
    layout.buildingPadding ≤ ((layoutGroup layout buildings indices).1 index).rect.x ∧
      layout.buildingPadding ≤ ((layoutGroup layout buildings indices).1 index).rect.z := by
  refine @le_of_mem_shelve _ _ _ _ (groupColumns layout indices) _ _ hgap _
    (@HasSides.sizesOf _ indices _ hsides) _ (after_start layout.buildingPadding) _ ?_
  rw [← map_rect_layoutGroup hnodup]
  exact List.mem_map_of_mem hindex

/-- The frame of a group begins at the origin. -/
def groupFrame (layout : LayoutConfig) (buildings : Fin n → Building) (indices : List (Fin n)) :
    Rect ℚ :=
  ⟨0, 0, (layoutGroup layout buildings indices).2.1, (layoutGroup layout buildings indices).2.2⟩

theorem groupFrame_nonneg : 0 ≤ (groupFrame layout buildings indices).width ∧
    0 ≤ (groupFrame layout buildings indices).depth := by
  rw [groupFrame, layoutGroup]
  split_ifs
  · exact ⟨le_refl _, le_refl _⟩
  · exact foldl_groupStep_max_le _

/-- With a padding that is not negative, the buildings of a group lie in its frame. -/
theorem within_layoutGroup (hpadding : 0 ≤ layout.buildingPadding) (hgap : 0 ≤ layout.buildingGap)
    (hsides : HasSides buildings) (hnodup : indices.Nodup) {index : Fin n}
    (hindex : index ∈ indices) :
    Within ((layoutGroup layout buildings indices).1 index).rect
      (groupFrame layout buildings indices) := by
  obtain ⟨hx, hz⟩ := le_layoutGroup hgap hsides hnodup hindex
  have hnil : indices ≠ [] := List.ne_nil_of_mem hindex
  have hmax := @foldl_groupStep_le_max _ layout (groupColumns layout indices) _ hnodup (groupStart layout buildings) index hindex
  rw [groupFrame]
  rw [layoutGroup, if_neg hnil] at hx hz ⊢
  simp only at hmax hx hz ⊢
  exact ⟨by linarith, by linarith [hmax.1], by linarith, by linarith [hmax.2]⟩

end CodeCity
end Bitloops
