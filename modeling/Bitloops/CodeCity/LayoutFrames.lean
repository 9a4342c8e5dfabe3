import Bitloops.CodeCity.LayoutZones

/-!
# The frame of a boundary

With a padding that is not negative every building of a boundary lies in the frame of the
boundary, `within_zoneRect`; with a negative one the first building does not,
`exists_not_within_zoneRect`.  Zones in bands or in a strip are apart, `apart_zoneRect_of_stacks`.
-/

namespace Bitloops
namespace CodeCity

open Packing

/-- The strategies that add up the sizes of the zones before. -/
def LayoutStrategy.Stacks (strategy : LayoutStrategy) : Prop :=
  strategy = .layeredBands ∨ strategy = .pipeAndFilterStrip

variable {n : ℕ} {layout : LayoutConfig} {strategy : LayoutStrategy} {indices : List (Fin n)}
  {buildings : Fin n → Building} {zoneAssignments : String → Option Zone}
  {frames : List (ZoneFrame n)} {k l : ℕ} {group group' : List (Fin n)} {index index' : Fin n}

/-- The frame of a boundary begins at the origin. -/
def boundaryFrame (layout : LayoutConfig) (zoneAssignments : String → Option Zone)
    (strategy : LayoutStrategy) (buildings : Fin n → Building) (indices : List (Fin n)) :
    Rect ℚ :=
  ⟨0, 0, (layoutBoundaryLocal layout zoneAssignments strategy buildings indices).2.1,
    (layoutBoundaryLocal layout zoneAssignments strategy buildings indices).2.2.1⟩

theorem boundaryFrame_nonneg :
    0 ≤ (boundaryFrame layout zoneAssignments strategy buildings indices).width ∧
      0 ≤ (boundaryFrame layout zoneAssignments strategy buildings indices).depth := by
  rw [boundaryFrame]
  by_cases hne : indices = []
  · rw [layoutBoundaryLocal, if_pos hne]
    exact ⟨le_refl _, le_refl _⟩
  · rw [layoutBoundaryLocal_of_ne_nil hne]
    exact zoneLoop_max_nonneg

/-! ## The places of the zones -/

theorem zoneFrames_nonneg :
    ∀ frame ∈ zoneFrames layout zoneAssignments buildings indices,
      0 ≤ frame.width ∧ 0 ≤ frame.depth :=
  List.forall_mem_map.mpr fun _ _ => groupFrame_nonneg

theorem widths_nonneg (hframes : ∀ frame ∈ frames, 0 ≤ frame.width ∧ 0 ≤ frame.depth) :
    ∀ width ∈ frames.map ZoneFrame.width, 0 ≤ width :=
  List.forall_mem_map.mpr fun frame hframe => (hframes frame hframe).1

theorem depths_nonneg (hframes : ∀ frame ∈ frames, 0 ≤ frame.width ∧ 0 ≤ frame.depth) :
    ∀ depth ∈ frames.map ZoneFrame.depth, 0 ≤ depth :=
  List.forall_mem_map.mpr fun frame hframe => (hframes frame hframe).2

theorem zoneOffset_nonneg (hgap : 0 ≤ layout.zoneGap)
    (hframes : ∀ frame ∈ frames, 0 ≤ frame.width ∧ 0 ≤ frame.depth) (hk : k < frames.length) :
    0 ≤ (zoneOffset layout strategy frames k frames[k]).1 ∧
      0 ≤ (zoneOffset layout strategy frames k frames[k]).2 := by
  obtain ⟨hwidth, hdepth⟩ := hframes _ (List.getElem_mem hk)
  cases strategy with
  | layeredBands =>
    exact ⟨le_refl _, stackOffset_nonneg hgap (depths_nonneg hframes) (by simpa using hk.le)⟩
  | pipeAndFilterStrip =>
    exact ⟨stackOffset_nonneg hgap (widths_nonneg hframes) (by simpa using hk.le), le_refl _⟩
  | _ =>
    exact ⟨mul_nonneg (Nat.cast_nonneg _) (add_nonneg hwidth hgap),
      mul_nonneg (Nat.cast_nonneg _) (add_nonneg hdepth hgap)⟩

/-- The first zone stays at the origin. -/
theorem zoneOffset_zero (frame : ZoneFrame n) :
    zoneOffset layout strategy frames 0 frame = (0, 0) := by
  cases strategy <;> simp [zoneOffset, stackOffset_zero]

theorem getElem?_zoneFrames
    (hgroup : (zoneGroups zoneAssignments buildings indices)[k]? = some group) :
    (zoneFrames layout zoneAssignments buildings indices)[k]? =
      some (zoneFrame layout buildings group) := by
  rw [zoneFrames, List.getElem?_map, hgroup]
  rfl

section Boundary

variable (hgroup : (zoneGroups zoneAssignments buildings indices)[k]? = some group)

include hgroup

/-- The frame of a zone lies in the frame of its boundary. -/
theorem within_boundaryFrame (hgap : 0 ≤ layout.zoneGap) :
    Within ((groupFrame layout buildings group).move
        (zonePlace layout zoneAssignments strategy buildings indices k group).1
        (zonePlace layout zoneAssignments strategy buildings indices k group).2)
      (boundaryFrame layout zoneAssignments strategy buildings indices) := by
  have hmem := List.mem_of_getElem? hgroup
  have hne : indices ≠ [] := by
    obtain ⟨index, hindex⟩ := List.exists_mem_of_ne_nil _ (mem_zoneGroups.mp hmem).2
    exact List.ne_nil_of_mem (subset_of_mem_zoneGroups hmem hindex)
  obtain ⟨hk, hframe⟩ := List.getElem?_eq_some_iff.mp
    (@getElem?_zoneFrames _ layout _ _ _ _ _ hgroup)
  obtain ⟨hx, hz⟩ := @zoneOffset_nonneg _ _ strategy _ _ hgap
    (@zoneFrames_nonneg _ layout indices buildings zoneAssignments) hk
  obtain ⟨hwidth, hdepth⟩ := @zoneLoop_le_max _ layout strategy ((layoutZones layout buildings
      (zoneGroups zoneAssignments buildings indices)).1) _ _ hk
  rw [hframe] at hx hz hwidth hdepth
  rw [boundaryFrame, layoutBoundaryLocal_of_ne_nil hne]
  constructor
  · simpa [Rect.move, groupFrame, zonePlace, zoneFrame] using hx
  · simpa [Rect.move, groupFrame, zonePlace, zoneFrame] using hwidth
  · simpa [Rect.move, groupFrame, zonePlace, zoneFrame] using hz
  · simpa [Rect.move, groupFrame, zonePlace, zoneFrame] using hdepth

/-- Every building of a boundary lies in its frame. -/
theorem within_zoneRect (hpadding : 0 ≤ layout.buildingPadding) (hgap : 0 ≤ layout.buildingGap)
    (hzoneGap : 0 ≤ layout.zoneGap) (hsides : HasSides buildings) (hnodup : indices.Nodup)
    (hindex : index ∈ group) :
    Within (zoneRect layout zoneAssignments strategy buildings indices k group index)
      (boundaryFrame layout zoneAssignments strategy buildings indices) := by
  have hmem := nodup_of_mem_zoneGroups hnodup (List.mem_of_getElem? hgroup)
  exact ((within_layoutGroup hpadding hgap hsides hmem hindex).move _ _).trans
    (within_boundaryFrame hgroup hzoneGap)

/-- Two buildings of one zone are apart. -/
theorem apart_zoneRect (hgap : 0 ≤ layout.buildingGap) (hsides : HasSides buildings)
    (hnodup : indices.Nodup) (hindex : index ∈ group) (hindex' : index' ∈ group)
    (hne : index ≠ index') :
    Apart (zoneRect layout zoneAssignments strategy buildings indices k group index)
      (zoneRect layout zoneAssignments strategy buildings indices k group index') := by
  have hmem := nodup_of_mem_zoneGroups hnodup (List.mem_of_getElem? hgroup)
  exact apart_move_iff.mpr (apart_layoutGroup hgap hsides hmem hindex hindex' hne)

/-- Zones in bands or in a strip do not reach into each other. -/
theorem apart_frames_of_stacks (hzoneGap : 0 ≤ layout.zoneGap) (hstacks : strategy.Stacks)
    (hgroup' : (zoneGroups zoneAssignments buildings indices)[l]? = some group') (hkl : k < l) :
    Apart ((groupFrame layout buildings group).move
        (zonePlace layout zoneAssignments strategy buildings indices k group).1
        (zonePlace layout zoneAssignments strategy buildings indices k group).2)
      ((groupFrame layout buildings group').move
        (zonePlace layout zoneAssignments strategy buildings indices l group').1
        (zonePlace layout zoneAssignments strategy buildings indices l group').2) := by
  obtain ⟨hk, hframe⟩ := List.getElem?_eq_some_iff.mp
    (@getElem?_zoneFrames _ layout _ _ _ _ _ hgroup)
  obtain ⟨hl, -⟩ := List.getElem?_eq_some_iff.mp (@getElem?_zoneFrames _ layout _ _ _ _ _ hgroup')
  have hnonneg := @zoneFrames_nonneg _ layout indices buildings zoneAssignments
  rcases hstacks with rfl | rfl
  · have hle := stackOffset_add_le hzoneGap (depths_nonneg hnonneg) hkl (by simpa using hl)
    rw [List.getElem_map, hframe] at hle
    exact Or.inr (Or.inr (Or.inl (by
      simpa [Rect.move, groupFrame, zonePlace, zoneOffset, zoneFrame, add_comm] using hle)))
  · have hle := stackOffset_add_le hzoneGap (widths_nonneg hnonneg) hkl (by simpa using hl)
    rw [List.getElem_map, hframe] at hle
    exact Or.inl (by
      simpa [Rect.move, groupFrame, zonePlace, zoneOffset, zoneFrame, add_comm] using hle)

theorem apart_zoneRect_of_stacks (hpadding : 0 ≤ layout.buildingPadding)
    (hgap : 0 ≤ layout.buildingGap) (hzoneGap : 0 ≤ layout.zoneGap) (hsides : HasSides buildings)
    (hnodup : indices.Nodup) (hstacks : strategy.Stacks)
    (hgroup' : (zoneGroups zoneAssignments buildings indices)[l]? = some group') (hkl : k < l)
    (hindex : index ∈ group) (hindex' : index' ∈ group') :
    Apart (zoneRect layout zoneAssignments strategy buildings indices k group index)
      (zoneRect layout zoneAssignments strategy buildings indices l group' index') := by
  have hmem := nodup_of_mem_zoneGroups hnodup (List.mem_of_getElem? hgroup)
  have hmem' := nodup_of_mem_zoneGroups hnodup (List.mem_of_getElem? hgroup')
  exact (apart_frames_of_stacks hgroup hzoneGap hstacks hgroup' hkl).of_within
    ((within_layoutGroup hpadding hgap hsides hmem hindex).move _ _)
    ((within_layoutGroup hpadding hgap hsides hmem' hindex').move _ _)

end Boundary

/-! ## A negative padding -/

theorem gridColumns_pos (count : ℕ) (ratio : ℚ) : 0 < gridColumns count ratio :=
  lt_of_lt_of_le one_pos (le_max_right _ _)

/-- The first building of a group begins at the padding. -/
theorem x_layoutGroup_head (hnodup : (index :: indices).Nodup) :
    ((layoutGroup layout buildings (index :: indices)).1 index).rect.x =
      layout.buildingPadding := by
  have hmap := @map_rect_layoutGroup _ layout _ buildings hnodup
  have hcolumns := gridColumns_pos (index :: indices).length layout.targetAspectRatio
  rw [List.map_cons, sizesOf, List.map_cons, shelve, Packing.Shelf.nextRow,
    if_neg (show ¬ (0 : ℕ) = groupColumns layout (index :: indices) by
      rw [groupColumns]; omega)] at hmap
  rw [(List.cons_eq_cons.mp hmap).1]

theorem exists_not_within_zoneRect (hpadding : layout.buildingPadding < 0)
    (hnodup : indices.Nodup) (hne : indices ≠ []) :
    ∃ index ∈ indices,
      ((layoutBoundaryLocal layout zoneAssignments strategy buildings indices).1 index).rect.x
        < 0 := by
  obtain ⟨first, hfirst⟩ := List.exists_mem_of_ne_nil _ hne
  obtain ⟨group, hgroup, -⟩ :=
    @exists_mem_zoneGroups _ _ buildings zoneAssignments _ hfirst
  obtain ⟨group, groups, hgroups⟩ := List.exists_cons_of_ne_nil (List.ne_nil_of_mem hgroup)
  have hhead : (zoneGroups zoneAssignments buildings indices)[0]? = some group := by
    rw [hgroups, List.getElem?_cons_zero]
  have hmem := List.mem_of_getElem? hhead
  obtain ⟨index, rest, rfl⟩ := List.exists_cons_of_ne_nil (mem_zoneGroups.mp hmem).2
  refine ⟨index, subset_of_mem_zoneGroups hmem List.mem_cons_self, ?_⟩
  rw [rect_layoutBoundaryLocal hnodup hhead List.mem_cons_self, zoneRect, zonePlace,
    zoneOffset_zero, Rect.move, x_layoutGroup_head (nodup_of_mem_zoneGroups hnodup hmem)]
  simpa using hpadding

end CodeCity
end Bitloops
