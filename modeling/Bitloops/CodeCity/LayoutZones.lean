import Bitloops.CodeCity.LayoutGroups
import Bitloops.Foundation.LocalSteps
import Mathlib.Data.List.Induction

/-!
# The zones of a boundary

The groups of a boundary are laid out one by one, `layoutZones_apply`, and then each is moved to
the place its strategy has for it, `zoneLoop_apply`.  The place of a zone is written out in
`zoneOffset`: bands and strips add up what stands before, all other strategies go by the number of
the zone and the size of the zone itself.
-/

namespace Bitloops
namespace CodeCity

open Packing LocalSteps

variable {n : ℕ} {layout : LayoutConfig} {strategy : LayoutStrategy} {indices : List (Fin n)}
  {buildings buildings' : Fin n → Building} {groups : List (List (Fin n))}
  {frames : List (ZoneFrame n)} {dx dz : ℚ}

/-! ## Moving buildings -/

theorem shiftAll_of_notMem {index : Fin n} (h : index ∉ indices) :
    shiftAll dx dz buildings indices index = buildings index := by
  rw [shiftAll]
  induction indices generalizing buildings with
  | nil => rfl
  | cons other indices ih =>
    rw [List.mem_cons, not_or] at h
    rw [List.foldl_cons, ih h.2, Function.update_of_ne h.1]

theorem shiftAll_of_mem (hnodup : indices.Nodup) {index : Fin n} (h : index ∈ indices) :
    shiftAll dx dz buildings indices index = (buildings index).shift dx dz := by
  induction indices generalizing buildings with
  | nil => exact absurd h List.not_mem_nil
  | cons other indices ih =>
    obtain ⟨hother, hnodup⟩ := List.nodup_cons.mp hnodup
    have hcons : shiftAll dx dz buildings (other :: indices) =
        shiftAll dx dz (Function.update buildings other ((buildings other).shift dx dz)) indices :=
      rfl
    rw [hcons]
    rcases List.mem_cons.mp h with rfl | hmem
    · rw [shiftAll_of_notMem hother, Function.update_self]
    · have hne : index ≠ other := fun heq : index = other => hother (heq ▸ hmem)
      rw [ih hnodup hmem, Function.update_of_ne hne]

theorem rect_shift (building : Building) (dx dz : ℚ) :
    (building.shift dx dz).rect = building.rect.move dx dz :=
  rfl

/-! ## The groups one by one -/

def zoneFrame (layout : LayoutConfig) (buildings : Fin n → Building) (group : List (Fin n)) :
    ZoneFrame n :=
  ⟨group, (layoutGroup layout buildings group).2.1, (layoutGroup layout buildings group).2.2⟩

def layoutZone (layout : LayoutConfig) (buildings : Fin n → Building) (group : List (Fin n)) :
    (Fin n → Building) × ZoneFrame n :=
  ((layoutGroup layout buildings group).1, zoneFrame layout buildings group)

theorem layoutZones_eq_runSteps : layoutZones layout buildings groups =
    runSteps (layoutZone layout) (buildings, []) groups :=
  rfl

theorem local_layoutZone : Local id (layoutZone (n := n) layout) where
  frame _ _ _ h := layoutGroup_of_notMem h
  congr _ _ _ h := by
    obtain ⟨hbuildings, hframe⟩ := @layoutGroup_congr _ layout _ _ _ h
    simp only [id] at hframe
    refine ⟨hbuildings, ?_⟩
    simp only [layoutZone, zoneFrame, hframe]

section Groups

variable (hdisjoint : groups.Pairwise List.Disjoint)

include hdisjoint

theorem layoutZones_apply {group : List (Fin n)} (hgroup : group ∈ groups) {index : Fin n}
    (hindex : index ∈ group) :
    (layoutZones layout buildings groups).1 index =
      (layoutGroup layout buildings group).1 index :=
  runSteps_apply local_layoutZone hdisjoint (buildings, []) hgroup hindex

theorem snd_layoutZones :
    (layoutZones layout buildings groups).2 = groups.map (zoneFrame layout buildings) :=
  snd_runSteps local_layoutZone hdisjoint (buildings, [])

end Groups

theorem layoutZones_of_notMem {index : Fin n} (h : ∀ group ∈ groups, index ∉ group) :
    (layoutZones layout buildings groups).1 index = buildings index :=
  runSteps_of_notMem local_layoutZone (buildings, []) h

/-! ## The places of the zones -/

/-- Where the zone of the given number goes. -/
def zoneOffset (layout : LayoutConfig) (strategy : LayoutStrategy) (frames : List (ZoneFrame n))
    (k : ℕ) (frame : ZoneFrame n) : ℚ × ℚ :=
  match strategy with
  | .layeredBands => (0, stackOffset layout.zoneGap (frames.map ZoneFrame.depth) k)
  | .pipeAndFilterStrip => (stackOffset layout.zoneGap (frames.map ZoneFrame.width) k, 0)
  | _ => ((k % 2 : ℕ) * (frame.width + layout.zoneGap), (k / 2 : ℕ) * (frame.depth + layout.zoneGap))

def zoneLoop (layout : LayoutConfig) (strategy : LayoutStrategy) (buildings : Fin n → Building)
    (frames : List (ZoneFrame n)) : ZoneState n :=
  frames.foldl (zoneStep layout strategy) { buildings }

theorem zoneLoop_concat (frame : ZoneFrame n) :
    zoneLoop layout strategy buildings (frames ++ [frame]) =
      zoneStep layout strategy (zoneLoop layout strategy buildings frames) frame := by
  rw [zoneLoop, List.foldl_append]
  rfl

theorem ordinal_zoneLoop :
    (zoneLoop layout strategy buildings frames).ordinal = frames.length := by
  induction frames using List.reverseRecOn with
  | nil => rfl
  | append_singleton frames frame ih =>
    rw [zoneLoop_concat, List.length_append, List.length_singleton, ← ih]
    rfl

theorem currentZ_zoneLoop :
    (zoneLoop layout .layeredBands buildings frames).currentZ =
      ((frames.map ZoneFrame.depth).map (· + layout.zoneGap)).sum := by
  induction frames using List.reverseRecOn with
  | nil => rfl
  | append_singleton frames frame ih =>
    rw [zoneLoop_concat, List.map_append, List.map_append, List.sum_append, ← ih]
    simp [zoneStep]

theorem currentX_zoneLoop :
    (zoneLoop layout .pipeAndFilterStrip buildings frames).currentX =
      ((frames.map ZoneFrame.width).map (· + layout.zoneGap)).sum := by
  induction frames using List.reverseRecOn with
  | nil => rfl
  | append_singleton frames frame ih =>
    rw [zoneLoop_concat, List.map_append, List.map_append, List.sum_append, ← ih]
    simp [zoneStep]

theorem zoneOffset_append {k : ℕ} (hk : k ≤ frames.length) (later : List (ZoneFrame n))
    (frame : ZoneFrame n) :
    zoneOffset layout strategy (frames ++ later) k frame =
      zoneOffset layout strategy frames k frame := by
  cases strategy with
  | layeredBands | pipeAndFilterStrip =>
    simp only [zoneOffset, stackOffset, List.map_append]
    rw [List.take_append_of_le_length (by rwa [List.length_map])]
  | _ => rfl

/-- The zone after the given ones goes to its place. -/
theorem zoneShift_zoneLoop (frame : ZoneFrame n) :
    zoneShift layout strategy (zoneLoop layout strategy buildings frames) frame =
      zoneOffset layout strategy frames frames.length frame := by
  cases strategy with
  | layeredBands => simp [zoneShift, zoneOffset, currentZ_zoneLoop, stackOffset, List.take_of_length_le]
  | pipeAndFilterStrip => simp [zoneShift, zoneOffset, currentX_zoneLoop, stackOffset, List.take_of_length_le]
  | _ => simp [zoneShift, zoneOffset, ordinal_zoneLoop]

theorem zoneLoop_of_notMem {index : Fin n} (h : ∀ frame ∈ frames, index ∉ frame.indices) :
    (zoneLoop layout strategy buildings frames).buildings index = buildings index := by
  induction frames using List.reverseRecOn with
  | nil => rfl
  | append_singleton frames frame ih =>
    rw [List.forall_mem_append] at h
    rw [zoneLoop_concat, ← ih h.1]
    exact shiftAll_of_notMem (h.2 frame (List.mem_singleton_self frame))

theorem buildings_zoneLoop_concat (frame : ZoneFrame n) :
    (zoneLoop layout strategy buildings (frames ++ [frame])).buildings =
      shiftAll (zoneOffset layout strategy frames frames.length frame).1
        (zoneOffset layout strategy frames frames.length frame).2
        (zoneLoop layout strategy buildings frames).buildings frame.indices := by
  rw [zoneLoop_concat, ← @zoneShift_zoneLoop _ _ _ buildings _]
  rfl

/-- Each building moves to the place of its zone. -/
theorem zoneLoop_apply (hnodup : ∀ frame ∈ frames, frame.indices.Nodup)
    (hdisjoint : frames.Pairwise fun frame frame' => frame.indices.Disjoint frame'.indices)
    {k : ℕ} (hk : k < frames.length) {index : Fin n} (hindex : index ∈ frames[k].indices) :
    (zoneLoop layout strategy buildings frames).buildings index =
      (buildings index).shift (zoneOffset layout strategy frames k frames[k]).1
        (zoneOffset layout strategy frames k frames[k]).2 := by
  induction frames using List.reverseRecOn with
  | nil => exact absurd hk (Nat.not_lt_zero k)
  | append_singleton frames frame ih =>
    obtain ⟨hnodups, hlast⟩ := List.forall_mem_append.mp hnodup
    obtain ⟨hpairwise, -, hdisjoint⟩ := List.pairwise_append.mp hdisjoint
    rw [buildings_zoneLoop_concat]
    rcases Nat.lt_or_ge k frames.length with hlt | hge
    · -- the last zone has other buildings
      simp only [List.getElem_append_left hlt] at hindex ⊢
      have hnotMem : index ∉ frame.indices :=
        hdisjoint _ (List.getElem_mem hlt) frame (List.mem_singleton_self frame) hindex
      rw [shiftAll_of_notMem hnotMem, ih hnodups hpairwise hlt hindex,
        zoneOffset_append hlt.le]
    · have heq : k = frames.length := by
        rw [List.length_append, List.length_singleton] at hk
        omega
      subst heq
      simp only [List.getElem_concat_length] at hindex ⊢
      have hnotMem : ∀ earlier ∈ frames, index ∉ earlier.indices := fun earlier hearlier hmem =>
        hdisjoint earlier hearlier frame (List.mem_singleton_self frame) hmem hindex
      rw [shiftAll_of_mem (hlast frame (List.mem_singleton_self frame)) hindex,
        zoneLoop_of_notMem hnotMem, zoneOffset_append (le_refl _)]

/-- The frame of the boundary reaches to the end of each zone. -/
theorem zoneLoop_le_max {k : ℕ} (hk : k < frames.length) :
    (zoneOffset layout strategy frames k frames[k]).1 + frames[k].width ≤
        (zoneLoop layout strategy buildings frames).maxWidth ∧
      (zoneOffset layout strategy frames k frames[k]).2 + frames[k].depth ≤
        (zoneLoop layout strategy buildings frames).maxDepth := by
  induction frames using List.reverseRecOn with
  | nil => exact absurd hk (Nat.not_lt_zero k)
  | append_singleton frames frame ih =>
    have hshift := @zoneShift_zoneLoop _ layout strategy buildings frames frame
    rw [zoneLoop_concat]
    rcases Nat.lt_or_ge k frames.length with hlt | hge
    · simp only [List.getElem_append_left hlt]
      rw [zoneOffset_append hlt.le]
      exact ⟨(ih hlt).1.trans (le_max_left _ _), (ih hlt).2.trans (le_max_left _ _)⟩
    · have heq : k = frames.length := by
        rw [List.length_append, List.length_singleton] at hk
        omega
      subst heq
      simp only [List.getElem_concat_length]
      rw [zoneOffset_append (le_refl _), ← hshift]
      exact ⟨le_max_right _ _, le_max_right _ _⟩

theorem zoneLoop_max_nonneg : 0 ≤ (zoneLoop layout strategy buildings frames).maxWidth ∧
    0 ≤ (zoneLoop layout strategy buildings frames).maxDepth := by
  induction frames using List.reverseRecOn with
  | nil => exact ⟨le_refl _, le_refl _⟩
  | append_singleton frames frame ih =>
    rw [zoneLoop_concat]
    exact ⟨ih.1.trans (le_max_left _ _), ih.2.trans (le_max_left _ _)⟩

/-- The frame of the boundary comes from the frames of the zones alone. -/
theorem zoneLoop_max_congr (buildings buildings' : Fin n → Building) :
    (zoneLoop layout strategy buildings frames).maxWidth =
        (zoneLoop layout strategy buildings' frames).maxWidth ∧
      (zoneLoop layout strategy buildings frames).maxDepth =
        (zoneLoop layout strategy buildings' frames).maxDepth := by
  induction frames using List.reverseRecOn with
  | nil => exact ⟨rfl, rfl⟩
  | append_singleton frames frame ih =>
    rw [zoneLoop_concat, zoneLoop_concat]
    simp only [zoneStep, zoneShift_zoneLoop, ih, and_self]

/-! ## The groups of a boundary -/

section Zones

variable {zoneAssignments : String → Option Zone}

theorem Zone.mem_ordered (zone : Zone) : zone ∈ Zone.ordered := by
  cases zone <;> simp [Zone.ordered]

/-- The buildings of one zone. -/
def zoneGroup (zoneAssignments : String → Option Zone) (buildings : Fin n → Building)
    (indices : List (Fin n)) (zone : Zone) : List (Fin n) :=
  orderBy (fun index => (buildings index).path)
    (indices.filter fun index => zoneOf zoneAssignments (buildings index) = zone)

theorem mem_zoneGroup {zone : Zone} {index : Fin n} :
    index ∈ zoneGroup zoneAssignments buildings indices zone ↔
      index ∈ indices ∧ zoneOf zoneAssignments (buildings index) = zone := by
  rw [zoneGroup, mem_orderBy, List.mem_filter, decide_eq_true_eq]

theorem mem_zoneGroups {group : List (Fin n)} :
    group ∈ zoneGroups zoneAssignments buildings indices ↔
      (∃ zone, zoneGroup zoneAssignments buildings indices zone = group) ∧ group ≠ [] := by
  rw [zoneGroups, List.mem_filter, List.mem_map, decide_eq_true_eq]
  refine and_congr_left fun _ => exists_congr fun zone => ?_
  exact and_iff_right (Zone.mem_ordered zone)

theorem subset_of_mem_zoneGroups {group : List (Fin n)}
    (h : group ∈ zoneGroups zoneAssignments buildings indices) : group ⊆ indices := by
  obtain ⟨⟨zone, rfl⟩, -⟩ := mem_zoneGroups.mp h
  exact fun index hindex => (mem_zoneGroup.mp hindex).1

/-- Every building stands in some zone. -/
theorem exists_mem_zoneGroups {index : Fin n} (h : index ∈ indices) :
    ∃ group ∈ zoneGroups zoneAssignments buildings indices, index ∈ group := by
  have hmem : index ∈ zoneGroup zoneAssignments buildings indices
      (zoneOf zoneAssignments (buildings index)) := mem_zoneGroup.mpr ⟨h, rfl⟩
  exact ⟨_, mem_zoneGroups.mpr ⟨⟨_, rfl⟩, List.ne_nil_of_mem hmem⟩, hmem⟩

theorem nodup_of_mem_zoneGroups (hnodup : indices.Nodup) {group : List (Fin n)}
    (h : group ∈ zoneGroups zoneAssignments buildings indices) : group.Nodup := by
  obtain ⟨⟨zone, rfl⟩, -⟩ := mem_zoneGroups.mp h
  exact (perm_orderBy _ _).nodup_iff.mpr (hnodup.filter _)

theorem disjoint_zoneGroups :
    (zoneGroups zoneAssignments buildings indices).Pairwise List.Disjoint := by
  refine List.Pairwise.filter _ (List.pairwise_map.mpr ?_)
  have hordered : Zone.ordered.Nodup := by decide
  refine hordered.imp fun {zone zone'} hne index hindex hindex' => hne ?_
  exact (mem_zoneGroup.mp hindex).2.symm.trans (mem_zoneGroup.mp hindex').2

theorem zoneGroups_congr (h : ∀ index ∈ indices, buildings index = buildings' index) :
    zoneGroups zoneAssignments buildings indices =
      zoneGroups zoneAssignments buildings' indices := by
  have hgroup : ∀ zone, zoneGroup zoneAssignments buildings indices zone =
      zoneGroup zoneAssignments buildings' indices zone := by
    intro zone
    have hfilter : (indices.filter fun index =>
          zoneOf zoneAssignments (buildings index) = zone) =
        indices.filter fun index => zoneOf zoneAssignments (buildings' index) = zone :=
      List.filter_congr fun index hindex => by rw [h index hindex]
    rw [zoneGroup, zoneGroup, hfilter]
    exact orderBy_congr fun index hindex => by rw [h index (List.mem_filter.mp hindex).1]
  exact congrArg (List.filter _) (List.map_congr_left fun zone _ => hgroup zone)

/-! ## The boundary -/

/-- The frames of the zones, each group laid out on its own. -/
def zoneFrames (layout : LayoutConfig) (zoneAssignments : String → Option Zone)
    (buildings : Fin n → Building) (indices : List (Fin n)) : List (ZoneFrame n) :=
  (zoneGroups zoneAssignments buildings indices).map (zoneFrame layout buildings)

theorem layoutBoundaryLocal_of_notMem {index : Fin n} (h : index ∉ indices) :
    (layoutBoundaryLocal layout zoneAssignments strategy buildings indices).1 index =
      buildings index := by
  have hnotMem : ∀ group ∈ zoneGroups zoneAssignments buildings indices, index ∉ group :=
    fun group hgroup hindex => h (subset_of_mem_zoneGroups hgroup hindex)
  rw [layoutBoundaryLocal]
  split_ifs
  · rfl
  · change (zoneLoop layout strategy _ _).buildings index = _
    rw [snd_layoutZones disjoint_zoneGroups, zoneLoop_of_notMem,
      layoutZones_of_notMem hnotMem]
    rintro frame hframe
    obtain ⟨group, hgroup, rfl⟩ := List.mem_map.mp hframe
    exact hnotMem group hgroup

section Boundary

variable {index : Fin n}

theorem nodup_of_mem_zoneFrames (hnodup : indices.Nodup) :
    ∀ frame ∈ zoneFrames layout zoneAssignments buildings indices, frame.indices.Nodup :=
  List.forall_mem_map.mpr fun _ hgroup => nodup_of_mem_zoneGroups hnodup hgroup

theorem disjoint_zoneFrames :
    (zoneFrames layout zoneAssignments buildings indices).Pairwise
      fun frame frame' => frame.indices.Disjoint frame'.indices :=
  List.pairwise_map.mpr disjoint_zoneGroups

theorem layoutBoundaryLocal_of_ne_nil (h : indices ≠ []) :
    layoutBoundaryLocal layout zoneAssignments strategy buildings indices =
      let state := zoneLoop layout strategy
        (layoutZones layout buildings (zoneGroups zoneAssignments buildings indices)).1
        (zoneFrames layout zoneAssignments buildings indices)
      (state.buildings, state.maxWidth, state.maxDepth,
        (zoneFrames layout zoneAssignments buildings indices).length) := by
  rw [layoutBoundaryLocal, if_neg h, zoneFrames, ← snd_layoutZones disjoint_zoneGroups]
  rfl

/-- Where the strategy puts the zone. -/
def zonePlace (layout : LayoutConfig) (zoneAssignments : String → Option Zone)
    (strategy : LayoutStrategy) (buildings : Fin n → Building) (indices : List (Fin n)) (k : ℕ)
    (group : List (Fin n)) : ℚ × ℚ :=
  zoneOffset layout strategy (zoneFrames layout zoneAssignments buildings indices) k
    (zoneFrame layout buildings group)

/-- The rectangle of the building in the rows of its zone, moved to the place of the zone. -/
def zoneRect (layout : LayoutConfig) (zoneAssignments : String → Option Zone)
    (strategy : LayoutStrategy) (buildings : Fin n → Building) (indices : List (Fin n)) (k : ℕ)
    (group : List (Fin n)) (index : Fin n) : Rect ℚ :=
  ((layoutGroup layout buildings group).1 index).rect.move
    (zonePlace layout zoneAssignments strategy buildings indices k group).1
    (zonePlace layout zoneAssignments strategy buildings indices k group).2

variable {k : ℕ} {group : List (Fin n)}

theorem layoutBoundaryLocal_apply (hnodup : indices.Nodup)
    (hgroup : (zoneGroups zoneAssignments buildings indices)[k]? = some group)
    (hindex : index ∈ group) :
    (layoutBoundaryLocal layout zoneAssignments strategy buildings indices).1 index =
      ((layoutGroup layout buildings group).1 index).shift
        (zonePlace layout zoneAssignments strategy buildings indices k group).1
        (zonePlace layout zoneAssignments strategy buildings indices k group).2 := by
  obtain ⟨hk, rfl⟩ := List.getElem?_eq_some_iff.mp hgroup
  have hmem := List.getElem_mem hk
  have hne : indices ≠ [] := List.ne_nil_of_mem (subset_of_mem_zoneGroups hmem hindex)
  have hlength : k < (zoneFrames layout zoneAssignments buildings indices).length := by
    rwa [zoneFrames, List.length_map]
  have hframe : (zoneFrames layout zoneAssignments buildings indices)[k] =
      zoneFrame layout buildings (zoneGroups zoneAssignments buildings indices)[k] := by
    simp only [zoneFrames, List.getElem_map]
  rw [layoutBoundaryLocal_of_ne_nil hne]
  simp only
  rw [zoneLoop_apply (nodup_of_mem_zoneFrames hnodup) disjoint_zoneFrames hlength
    (by rw [hframe]; exact hindex), hframe, layoutZones_apply disjoint_zoneGroups hmem hindex]
  rfl

theorem rect_layoutBoundaryLocal (hnodup : indices.Nodup)
    (hgroup : (zoneGroups zoneAssignments buildings indices)[k]? = some group)
    (hindex : index ∈ group) :
    ((layoutBoundaryLocal layout zoneAssignments strategy buildings indices).1 index).rect =
      zoneRect layout zoneAssignments strategy buildings indices k group index := by
  rw [layoutBoundaryLocal_apply hnodup hgroup hindex, rect_shift, zoneRect]

/-- Nothing but the buildings of the boundary has a say in its layout. -/
theorem layoutBoundaryLocal_congr (hnodup : indices.Nodup)
    (h : ∀ index ∈ indices, buildings index = buildings' index) :
    (∀ index ∈ indices,
        (layoutBoundaryLocal layout zoneAssignments strategy buildings indices).1 index =
          (layoutBoundaryLocal layout zoneAssignments strategy buildings' indices).1 index) ∧
      (layoutBoundaryLocal layout zoneAssignments strategy buildings indices).2 =
        (layoutBoundaryLocal layout zoneAssignments strategy buildings' indices).2 := by
  have hgroups := @zoneGroups_congr _ _ _ _ zoneAssignments h
  have hgroup : ∀ group ∈ zoneGroups zoneAssignments buildings indices, ∀ index ∈ group,
      buildings index = buildings' index :=
    fun group hmem index hindex => h index (subset_of_mem_zoneGroups hmem hindex)
  have hframe : ∀ group ∈ zoneGroups zoneAssignments buildings indices,
      zoneFrame layout buildings group = zoneFrame layout buildings' group := by
    intro group hmem
    rw [zoneFrame, zoneFrame, (layoutGroup_congr (hgroup group hmem)).2]
  have hframes : zoneFrames layout zoneAssignments buildings indices =
      zoneFrames layout zoneAssignments buildings' indices := by
    rw [zoneFrames, zoneFrames, ← hgroups]
    exact List.map_congr_left hframe
  constructor
  · intro index hindex
    obtain ⟨group, hmem, hindex⟩ :=
      @exists_mem_zoneGroups _ _ buildings zoneAssignments _ hindex
    obtain ⟨k, hk⟩ := List.mem_iff_getElem?.mp hmem
    rw [layoutBoundaryLocal_apply hnodup hk hindex,
      layoutBoundaryLocal_apply hnodup (hgroups ▸ hk) hindex,
      (layoutGroup_congr (hgroup group hmem)).1 index hindex, zonePlace, zonePlace, hframes,
      hframe group hmem]
  · by_cases hne : indices = []
    · rw [layoutBoundaryLocal, layoutBoundaryLocal, if_pos hne, if_pos hne]
    · rw [layoutBoundaryLocal_of_ne_nil hne, layoutBoundaryLocal_of_ne_nil hne, ← hframes]
      obtain ⟨hwidth, hdepth⟩ := @zoneLoop_max_congr _ layout strategy (zoneFrames layout zoneAssignments buildings indices)
        (layoutZones layout buildings (zoneGroups zoneAssignments buildings indices)).1
        (layoutZones layout buildings' (zoneGroups zoneAssignments buildings' indices)).1
      simp only [hwidth, hdepth]

end Boundary

end Zones

end CodeCity
end Bitloops
