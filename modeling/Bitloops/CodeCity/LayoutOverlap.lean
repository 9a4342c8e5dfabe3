import Bitloops.CodeCity.LayoutPositions

/-!
# Overlaps in the city

When no two buildings of the city overlap and every building lies in the frame of its boundary,
`LayoutInput.sound_iff`.  Bands and strips are always in order; the other strategies put a zone at
a multiple of its own size, whatever stands before it, so that a small zone lands in a large one,
`overlap_of_large_core`.
-/

namespace Bitloops
namespace CodeCity

open Packing LocalSteps

variable {n : ℕ}

/-! ## What the city is laid out from -/

structure LayoutInput (n : ℕ) where
  star : StarPositions
  buildings : Fin n → Building
  boundaries : List Boundary
  reports : List ArchitectureReport
  macroGraph : MacroGraph
  zoneAssignments : String → Option Zone
  layout : LayoutConfig
  nodup_ids : (boundaries.map Boundary.id).Nodup
  hasSides : HasSides buildings
  boundary_mem : ∀ index, (buildings index).boundaryId ∈ boundaries.map Boundary.id
  buildingGap_nonneg : 0 ≤ layout.buildingGap
  zoneGap_nonneg : 0 ≤ layout.zoneGap
  worldGap_nonneg : 0 ≤ layout.worldGap
  topology_ne_star : macroGraph.topology ≠ .star

namespace LayoutInput

variable (city : LayoutInput n)

def result : (Fin n → Building) × List BoundaryLayout :=
  applyArchitectureLayout city.star city.buildings city.boundaries city.reports city.macroGraph
    city.zoneAssignments city.layout

def NoOverlap : Prop :=
  ∀ index index', index ≠ index' →
    Apart (city.result.1 index).rect (city.result.1 index').rect

/-- Every building lies in the frame of its boundary. -/
def Framed : Prop :=
  ∀ index, ∃ boundary ∈ city.result.2,
    boundary.boundaryId = (city.buildings index).boundaryId ∧
      Within (city.result.1 index).rect
        ⟨boundary.x, boundary.z, boundary.width, boundary.depth⟩

def strategyOf (boundary : Boundary) : LayoutStrategy :=
  selectStrategy boundary (reportOf city.reports boundary.id)

def groupsOf (boundary : Boundary) : List (List (Fin n)) :=
  zoneGroups city.zoneAssignments city.buildings (indicesOf city.buildings boundary.id)

/-- Where the building of the given zone of the boundary stands before the boundary is moved. -/
def rectOf (boundary : Boundary) (k : ℕ) (group : List (Fin n)) (index : Fin n) : Rect ℚ :=
  zoneRect city.layout city.zoneAssignments (city.strategyOf boundary) city.buildings
    (indicesOf city.buildings boundary.id) k group index

/-- The building stands in the given group of the boundary. -/
structure Stands (boundary : Boundary) (k : ℕ) (group : List (Fin n)) (index : Fin n) :
    Prop where
  boundary_mem : boundary ∈ city.boundaries
  group_eq : (city.groupsOf boundary)[k]? = some group
  mem : index ∈ group

/-- The zones of a boundary whose strategy adds nothing up do not reach into each other, and
neither do the boundaries of a city that should have only one. -/
structure Clear : Prop where
  padding : 0 ≤ city.layout.buildingPadding ∨ n = 0
  zones : ∀ boundary, ¬ (city.strategyOf boundary).Stacks → ∀ k l group group' index index',
    k < l → city.Stands boundary k group index → city.Stands boundary l group' index' →
      Apart (city.rectOf boundary k group index) (city.rectOf boundary l group' index')
  boundaries : city.macroGraph.topology = .singleBoundary →
    ∀ boundary boundary' k l group group' index index', boundary ≠ boundary' →
      city.Stands boundary k group index → city.Stands boundary' l group' index' →
        Apart (city.rectOf boundary k group index) (city.rectOf boundary' l group' index')

/-! ## The boundaries on their own -/

theorem mem_indicesOf {buildings : Fin n → Building} {id : String} {index : Fin n} :
    index ∈ indicesOf buildings id ↔ (buildings index).boundaryId = id := by
  rw [indicesOf, List.mem_filter, decide_eq_true_eq]
  exact and_iff_right (List.mem_finRange index)

theorem nodup_indicesOf (buildings : Fin n → Building) (id : String) :
    (indicesOf buildings id).Nodup :=
  (List.nodup_finRange n).filter _

theorem disjoint_indicesOf {buildings : Fin n → Building} {id id' : String} (h : id ≠ id') :
    (indicesOf buildings id).Disjoint (indicesOf buildings id') :=
  fun _ hindex hindex' => h ((mem_indicesOf.mp hindex).symm.trans (mem_indicesOf.mp hindex'))

def boundaryStep (buildings : Fin n → Building) (boundary : Boundary) :
    (Fin n → Building) × BoundaryLayout :=
  let placed := layoutBoundaryLocal city.layout city.zoneAssignments (city.strategyOf boundary)
    buildings (indicesOf city.buildings boundary.id)
  (placed.1,
    { boundaryId := boundary.id
      strategy := city.strategyOf boundary
      zoneCount := placed.2.2.2
      width := placed.2.1
      depth := placed.2.2.1 })

theorem local_boundaryStep :
    Local (fun boundary => indicesOf city.buildings boundary.id) city.boundaryStep where
  frame _ _ _ h := layoutBoundaryLocal_of_notMem h
  congr _ _ boundary h := by
    obtain ⟨hbuildings, hsizes⟩ := @layoutBoundaryLocal_congr _ city.layout (city.strategyOf boundary) _ _ _ city.zoneAssignments
      (nodup_indicesOf _ _) h
    refine ⟨hbuildings, ?_⟩
    simp only [boundaryStep, hsizes]

def placed : (Fin n → Building) × List BoundaryLayout :=
  layoutBoundaries city.layout city.zoneAssignments city.reports city.buildings city.boundaries

theorem placed_eq_runSteps :
    city.placed = runSteps city.boundaryStep (city.buildings, []) city.boundaries :=
  rfl

theorem disjoint_boundaries : city.boundaries.Pairwise fun boundary boundary' =>
    (indicesOf city.buildings boundary.id).Disjoint (indicesOf city.buildings boundary'.id) :=
  (List.pairwise_map.mp city.nodup_ids).imp disjoint_indicesOf

/-- The layout of a boundary on its own. -/
def layoutOf (boundary : Boundary) : BoundaryLayout := (city.boundaryStep city.buildings boundary).2

theorem snd_placed : city.placed.2 = city.boundaries.map city.layoutOf :=
  snd_runSteps city.local_boundaryStep city.disjoint_boundaries (city.buildings, [])

theorem nodup_placed : (city.placed.2.map BoundaryLayout.boundaryId).Nodup := by
  rw [snd_placed, List.map_map]
  exact city.nodup_ids

theorem frame_layoutOf (boundary : Boundary) :
    (city.layoutOf boundary).frame =
      boundaryFrame city.layout city.zoneAssignments (city.strategyOf boundary) city.buildings
        (indicesOf city.buildings boundary.id) :=
  rfl

variable {city} {boundary boundary' : Boundary} {k l : ℕ} {group group' : List (Fin n)}
  {index index' : Fin n}

theorem Stands.mem_indicesOf (h : city.Stands boundary k group index) :
    index ∈ indicesOf city.buildings boundary.id :=
  subset_of_mem_zoneGroups (List.mem_of_getElem? h.group_eq) h.mem

theorem placed_apply (h : city.Stands boundary k group index) :
    (city.placed.1 index).rect = city.rectOf boundary k group index := by
  rw [placed_eq_runSteps, runSteps_apply city.local_boundaryStep city.disjoint_boundaries _
    h.boundary_mem h.mem_indicesOf]
  exact rect_layoutBoundaryLocal (nodup_indicesOf _ _) h.group_eq h.mem

variable (city) in
theorem exists_stands (index : Fin n) :
    ∃ boundary k group, city.Stands boundary k group index := by
  obtain ⟨boundary, hboundary, hid⟩ := List.mem_map.mp (city.boundary_mem index)
  obtain ⟨group, hgroup, hindex⟩ := @exists_mem_zoneGroups _ _ city.buildings city.zoneAssignments _
    (LayoutInput.mem_indicesOf.mpr hid.symm)
  obtain ⟨k, hk⟩ := List.mem_iff_getElem?.mp hgroup
  exact ⟨boundary, k, group, hboundary, hk, hindex⟩

/-- A building stands in one boundary only. -/
theorem Stands.boundary_eq (h : city.Stands boundary k group index)
    (h' : city.Stands boundary' l group' index) : boundary = boundary' :=
  List.inj_on_of_nodup_map city.nodup_ids h.boundary_mem h'.boundary_mem
    ((LayoutInput.mem_indicesOf.mp h.mem_indicesOf).symm.trans
      (LayoutInput.mem_indicesOf.mp h'.mem_indicesOf))

/-- A building stands in one zone only. -/
theorem Stands.zone_eq (h : city.Stands boundary k group index)
    (h' : city.Stands boundary l group' index) : k = l := by
  by_contra hne
  obtain ⟨hk, hgroup⟩ := List.getElem?_eq_some_iff.mp h.group_eq
  obtain ⟨hl, hgroup'⟩ := List.getElem?_eq_some_iff.mp h'.group_eq
  have hdisjoint : ((city.groupsOf boundary)[k]).Disjoint (city.groupsOf boundary)[l] := by
    rcases Nat.lt_or_gt_of_ne hne with hlt | hgt
    · exact List.pairwise_iff_getElem.mp disjoint_zoneGroups _ _ hk hl hlt
    · exact (List.pairwise_iff_getElem.mp disjoint_zoneGroups _ _ hl hk hgt).symm
  rw [hgroup, hgroup'] at hdisjoint
  exact hdisjoint h.mem h'.mem

/-! ## The moves of the boundaries -/

variable (city) in
def positions : Positions :=
  positionBoundaries city.star city.macroGraph (max city.layout.worldGap city.layout.buildingGap)
    city.placed.2

variable (city) in
/-- The move of a boundary. -/
def moveStep (buildings : Fin n → Building) (boundary : BoundaryLayout) :
    (Fin n → Building) × BoundaryLayout :=
  (shiftAll (positionOf city.positions boundary.boundaryId).1
      (positionOf city.positions boundary.boundaryId).2 buildings
      (indicesOf city.buildings boundary.boundaryId),
    { boundary with
      x := (positionOf city.positions boundary.boundaryId).1
      z := (positionOf city.positions boundary.boundaryId).2 })

theorem local_moveStep :
    Local (fun boundary => indicesOf city.buildings boundary.boundaryId) city.moveStep where
  frame _ _ _ h := shiftAll_of_notMem h
  congr _ _ _ h := by
    refine ⟨fun index hindex => ?_, rfl⟩
    simp only [moveStep]
    rw [shiftAll_of_mem (nodup_indicesOf _ _) hindex, shiftAll_of_mem (nodup_indicesOf _ _) hindex,
      h index hindex]

theorem result_eq_runSteps :
    city.result = runSteps city.moveStep (city.placed.1, []) city.placed.2 :=
  rfl

theorem disjoint_placed : city.placed.2.Pairwise fun boundary boundary' =>
    (indicesOf city.buildings boundary.boundaryId).Disjoint
      (indicesOf city.buildings boundary'.boundaryId) :=
  (List.pairwise_map.mp city.nodup_placed).imp disjoint_indicesOf

theorem snd_result :
    city.result.2 =
      city.boundaries.map fun boundary =>
        (city.moveStep city.placed.1 (city.layoutOf boundary)).2 := by
  rw [result_eq_runSteps, snd_runSteps local_moveStep disjoint_placed, snd_placed, List.map_map]
  rfl

theorem rect_result (h : city.Stands boundary k group index) :
    (city.result.1 index).rect =
      (city.rectOf boundary k group index).move (positionOf city.positions boundary.id).1
        (positionOf city.positions boundary.id).2 := by
  have hmem : city.layoutOf boundary ∈ city.placed.2 := by
    rw [snd_placed]
    exact List.mem_map_of_mem h.boundary_mem
  have hindex : index ∈ indicesOf city.buildings (city.layoutOf boundary).boundaryId :=
    h.mem_indicesOf
  rw [result_eq_runSteps, runSteps_apply local_moveStep disjoint_placed _ hmem hindex]
  simp only [moveStep]
  rw [shiftAll_of_mem (nodup_indicesOf _ _) hindex, rect_shift, placed_apply h]
  rfl

theorem pairwise_framed (hsingle : city.macroGraph.topology ≠ .singleBoundary) :
    city.boundaries.Pairwise fun boundary boundary' =>
      Apart (framed city.positions (city.layoutOf boundary))
        (framed city.positions (city.layoutOf boundary')) := by
  have hframes : ∀ boundary ∈ city.placed.2, 0 ≤ boundary.width ∧ 0 ≤ boundary.depth := by
    rw [snd_placed]
    exact List.forall_mem_map.mpr fun _ _ => boundaryFrame_nonneg
  have hpairwise := @pairwise_positionBoundaries _ _ city.star _ city.topology_ne_star hsingle
    (city.worldGap_nonneg.trans (le_max_left _ city.layout.buildingGap)) city.nodup_placed hframes
  rw [snd_placed, List.pairwise_map] at hpairwise
  rw [positions, snd_placed]
  exact hpairwise

/-! ## Overlaps -/

theorem within_framed (hpadding : 0 ≤ city.layout.buildingPadding)
    (h : city.Stands boundary k group index) :
    Within (city.result.1 index).rect (framed city.positions (city.layoutOf boundary)) := by
  rw [rect_result h]
  exact (within_zoneRect h.group_eq hpadding city.buildingGap_nonneg city.zoneGap_nonneg
    city.hasSides (nodup_indicesOf _ _) h.mem).move _ _

/-- Two zones of one boundary. -/
theorem apart_of_lt (hclear : city.Clear) (hpadding : 0 ≤ city.layout.buildingPadding)
    (h : city.Stands boundary k group index) (h' : city.Stands boundary l group' index')
    (hkl : k < l) :
    Apart (city.rectOf boundary k group index) (city.rectOf boundary l group' index') := by
  by_cases hstacks : (city.strategyOf boundary).Stacks
  · exact apart_zoneRect_of_stacks h.group_eq hpadding city.buildingGap_nonneg
      city.zoneGap_nonneg city.hasSides (nodup_indicesOf _ _) hstacks h'.group_eq hkl h.mem h'.mem
  · exact hclear.zones boundary hstacks k l group group' index index' hkl h h'

theorem apart_of_stands (hclear : city.Clear) (hpadding : 0 ≤ city.layout.buildingPadding)
    (h : city.Stands boundary k group index) (h' : city.Stands boundary l group' index')
    (hne : index ≠ index') :
    Apart (city.rectOf boundary k group index) (city.rectOf boundary l group' index') := by
  rcases Nat.lt_trichotomy k l with hlt | rfl | hgt
  · exact apart_of_lt hclear hpadding h h' hlt
  · have hgroup : group = group' := Option.some.inj (h.group_eq.symm.trans h'.group_eq)
    subst hgroup
    exact apart_zoneRect h.group_eq city.buildingGap_nonneg city.hasSides (nodup_indicesOf _ _)
      h.mem h'.mem hne
  · exact (apart_of_lt hclear hpadding h' h hgt).symm

/-- Two boundaries. -/
theorem apart_of_ne (hclear : city.Clear) (hpadding : 0 ≤ city.layout.buildingPadding)
    (h : city.Stands boundary k group index) (h' : city.Stands boundary' l group' index')
    (hne : boundary ≠ boundary') :
    Apart (city.result.1 index).rect (city.result.1 index').rect := by
  by_cases hsingle : city.macroGraph.topology = .singleBoundary
  · rw [rect_result h, rect_result h', positions, positionOf_singleBoundary hsingle,
      positionOf_singleBoundary hsingle]
    exact apart_move_iff.mpr
      (hclear.boundaries hsingle boundary boundary' k l group group' index index' hne h h')
  · have : Std.Symm fun boundary boundary' =>
        Apart (framed city.positions (city.layoutOf boundary))
          (framed city.positions (city.layoutOf boundary')) := ⟨fun _ _ h => h.symm⟩
    have hapart := (pairwise_framed hsingle).forall h.boundary_mem h'.boundary_mem hne
    exact hapart.of_within (within_framed hpadding h) (within_framed hpadding h')

theorem noOverlap_of_clear (hclear : city.Clear) : city.NoOverlap := by
  intro index index' hne
  rcases hclear.padding with hpadding | rfl
  · obtain ⟨boundary, k, group, h⟩ := city.exists_stands index
    obtain ⟨boundary', l, group', h'⟩ := city.exists_stands index'
    by_cases heq : boundary = boundary'
    · subst heq
      rw [rect_result h, rect_result h']
      exact apart_move_iff.mpr (apart_of_stands hclear hpadding h h' hne)
    · exact apart_of_ne hclear hpadding h h' heq
  · exact index.elim0

theorem framed_of_padding (hpadding : 0 ≤ city.layout.buildingPadding) : city.Framed := by
  intro index
  obtain ⟨boundary, k, group, h⟩ := city.exists_stands index
  refine ⟨(city.moveStep city.placed.1 (city.layoutOf boundary)).2, ?_,
    (LayoutInput.mem_indicesOf.mp h.mem_indicesOf).symm, ?_⟩
  · rw [snd_result]
    exact List.mem_map_of_mem h.boundary_mem
  · have hwithin := within_framed hpadding h
    rw [framed, BoundaryLayout.frame, Rect.move, zero_add, zero_add] at hwithin
    exact hwithin

/-- A negative padding puts the first building of a boundary outside. -/
theorem padding_nonneg_of_framed (hframed : city.Framed) (index : Fin n) :
    0 ≤ city.layout.buildingPadding := by
  by_contra hpadding
  obtain ⟨boundary, k, group, h⟩ := city.exists_stands index
  obtain ⟨first, hfirst, hx⟩ := @exists_not_within_zoneRect _ city.layout (city.strategyOf boundary) _ _ city.zoneAssignments
    (not_le.mp hpadding) (nodup_indicesOf city.buildings boundary.id)
    (List.ne_nil_of_mem h.mem_indicesOf)
  obtain ⟨group', hgroup', hmem⟩ := @exists_mem_zoneGroups _ _ city.buildings city.zoneAssignments _ hfirst
  obtain ⟨l, hl⟩ := List.mem_iff_getElem?.mp hgroup'
  have hstands : city.Stands boundary l group' first := ⟨h.boundary_mem, hl, hmem⟩
  obtain ⟨moved, hmoved, hid, hwithin⟩ := hframed first
  rw [snd_result] at hmoved
  obtain ⟨boundary', hboundary', rfl⟩ := List.mem_map.mp hmoved
  have hsame : boundary'.id = boundary.id := hid.trans (LayoutInput.mem_indicesOf.mp hfirst)
  have hleft := hwithin.left
  rw [rect_result hstands] at hleft
  rw [rect_layoutBoundaryLocal (nodup_indicesOf _ _) hl hmem] at hx
  have hposition : (city.moveStep city.placed.1 (city.layoutOf boundary')).2.x =
      (positionOf city.positions boundary.id).1 := by
    rw [← hsame]
    rfl
  simp only [hposition, Rect.move, rectOf] at hleft
  linarith

/-- A city without overlaps is clear. -/
theorem clear_of_sound (hoverlap : city.NoOverlap) (hframed : city.Framed) : city.Clear where
  padding := by
    rcases n with _ | n
    · exact Or.inr rfl
    · exact Or.inl (padding_nonneg_of_framed hframed 0)
  zones boundary _ k l group group' index index' hkl h h' := by
    have hne : index ≠ index' := fun heq : index = index' => hkl.ne ((heq ▸ h).zone_eq h')
    have hapart := hoverlap index index' hne
    rw [rect_result h, rect_result h'] at hapart
    exact apart_move_iff.mp hapart
  boundaries hsingle boundary boundary' k l group group' index index' hboundary h h' := by
    have hne : index ≠ index' := fun heq : index = index' => hboundary ((heq ▸ h).boundary_eq h')
    have hapart := hoverlap index index' hne
    rw [rect_result h, rect_result h', positions, positionOf_singleBoundary hsingle,
      positionOf_singleBoundary hsingle] at hapart
    exact apart_move_iff.mp hapart

/-- No building overlaps another or leaves the frame of its boundary exactly when the city is
clear. -/
theorem sound_iff (city : LayoutInput n) : city.NoOverlap ∧ city.Framed ↔ city.Clear := by
  constructor
  · rintro ⟨hoverlap, hframed⟩
    exact clear_of_sound hoverlap hframed
  · intro hclear
    refine ⟨noOverlap_of_clear hclear, ?_⟩
    rcases hclear.padding with hpadding | rfl
    · exact framed_of_padding hpadding
    · exact fun index => index.elim0

/-! ## A small zone beside a large one -/

def squareOf (path : String) (zone : Zone) (sideLength : ℚ) : Building :=
  { path
    boundaryId := "app"
    zone
    totalHeight := 1
    geometry := ⟨0, 0, 0, 0, 0, sideLength, 0, 0⟩ }

/-- A large building of the core and a small one of the application. -/
def largeCore : LayoutInput 2 where
  star _ _ _ _ := none
  buildings index :=
    if index = 0 then squareOf "core.rs" .core 10 else squareOf "main.rs" .application 1
  boundaries := [⟨"app", false⟩]
  reports := []
  macroGraph := ⟨.singleBoundary, []⟩
  zoneAssignments _ := none
  layout := ⟨1, 1, 1, 1, 1⟩
  nodup_ids := by decide
  hasSides := by
    intro index
    rw [apply_ite Building.geometry, apply_ite Geometry.sideLength]
    split_ifs <;> norm_num [squareOf]
  boundary_mem := by decide
  buildingGap_nonneg := by decide
  zoneGap_nonneg := by decide
  worldGap_nonneg := by decide
  topology_ne_star := by decide

/-- The zone of the application begins after four of the twelve units of the core. -/
theorem rects_of_large_core :
    (largeCore.result.1 0).rect = ⟨1, 1, 10, 10⟩ ∧
      (largeCore.result.1 1).rect = ⟨5, 1, 1, 1⟩ := by
  constructor
  all_goals ext <;> decide +kernel

theorem overlap_of_large_core : ¬ (largeCore.NoOverlap ∧ largeCore.Framed) := by
  rintro ⟨hoverlap, -⟩
  have hapart := hoverlap 0 1 (by decide)
  obtain ⟨hcore, happlication⟩ := rects_of_large_core
  rw [hcore, happlication, Apart] at hapart
  norm_num at hapart

end LayoutInput

end CodeCity
end Bitloops
