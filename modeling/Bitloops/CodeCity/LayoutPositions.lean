import Bitloops.CodeCity.LayoutFrames

/-!
# The positions of the boundaries

`positionLayered` and `positionGrid` put the frames of the boundaries apart,
`apart_positionLayered` and `apart_positionGrid`; a city of a single boundary moves nothing.
-/

namespace Bitloops
namespace CodeCity

open Packing

/-- The frame of the boundary before it is moved. -/
def BoundaryLayout.frame (boundary : BoundaryLayout) : Rect ℚ :=
  ⟨0, 0, boundary.width, boundary.depth⟩

/-- A boundary without a position stays. -/
def positionOf (positions : Positions) (id : String) : ℚ × ℚ := (positions id).getD (0, 0)

/-- The frame of the boundary at its position. -/
def framed (positions : Positions) (boundary : BoundaryLayout) : Rect ℚ :=
  boundary.frame.move (positionOf positions boundary.boundaryId).1
    (positionOf positions boundary.boundaryId).2

variable {gap : ℚ} {layouts : List BoundaryLayout}

/-! ## Rows -/

def gridStep (columns : ℕ) (gap : ℚ) (state : Positions × Packing.Shelf ℚ)
    (boundary : BoundaryLayout) : Positions × Packing.Shelf ℚ :=
  let shelf := state.2.nextRow columns 0 gap
  (Function.update state.1 boundary.boundaryId (some (shelf.currentX, shelf.currentZ)),
    shelf.advance boundary.width boundary.depth gap)

theorem foldl_gridStep_of_notMem {columns : ℕ} {id : String} (state : Positions × Packing.Shelf ℚ)
    (h : id ∉ layouts.map BoundaryLayout.boundaryId) :
    (layouts.foldl (gridStep columns gap) state).1 id = state.1 id := by
  induction layouts generalizing state with
  | nil => rfl
  | cons first layouts ih =>
    rw [List.map_cons, List.mem_cons, not_or] at h
    rw [List.foldl_cons, ih _ h.2]
    exact Function.update_of_ne h.1 _ _

theorem map_framed_foldl_gridStep {columns : ℕ}
    (hnodup : (layouts.map BoundaryLayout.boundaryId).Nodup) (state : Positions × Packing.Shelf ℚ) :
    layouts.map (framed (layouts.foldl (gridStep columns gap) state).1) =
      shelve columns 0 gap state.2
        (layouts.map fun boundary => (boundary.width, boundary.depth)) := by
  induction layouts generalizing state with
  | nil => rfl
  | cons first layouts ih =>
    obtain ⟨hfirst, hnodup⟩ := List.nodup_cons.mp hnodup
    have hposition : (layouts.foldl (gridStep columns gap)
        (gridStep columns gap state first)).1 first.boundaryId =
          some ((state.2.nextRow columns 0 gap).currentX,
            (state.2.nextRow columns 0 gap).currentZ) := by
      rw [foldl_gridStep_of_notMem _ hfirst]
      exact Function.update_self _ _ _
    rw [List.map_cons, List.foldl_cons, ih hnodup, framed, positionOf, hposition,
      List.map_cons, shelve]
    simp [Rect.move, BoundaryLayout.frame, gridStep]

theorem pairwise_positionGrid (hgap : 0 ≤ gap)
    (hnodup : (layouts.map BoundaryLayout.boundaryId).Nodup)
    (hwidths : ∀ boundary ∈ layouts, 0 ≤ boundary.width) :
    layouts.Pairwise fun a b =>
      Apart (framed (positionGrid gap layouts) a) (framed (positionGrid gap layouts) b) := by
  have hafter : (⟨0, 0, 0, 0⟩ : Packing.Shelf ℚ).After 0 := after_start 0
  have hsizes : ∀ size ∈ layouts.map fun boundary => (boundary.width, boundary.depth),
      0 ≤ size.1 := List.forall_mem_map.mpr hwidths
  have hpairwise := @pairwise_shelve _ _ _ _ (gridColumns layouts.length 1) _ _ hgap _ hsizes _ hafter
  rw [← map_framed_foldl_gridStep hnodup ((fun _ => none : Positions), ⟨0, 0, 0, 0⟩)] at hpairwise
  exact List.pairwise_map.mp hpairwise

/-! ## Ranks -/

def layeredStep (gap : ℚ) (state : Positions × ℚ) (boundary : BoundaryLayout) : Positions × ℚ :=
  (Function.update state.1 boundary.boundaryId (some (0, state.2)),
    state.2 + (boundary.depth + gap))

theorem foldl_layeredStep_of_notMem {id : String} (state : Positions × ℚ)
    (h : id ∉ layouts.map BoundaryLayout.boundaryId) :
    (layouts.foldl (layeredStep gap) state).1 id = state.1 id := by
  induction layouts generalizing state with
  | nil => rfl
  | cons first layouts ih =>
    rw [List.map_cons, List.mem_cons, not_or] at h
    rw [List.foldl_cons, ih _ h.2]
    exact Function.update_of_ne h.1 _ _

/-- No boundary begins before the first. -/
theorem le_foldl_layeredStep (hgap : 0 ≤ gap)
    (hnodup : (layouts.map BoundaryLayout.boundaryId).Nodup)
    (hdepths : ∀ boundary ∈ layouts, 0 ≤ boundary.depth) (state : Positions × ℚ) :
    ∀ boundary ∈ layouts,
      state.2 ≤ (framed (layouts.foldl (layeredStep gap) state).1 boundary).z := by
  induction layouts generalizing state with
  | nil => exact fun _ h => absurd h List.not_mem_nil
  | cons first layouts ih =>
    obtain ⟨hfirst, hnodup⟩ := List.nodup_cons.mp hnodup
    obtain ⟨hdepth, hdepths⟩ := List.forall_mem_cons.mp hdepths
    refine List.forall_mem_cons.mpr ⟨?_, fun boundary hboundary => ?_⟩
    · rw [List.foldl_cons, framed, positionOf, foldl_layeredStep_of_notMem _ hfirst]
      simp [layeredStep, Rect.move, BoundaryLayout.frame]
    · have hle := ih hnodup hdepths (layeredStep gap state first) boundary hboundary
      have hstep : (layeredStep gap state first).2 = state.2 + (first.depth + gap) := rfl
      rw [List.foldl_cons]
      linarith

theorem pairwise_foldl_layeredStep (hgap : 0 ≤ gap)
    (hnodup : (layouts.map BoundaryLayout.boundaryId).Nodup)
    (hdepths : ∀ boundary ∈ layouts, 0 ≤ boundary.depth) (state : Positions × ℚ) :
    layouts.Pairwise fun a b =>
      Apart (framed (layouts.foldl (layeredStep gap) state).1 a)
        (framed (layouts.foldl (layeredStep gap) state).1 b) := by
  induction layouts generalizing state with
  | nil => exact List.Pairwise.nil
  | cons first layouts ih =>
    obtain ⟨hfirst, hnodup⟩ := List.nodup_cons.mp hnodup
    obtain ⟨hdepth, hdepths⟩ := List.forall_mem_cons.mp hdepths
    refine List.pairwise_cons.mpr ⟨fun boundary hboundary => ?_, ih hnodup hdepths _⟩
    have hle := le_foldl_layeredStep hgap hnodup hdepths (layeredStep gap state first) boundary
      hboundary
    have hstep : (layeredStep gap state first).2 = state.2 + (first.depth + gap) := rfl
    have hz : (framed (layouts.foldl (layeredStep gap) (layeredStep gap state first)).1 first).z =
        state.2 := by
      rw [framed, positionOf, foldl_layeredStep_of_notMem _ hfirst]
      simp [layeredStep, Rect.move, BoundaryLayout.frame]
    have hdepth : (framed (layouts.foldl (layeredStep gap) (layeredStep gap state first)).1
        first).depth = first.depth := rfl
    rw [List.foldl_cons]
    exact Or.inr (Or.inr (Or.inl (by rw [hz, hdepth]; linarith)))

theorem pairwise_positionLayered (macroGraph : MacroGraph) (hgap : 0 ≤ gap)
    (hnodup : (layouts.map BoundaryLayout.boundaryId).Nodup)
    (hdepths : ∀ boundary ∈ layouts, 0 ≤ boundary.depth) :
    layouts.Pairwise fun a b =>
      Apart (framed (positionLayered macroGraph gap layouts) a)
        (framed (positionLayered macroGraph gap layouts) b) := by
  have hperm := perm_orderBy (fun boundary : BoundaryLayout =>
    toLex (indegreeOf macroGraph boundary.boundaryId, boundary.boundaryId)) layouts
  refine (hperm.pairwise_iff fun {a b} h => h.symm).mp ?_
  exact pairwise_foldl_layeredStep hgap ((hperm.map _).nodup_iff.mpr hnodup)
    (fun boundary hboundary => hdepths boundary (mem_orderBy.mp hboundary)) _

/-! ## The topologies -/

/-- With more than one boundary to keep apart, frames are apart at their positions. -/
theorem pairwise_positionBoundaries {star : StarPositions} {macroGraph : MacroGraph}
    (hstar : macroGraph.topology ≠ .star) (hsingle : macroGraph.topology ≠ .singleBoundary)
    (hgap : 0 ≤ gap) (hnodup : (layouts.map BoundaryLayout.boundaryId).Nodup)
    (hframes : ∀ boundary ∈ layouts, 0 ≤ boundary.width ∧ 0 ≤ boundary.depth) :
    layouts.Pairwise fun a b =>
      Apart (framed (positionBoundaries star macroGraph gap layouts) a)
        (framed (positionBoundaries star macroGraph gap layouts) b) := by
  cases layouts with
  | nil => exact List.Pairwise.nil
  | cons first rest =>
    have hwidths := fun boundary hboundary => (hframes boundary hboundary).1
    have hdepths := fun boundary hboundary => (hframes boundary hboundary).2
    cases htopology : macroGraph.topology with
    | star => exact absurd htopology hstar
    | singleBoundary => exact absurd htopology hsingle
    | layered =>
      simp only [positionBoundaries, htopology]
      exact pairwise_positionLayered macroGraph hgap hnodup hdepths
    | _ =>
      simp only [positionBoundaries, htopology]
      exact pairwise_positionGrid hgap hnodup hwidths

/-- A single boundary stays where it is. -/
theorem positionOf_singleBoundary {star : StarPositions} {macroGraph : MacroGraph}
    (hsingle : macroGraph.topology = .singleBoundary) (id : String) :
    positionOf (positionBoundaries star macroGraph gap layouts) id = (0, 0) := by
  cases layouts with
  | nil => rfl
  | cons first rest =>
    simp only [positionBoundaries, hsingle, positionOf, Function.update_apply]
    split_ifs <;> rfl

end CodeCity
end Bitloops
