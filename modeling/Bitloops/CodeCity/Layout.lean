import Bitloops.Foundation.OrderBy
import Bitloops.Foundation.Packing
import Mathlib.Algebra.Order.Floor.Semiring
import Mathlib.Algebra.Order.Ring.Rat
import Mathlib.Data.Nat.Sqrt
import Mathlib.Data.Prod.Lex
import Mathlib.Data.Rat.Floor

/-!
# The layout of the city

The buildings of a boundary are put in rows, zone by zone; the zones are put together by the
strategy of the boundary, and the boundaries by the topology of the city.  Lengths are rational
numbers.  Where the boundaries of a star go is a parameter.
-/

namespace Bitloops
namespace CodeCity

open Packing

/-! ## What is laid out -/

inductive Zone where
  | core
  | application
  | periphery
  | edge
  | ports
  | shared
  | unclassified
  deriving DecidableEq

def Zone.ordered : List Zone :=
  [core, application, periphery, ports, edge, shared, unclassified]

inductive LayoutStrategy where
  | gridTreemap
  | hexagonalRings
  | layeredBands
  | modularIslands
  | pipeAndFilterStrip
  | mudForceDirected
  | plainTreemap
  deriving DecidableEq

inductive ArchitecturePattern where
  | layered
  | hexagonal
  | modular
  | eventDriven
  | pipeAndFilter
  | ballOfMud
  | unclassified
  deriving DecidableEq

inductive MacroTopology where
  | singleBoundary
  | star
  | layered
  | federated
  | tangled
  | unknown
  deriving DecidableEq

structure LayoutConfig where
  buildingGap : ℚ
  buildingPadding : ℚ
  targetAspectRatio : ℚ
  worldGap : ℚ
  zoneGap : ℚ

structure Geometry where
  x : ℚ
  y : ℚ
  z : ℚ
  width : ℚ
  depth : ℚ
  sideLength : ℚ
  footprintArea : ℚ
  height : ℚ

/-- The zone of a building is kept by its name. -/
structure Building where
  path : String
  boundaryId : String
  zone : Zone
  totalHeight : ℚ
  geometry : Geometry

structure Boundary where
  id : String
  sharedLibrary : Bool

structure ArchitectureReport where
  boundaryId : String
  primaryPattern : ArchitecturePattern

structure BoundaryLayout where
  boundaryId : String
  strategy : LayoutStrategy
  zoneCount : ℕ
  width : ℚ
  depth : ℚ
  x : ℚ := 0
  z : ℚ := 0

/-- What the edge leads to. -/
structure MacroGraph where
  topology : MacroTopology
  edges : List String

namespace Building

def rect (building : Building) : Rect ℚ :=
  ⟨building.geometry.x, building.geometry.z, building.geometry.width, building.geometry.depth⟩

def place (x z : ℚ) (building : Building) : Building :=
  let side := building.geometry.sideLength
  { building with
    geometry :=
      { building.geometry with
        x
        y := 0
        z
        width := side
        depth := side
        footprintArea := side * side
        height := building.totalHeight } }

def shift (dx dz : ℚ) (building : Building) : Building :=
  { building with
    geometry :=
      { building.geometry with x := building.geometry.x + dx, z := building.geometry.z + dz } }

end Building

/-! ## Groups -/

/-- `sqrt` and `ceil`; the root of a negative number becomes zero. -/
def ceilSqrt (q : ℚ) : ℕ :=
  let n := ⌈q⌉₊
  if n.sqrt * n.sqrt = n then n.sqrt else n.sqrt + 1

def gridColumns (count : ℕ) (ratio : ℚ) : ℕ := max (ceilSqrt (count * ratio)) 1

section Layout

variable {n : ℕ}

structure GroupState (n : ℕ) where
  buildings : Fin n → Building
  shelf : Packing.Shelf ℚ
  maxWidth : ℚ := 0
  maxDepth : ℚ := 0

def groupStep (layout : LayoutConfig) (columns : ℕ) (state : GroupState n) (index : Fin n) :
    GroupState n :=
  let shelf := state.shelf.nextRow columns layout.buildingPadding layout.buildingGap
  let side := (state.buildings index).geometry.sideLength
  { buildings := Function.update state.buildings index
      ((state.buildings index).place shelf.currentX shelf.currentZ)
    shelf := shelf.advance side side layout.buildingGap
    maxWidth := max state.maxWidth (shelf.currentX + side + layout.buildingPadding)
    maxDepth := max state.maxDepth (shelf.currentZ + side + layout.buildingPadding) }

def groupColumns (layout : LayoutConfig) (indices : List (Fin n)) : ℕ :=
  gridColumns indices.length layout.targetAspectRatio

def groupStart (layout : LayoutConfig) (buildings : Fin n → Building) : GroupState n :=
  { buildings
    shelf := ⟨layout.buildingPadding, layout.buildingPadding, 0, 0⟩ }

/-- The buildings in rows, and the width and the depth of the group. -/
def layoutGroup (layout : LayoutConfig) (buildings : Fin n → Building) (indices : List (Fin n)) :
    (Fin n → Building) × ℚ × ℚ :=
  if indices = [] then (buildings, 0, 0)
  else
    let state := indices.foldl (groupStep layout (groupColumns layout indices))
      (groupStart layout buildings)
    (state.buildings, state.maxWidth, state.maxDepth)

/-! ## Boundaries -/

structure ZoneFrame (n : ℕ) where
  indices : List (Fin n)
  width : ℚ
  depth : ℚ

def layoutZones (layout : LayoutConfig) (buildings : Fin n → Building)
    (groups : List (List (Fin n))) : (Fin n → Building) × List (ZoneFrame n) :=
  groups.foldl (fun (buildings, frames) indices =>
    let (buildings, width, depth) := layoutGroup layout buildings indices
    (buildings, frames ++ [⟨indices, width, depth⟩])) (buildings, [])

structure ZoneState (n : ℕ) where
  buildings : Fin n → Building
  ordinal : ℕ := 0
  currentX : ℚ := 0
  currentZ : ℚ := 0
  maxWidth : ℚ := 0
  maxDepth : ℚ := 0

def zoneShift (layout : LayoutConfig) (strategy : LayoutStrategy) (state : ZoneState n)
    (frame : ZoneFrame n) : ℚ × ℚ :=
  match strategy with
  | .layeredBands => (0, state.currentZ)
  | .pipeAndFilterStrip => (state.currentX, 0)
  | _ =>
    let column := state.ordinal % 2
    let row := state.ordinal / 2
    (column * (frame.width + layout.zoneGap), row * (frame.depth + layout.zoneGap))

def shiftAll (dx dz : ℚ) (buildings : Fin n → Building) (indices : List (Fin n)) :
    Fin n → Building :=
  indices.foldl (fun buildings index =>
    Function.update buildings index ((buildings index).shift dx dz)) buildings

def zoneStep (layout : LayoutConfig) (strategy : LayoutStrategy) (state : ZoneState n)
    (frame : ZoneFrame n) : ZoneState n :=
  let (offsetX, offsetZ) := zoneShift layout strategy state frame
  { buildings := shiftAll offsetX offsetZ state.buildings frame.indices
    ordinal := state.ordinal + 1
    currentX :=
      if strategy = .pipeAndFilterStrip then state.currentX + (frame.width + layout.zoneGap)
      else state.currentX
    currentZ :=
      if strategy = .layeredBands then state.currentZ + (frame.depth + layout.zoneGap)
      else state.currentZ
    maxWidth := max state.maxWidth (offsetX + frame.width)
    maxDepth := max state.maxDepth (offsetZ + frame.depth) }

def zoneOf (zoneAssignments : String → Option Zone) (building : Building) : Zone :=
  (zoneAssignments building.path).getD building.zone

/-- The buildings of each zone, in the order of their paths. -/
def zoneGroups (zoneAssignments : String → Option Zone) (buildings : Fin n → Building)
    (indices : List (Fin n)) : List (List (Fin n)) :=
  (Zone.ordered.map fun zone =>
    orderBy (fun index => (buildings index).path)
      (indices.filter fun index => zoneOf zoneAssignments (buildings index) = zone)).filter
    fun group => group ≠ []

def layoutBoundaryLocal (layout : LayoutConfig) (zoneAssignments : String → Option Zone)
    (strategy : LayoutStrategy) (buildings : Fin n → Building) (indices : List (Fin n)) :
    (Fin n → Building) × ℚ × ℚ × ℕ :=
  if indices = [] then (buildings, 0, 0, 0)
  else
    let (buildings, frames) :=
      layoutZones layout buildings (zoneGroups zoneAssignments buildings indices)
    let state := frames.foldl (zoneStep layout strategy) { buildings }
    (state.buildings, state.maxWidth, state.maxDepth, frames.length)

/-- The report of a boundary that comes last counts. -/
def reportOf (reports : List ArchitectureReport) (id : String) : Option ArchitectureReport :=
  reports.reverse.find? fun report => report.boundaryId = id

def selectStrategy (boundary : Boundary) (report : Option ArchitectureReport) : LayoutStrategy :=
  if boundary.sharedLibrary then .plainTreemap
  else
    match report.elim ArchitecturePattern.unclassified ArchitectureReport.primaryPattern with
    | .hexagonal => .hexagonalRings
    | .layered => .layeredBands
    | .modular => .modularIslands
    | .pipeAndFilter => .pipeAndFilterStrip
    | .ballOfMud => .mudForceDirected
    | _ => .plainTreemap

/-! ## The city -/

abbrev Positions : Type := String → Option (ℚ × ℚ)

def indegreeOf (macroGraph : MacroGraph) (id : String) : ℕ := macroGraph.edges.count id

/-- In the order of their ranks, one behind the other. -/
def positionLayered (macroGraph : MacroGraph) (gap : ℚ) (layouts : List BoundaryLayout) :
    Positions :=
  ((orderBy (fun boundary => toLex (indegreeOf macroGraph boundary.boundaryId,
      boundary.boundaryId)) layouts).foldl
    (fun (positions, currentZ) boundary =>
      (Function.update positions boundary.boundaryId (some (0, currentZ)),
        currentZ + (boundary.depth + gap)))
    ((fun _ => none : Positions), (0 : ℚ))).1

def positionGrid (gap : ℚ) (layouts : List BoundaryLayout) : Positions :=
  (layouts.foldl
    (fun (positions, shelf) boundary =>
      let shelf := shelf.nextRow (gridColumns layouts.length 1) 0 gap
      (Function.update positions boundary.boundaryId (some (shelf.currentX, shelf.currentZ)),
        shelf.advance boundary.width boundary.depth gap))
    ((fun _ => none : Positions), (⟨0, 0, 0, 0⟩ : Packing.Shelf ℚ))).1

/-- Where the boundaries of a star go. -/
abbrev StarPositions : Type := List BoundaryLayout → MacroGraph → ℚ → Positions

def positionBoundaries (star : StarPositions) (macroGraph : MacroGraph) (gap : ℚ)
    (layouts : List BoundaryLayout) : Positions :=
  match layouts with
  | [] => fun _ => none
  | first :: _ =>
    match macroGraph.topology with
    | .singleBoundary => Function.update (fun _ => none) first.boundaryId (some (0, 0))
    | .star => star layouts macroGraph gap
    | .layered => positionLayered macroGraph gap layouts
    | _ => positionGrid gap layouts

def indicesOf (buildings : Fin n → Building) (id : String) : List (Fin n) :=
  (List.finRange n).filter fun index => (buildings index).boundaryId = id

/-- The buildings of each boundary on their own. -/
def layoutBoundaries (layout : LayoutConfig) (zoneAssignments : String → Option Zone)
    (reports : List ArchitectureReport) (buildings : Fin n → Building)
    (boundaries : List Boundary) : (Fin n → Building) × List BoundaryLayout :=
  boundaries.foldl (fun (current, layouts) boundary =>
    let strategy := selectStrategy boundary (reportOf reports boundary.id)
    let (current, width, depth, zoneCount) := layoutBoundaryLocal layout zoneAssignments strategy
      current (indicesOf buildings boundary.id)
    (current, layouts ++ [{ boundaryId := boundary.id, strategy, zoneCount, width, depth }]))
    (buildings, [])

/-- The buildings and the boundaries go to the positions of the boundaries. -/
def moveBoundaries (positions : Positions) (indices : String → List (Fin n))
    (buildings : Fin n → Building) (layouts : List BoundaryLayout) :
    (Fin n → Building) × List BoundaryLayout :=
  layouts.foldl (fun (buildings, moved) boundary =>
    let (x, z) := (positions boundary.boundaryId).getD (0, 0)
    (shiftAll x z buildings (indices boundary.boundaryId), moved ++ [{ boundary with x, z }]))
    (buildings, [])

def applyArchitectureLayout (star : StarPositions) (buildings : Fin n → Building)
    (boundaries : List Boundary) (reports : List ArchitectureReport) (macroGraph : MacroGraph)
    (zoneAssignments : String → Option Zone) (layout : LayoutConfig) :
    (Fin n → Building) × List BoundaryLayout :=
  let (placed, layouts) := layoutBoundaries layout zoneAssignments reports buildings boundaries
  let positions := positionBoundaries star macroGraph (max layout.worldGap layout.buildingGap)
    layouts
  moveBoundaries positions (indicesOf buildings) placed layouts

end Layout

end CodeCity
end Bitloops
