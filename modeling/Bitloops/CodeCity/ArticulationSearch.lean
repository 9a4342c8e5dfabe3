import Bitloops.CodeCity.FileGraph
import Bitloops.Foundation.SearchForest
import Mathlib.Data.Fintype.Card
import Mathlib.Logic.Function.Basic

/-!
# Searching for articulation points

`visit` goes through the graph in both directions of its edges and keeps, for each file, the time
when it was found and the least time that can be reached from it and from what is found from it.
The parents of the files are arguments of the calls and are not kept; here they are the forest of
the invariant `LowInv`.
-/

namespace Bitloops
namespace CodeCity

open SearchForest (Above above_of_parent)

variable {V : Type*} [LinearOrder V]

/-! ## The search -/

structure LowState (V : Type*) where
  discovery : V → Option ℕ := fun _ => none
  low : V → ℕ := fun _ => 0
  additionalComponents : V → ℕ := fun _ => 0
  time : ℕ := 0

namespace LowState

def Found (s : LowState V) (v : V) : Prop := s.discovery v ≠ none

/-- The time when a vertex was found. -/
def disc (s : LowState V) (v : V) : ℕ := (s.discovery v).getD 0

def discover (node : V) (s : LowState V) : LowState V :=
  { s with
    discovery := Function.update s.discovery node (some s.time)
    low := Function.update s.low node s.time
    time := s.time + 1 }

def lower (node : V) (bound : ℕ) (s : LowState V) : LowState V :=
  { s with low := Function.update s.low node (min (s.low node) bound) }

def setAdditional (node : V) (count : ℕ) (s : LowState V) : LowState V :=
  { s with additionalComponents := Function.update s.additionalComponents node count }

end LowState

/-- A neighbour of the vertex is looked at. -/
def neighbourStep (visit : V → Option V → LowState V → LowState V) (node : V) (parent : Option V)
    (acc : LowState V × ℕ) (next : V) : LowState V × ℕ :=
  let (state, childCount) := acc
  if state.discovery next = none then
    let state := visit next (some node) state
    let state := state.lower node (state.low next)
    (if parent.isSome ∧ state.disc node ≤ state.low next then
      state.setAdditional node (state.additionalComponents node + 1)
    else state, childCount + 1)
  else if some next ≠ parent then (state.lower node (state.disc next), childCount)
  else acc

def closeRoot (node : V) (parent : Option V) (acc : LowState V × ℕ) : LowState V :=
  if parent = none ∧ 1 < acc.2 then acc.1.setAdditional node (acc.2 - 1) else acc.1

/-- The calls are nested no deeper than there are vertices. -/
def visit (adjacency : V → List V) : ℕ → V → Option V → LowState V → LowState V
  | 0, _, _, state => state
  | depth + 1, node, parent, state =>
    closeRoot node parent
      ((adjacency node).foldl (neighbourStep (visit adjacency depth) node parent)
        (state.discover node, 0))

/-- The vertices are visited that are not found when their turn comes. -/
def visitAll [Fintype V] (adjacency : V → List V) (nodes : List V) (state : LowState V) :
    LowState V :=
  nodes.foldl (fun state node =>
    if state.discovery node = none then visit adjacency (Fintype.card V) node none state
    else state) state

def articulationComponentIncrease (graph : FileGraph) (node : graph.Node) : ℕ :=
  (visitAll graph.undirectedAdjacency (List.finRange graph.paths.length) {}).additionalComponents
    node

/-! ## What holds between the calls -/

section Invariant

variable [Fintype V] {next : V → List V} {path : Set V} {parent parent' : V → Option V}
  {s s' : LowState V} {node : V}

def children (parent : V → Option V) (v : V) : Finset V :=
  Finset.univ.filter fun u => parent u = some v

theorem mem_children {u v : V} : u ∈ children parent v ↔ parent u = some v := by
  simp [children]

/-- The children from which nothing before the vertex is reached. -/
def cutChildren (parent : V → Option V) (s : LowState V) (v : V) : Finset V :=
  (children parent v).filter fun u => s.disc v ≤ s.low u

/-- The state of the search while the calls of a path are under way. -/
structure LowInv (next : V → List V) (path : Set V) (parent : V → Option V) (s : LowState V) :
    Prop where
  found_parent : ∀ v p, parent v = some p → s.Found v ∧ s.Found p
  adj_parent : ∀ v p, parent v = some p → v ∈ next p
  disc_lt : ∀ v p, parent v = some p → s.disc p < s.disc v
  disc_lt_time : ∀ v, s.Found v → s.disc v < s.time
  comparable : ∀ v w, s.Found v → s.Found w → w ∈ next v → Above parent v w ∨ Above parent w v
  closed : ∀ v, s.Found v → v ∉ path → ∀ w ∈ next v, s.Found w
  path_found : ∀ v ∈ path, s.Found v
  path_up : ∀ v ∈ path, ∀ p, parent v = some p → p ∈ path
  additional_zero : ∀ v, ¬s.Found v → s.additionalComponents v = 0
  low_lt_iff : ∀ v p, s.Found v → v ∉ path → parent v = some p → ∀ d ≤ s.disc p,
    (s.low v < d ↔ ∃ z, Above parent v z ∧ ∃ w ∈ next z, s.disc w < d)
  additional_eq : ∀ v, s.Found v → v ∉ path → s.additionalComponents v =
    if parent v = none then (children parent v).card - 1 else (cutChildren parent s v).card

/-- What a call of a vertex does, whose parent is `above`. -/
structure Grows (parent : V → Option V) (s : LowState V) (node : V) (above : Option V)
    (parent' : V → Option V) (s' : LowState V) : Prop where
  discovery : ∀ v, s.Found v → s'.discovery v = s.discovery v
  low : ∀ v, s.Found v → s'.low v = s.low v
  additional : ∀ v, s.Found v → s'.additionalComponents v = s.additionalComponents v
  parent : ∀ v, s.Found v → parent' v = parent v
  parent_node : parent' node = above
  parent_new : ∀ v, ¬s.Found v → v ≠ node → ∀ p, parent' v = some p → ¬s.Found p
  found_node : s'.Found node
  time_le : s.time ≤ s'.time
  time_le_disc : ∀ v, s'.Found v → ¬s.Found v → s.time ≤ s'.disc v

/-! ### What is finished stays as it is -/

/-- The finished vertices have not changed, and no new vertex stands below one. -/
structure Agrees (path : Set V) (parent : V → Option V) (s : LowState V) (parent' : V → Option V)
    (s' : LowState V) : Prop where
  discovery : ∀ v, s.Found v → s'.discovery v = s.discovery v
  low : ∀ v, s.Found v → v ∉ path → s'.low v = s.low v
  additional : ∀ v, s.Found v → v ∉ path → s'.additionalComponents v = s.additionalComponents v
  parent : ∀ v, s.Found v → parent' v = parent v
  parent_new : ∀ v, ¬s.Found v → ∀ p, parent' v = some p → p ∈ path ∨ ¬s.Found p

theorem disc_eq_of_discovery (h : ∀ v, s.Found v → s'.discovery v = s.discovery v) {v : V}
    (hv : s.Found v) : s'.disc v = s.disc v := by
  rw [LowState.disc, h v hv, LowState.disc]

theorem found_of_discovery (h : ∀ v, s.Found v → s'.discovery v = s.discovery v) {v : V}
    (hv : s.Found v) : s'.Found v := by
  rw [LowState.Found, h v hv]
  exact hv

namespace LowInv

variable (h : LowInv next path parent s)

include h

theorem found_of_above {v z : V} (hv : s.Found v) (hz : Above parent v z) : s.Found z := by
  induction hz with
  | refl => exact hv
  | tail _ hparent _ => exact (h.found_parent _ _ hparent).1

theorem notMem_of_above {v z : V} (hv : v ∉ path) (hz : Above parent v z) : z ∉ path := by
  induction hz with
  | refl => exact hv
  | tail _ hparent ih => exact fun hmem => ih (h.path_up _ hmem _ hparent)

/-- Above a found vertex, the forests are the same. -/
theorem above_iff_of_found (ha : ∀ v, s.Found v → parent' v = parent v) {v z : V}
    (hz : s.Found z) : Above parent' v z ↔ Above parent v z := by
  constructor
  · intro habove
    induction habove with
    | refl => exact .refl
    | tail _ hparent ih =>
      rw [ha _ hz] at hparent
      exact (ih (h.found_parent _ _ hparent).2).tail hparent
  · intro habove
    induction habove with
    | refl => exact .refl
    | tail _ hparent ih =>
      have hparent' := (ha _ hz).trans hparent
      exact (ih (h.found_parent _ _ hparent).2).tail hparent'

/-- Below a finished vertex, the forests are the same. -/
theorem above_iff_of_agrees (ha : Agrees path parent s parent' s') {v z : V} (hv : s.Found v)
    (hpath : v ∉ path) : Above parent' v z ↔ Above parent v z := by
  constructor
  · intro habove
    induction habove with
    | refl => exact .refl
    | @tail y z _ hparent ih =>
      have hz : s.Found z := by
        by_contra hnew
        rcases ha.parent_new z hnew y hparent with hmem | hnot
        · exact h.notMem_of_above hpath ih hmem
        · exact hnot (h.found_of_above hv ih)
      rw [ha.parent z hz] at hparent
      exact ih.tail hparent
  · intro habove
    exact (h.above_iff_of_found ha.parent (h.found_of_above hv habove)).mpr habove

theorem children_eq_of_agrees (ha : Agrees path parent s parent' s') {v : V} (hv : s.Found v)
    (hpath : v ∉ path) : children parent' v = children parent v := by
  ext u
  rw [mem_children, mem_children]
  by_cases hu : s.Found u
  · rw [ha.parent u hu]
  · refine iff_of_false (fun hparent => ?_) fun hparent => hu (h.found_parent u v hparent).1
    exact (ha.parent_new u hu v hparent).elim hpath fun hnot => hnot hv

theorem low_lt_iff_of_agrees (ha : Agrees path parent s parent' s') {v p : V} (hv : s.Found v)
    (hpath : v ∉ path) (hparent : parent' v = some p) {d : ℕ} (hd : d ≤ s'.disc p) :
    s'.low v < d ↔ ∃ z, Above parent' v z ∧ ∃ w ∈ next z, s'.disc w < d := by
  rw [ha.parent v hv] at hparent
  rw [disc_eq_of_discovery ha.discovery (h.found_parent v p hparent).2] at hd
  rw [ha.low v hv hpath, h.low_lt_iff v p hv hpath hparent d hd]
  refine exists_congr fun z => ?_
  rw [h.above_iff_of_agrees ha hv hpath]
  refine and_congr_right fun habove => exists_congr fun w => and_congr_right fun hw => ?_
  rw [disc_eq_of_discovery ha.discovery
    (h.closed z (h.found_of_above hv habove) (h.notMem_of_above hpath habove) w hw)]

theorem additional_eq_of_agrees (ha : Agrees path parent s parent' s') {v : V} (hv : s.Found v)
    (hpath : v ∉ path) : s'.additionalComponents v =
      if parent' v = none then (children parent' v).card - 1
      else (cutChildren parent' s' v).card := by
  have hcut : cutChildren parent' s' v = cutChildren parent s v := by
    rw [cutChildren, cutChildren, h.children_eq_of_agrees ha hv hpath]
    refine Finset.filter_congr fun u hu => ?_
    rw [mem_children] at hu
    have hfound := (h.found_parent u v hu).1
    have hnot : u ∉ path := h.notMem_of_above hpath (above_of_parent hu)
    rw [disc_eq_of_discovery ha.discovery hv, ha.low u hfound hnot]
  rw [ha.additional v hv hpath, ha.parent v hv, hcut, h.children_eq_of_agrees ha hv hpath]
  exact h.additional_eq v hv hpath

/-- The numbers of a vertex whose call is under way do not matter. -/
theorem update (hdiscovery : s'.discovery = s.discovery) (htime : s'.time = s.time)
    (hlow : ∀ v, v ∉ path → s'.low v = s.low v)
    (hadditional : ∀ v, v ∉ path → s'.additionalComponents v = s.additionalComponents v) :
    LowInv next path parent s' := by
  have hfound : ∀ v, s'.Found v ↔ s.Found v := fun v => by
    rw [LowState.Found, hdiscovery, LowState.Found]
  have hdisc : ∀ v, s'.disc v = s.disc v := fun v => by
    rw [LowState.disc, hdiscovery, LowState.disc]
  have ha : Agrees path parent s parent s' :=
    { discovery := fun v _ => congrFun hdiscovery v
      low := fun v _ => hlow v
      additional := fun v _ => hadditional v
      parent := fun _ _ => rfl
      parent_new := fun v hnew p hparent => absurd (h.found_parent v p hparent).1 hnew }
  constructor
  case found_parent => simpa only [hfound] using h.found_parent
  case adj_parent => exact h.adj_parent
  case disc_lt => simpa only [hdisc] using h.disc_lt
  case disc_lt_time => simpa only [hfound, hdisc, htime] using h.disc_lt_time
  case comparable => simpa only [hfound] using h.comparable
  case closed => simpa only [hfound] using h.closed
  case path_found => simpa only [hfound] using h.path_found
  case path_up => exact h.path_up
  case additional_zero =>
    intro v hnew
    rw [hfound] at hnew
    rw [hadditional v fun hmem => hnew (h.path_found v hmem)]
    exact h.additional_zero v hnew
  case low_lt_iff =>
    intro v p hv hpath hparent d hd
    exact h.low_lt_iff_of_agrees ha ((hfound v).mp hv) hpath hparent hd
  case additional_eq =>
    intro v hv hpath
    exact h.additional_eq_of_agrees ha ((hfound v).mp hv) hpath

end LowInv

end Invariant

end CodeCity
end Bitloops
