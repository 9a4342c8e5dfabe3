import Bitloops.CodeCity.ComponentCalls
import Bitloops.CodeCity.FileGraph
import Bitloops.CodeCity.TopologicalSort
import Mathlib

/-!
# Layers of a file graph

The components of the graph are taken together to a graph without cycles.  The components are
sorted, and then their layers, the longest path and the share of the edges that go back are found
along the order.
-/

namespace Bitloops
namespace CodeCity

/-! ## The components and their graph -/

/-- The components, ordered by the path of their first file. -/
def stronglyConnectedComponents (graph : FileGraph) : List (List graph.Node) :=
  orderBy (fun component =>
      toLex (component.head?.elim "" fun node => graph.paths[node], component.length))
    (connectAll graph.adjacency (List.finRange graph.paths.length) {}).components

structure CollapsedGraph (graph : FileGraph) where
  componentByNode : graph.Node → ℕ
  components : List (List graph.Node)
  edges : List (ℕ × ℕ)

/-- The index is set for the files of a component. -/
def assignComponent {V : Type*} [DecidableEq V] (byNode : V → ℕ) : List V × ℕ → V → ℕ
  | (component, index) =>
    component.foldl (fun byNode node => Function.update byNode node index) byNode

def collapseStronglyConnectedComponents (graph : FileGraph) (sccs : List (List graph.Node)) :
    CollapsedGraph graph :=
  let componentByNode := sccs.zipIdx.foldl assignComponent fun _ => 0
  let pairs := graph.edges.filterMap fun (source, target) =>
    if componentByNode source ≠ componentByNode target then
      some (toLex (componentByNode source, componentByNode target))
    else none
  { componentByNode
    components := sccs
    edges := (sortDedup pairs).map ofLex }

/-! ## Along the order -/

/-- The component puts its successors above itself. -/
def layerStep (edges : List (ℕ × ℕ)) (layer : ℕ → ℕ) (component : ℕ) : ℕ → ℕ :=
  let current := layer component
  edges.foldl (fun layer (source, target) =>
    if source = component then Function.update layer target (max (layer target) (current + 1))
    else layer) layer

structure GraphLayering where
  componentOrder : List ℕ
  layerByComponent : ℕ → ℕ
  layerCount : ℕ
  layerClarity : ℚ

def inferGraphLayering (graph : FileGraph) (sccs : List (List graph.Node))
    (collapsed : CollapsedGraph graph) : GraphLayering :=
  let count := collapsed.components.length
  let order := (topologicalSort count collapsed.edges).getD (List.range count)
  let layer := order.foldl (layerStep collapsed.edges) fun _ => 0
  let interLayer := graph.edges.filter fun (source, target) =>
    !(collapsed.componentByNode source = collapsed.componentByNode target ∧
      1 < (sccs.getD (collapsed.componentByNode source) []).length)
  let adjacent := interLayer.filter fun (source, target) =>
    layer (collapsed.componentByNode source) + 1 = layer (collapsed.componentByNode target)
  let clarity : ℚ := if interLayer = [] then 1 else adjacent.length / interLayer.length
  { componentOrder := order
    layerByComponent := layer
    layerCount := ((List.range count).map layer).max?.getD 0 + 1
    layerClarity := max 0 (min clarity 1) }

/-- The edges of the component are followed. -/
def distanceStep (edges : List (ℕ × ℕ)) (distance : ℕ → ℕ) (component : ℕ) : ℕ → ℕ :=
  edges.foldl (fun distance (source, target) =>
    if source = component then
      Function.update distance target (max (distance target) (distance source + 1))
    else distance) distance

def longestPathLength {graph : FileGraph} (collapsed : CollapsedGraph graph) (order : List ℕ) : ℕ :=
  let distance := order.foldl (distanceStep collapsed.edges) fun _ => 0
  ((List.range collapsed.components.length).map distance).max?.getD 0

/-- The edge goes back in the order, or it stays in a component of more than one file. -/
def isUpwardOrCyclic {graph : FileGraph} (collapsed : CollapsedGraph graph) (order : List ℕ)
    (edge : graph.Node × graph.Node) : Bool :=
  let left := collapsed.componentByNode edge.1
  let right := collapsed.componentByNode edge.2
  if left = right then 1 < (collapsed.components.getD left []).length
  else order.idxOf right ≤ order.idxOf left

def backEdgeRatio (graph : FileGraph) (collapsed : CollapsedGraph graph) (order : List ℕ) : ℚ :=
  if graph.edges = [] then 0
  else graph.edges.countP (isUpwardOrCyclic collapsed order) / graph.edges.length

/-! ## Longest paths -/

/-- There is a path of the length that ends at the node. -/
inductive PathLength (edges : List (ℕ × ℕ)) : ℕ → ℕ → Prop
  | start (node : ℕ) : PathLength edges node 0
  | step {source target length : ℕ} (hedge : (source, target) ∈ edges)
      (hpath : PathLength edges source length) : PathLength edges target (length + 1)

variable {edges : List (ℕ × ℕ)}

/-- What a step does to the layer of a node. -/
def raised (edges : List (ℕ × ℕ)) (layer : ℕ → ℕ) (component node : ℕ) : ℕ :=
  if (component, node) ∈ edges then max (layer node) (layer component + 1) else layer node

theorem layerStep_apply (edges : List (ℕ × ℕ)) (layer : ℕ → ℕ) (component node : ℕ) :
    layerStep edges layer component node = raised edges layer component node := by
  have hfold : ∀ (current : ℕ) (edges : List (ℕ × ℕ)) (layer : ℕ → ℕ),
      edges.foldl (fun layer (source, target) =>
        if source = component then
          Function.update layer target (max (layer target) (current + 1))
        else layer) layer node =
      if (component, node) ∈ edges then max (layer node) (current + 1) else layer node := by
    intro current edges
    induction edges with
    | nil =>
      intro layer
      rw [if_neg List.not_mem_nil]
      rfl
    | cons edge edges ih =>
      intro layer
      obtain ⟨source, target⟩ := edge
      rw [List.foldl_cons, ih]
      by_cases hsource : source = component
      · subst hsource
        simp only [if_true, Function.update_apply, List.mem_cons, Prod.mk.injEq, true_and]
        by_cases htarget : node = target
        · subst htarget
          simp only [if_true, true_or]
          split_ifs
          · rw [max_assoc, max_self]
          · rfl
        · simp only [htarget, if_false, false_or]
      · have hne : (component, node) ≠ (source, target) := fun heq =>
          hsource (Prod.mk.inj heq).1.symm
        simp only [if_neg hsource, List.mem_cons, hne, false_or]
  exact hfold _ edges layer

/-- Without an edge from the component to itself, both steps do the same. -/
theorem distanceStep_eq {component : ℕ} (h : (component, component) ∉ edges) (layer : ℕ → ℕ) :
    distanceStep edges layer component = layerStep edges layer component := by
  have hfold : ∀ (edges : List (ℕ × ℕ)) (distance : ℕ → ℕ) (current : ℕ),
      (component, component) ∉ edges → distance component = current →
      edges.foldl (fun distance (source, target) =>
        if source = component then
          Function.update distance target (max (distance target) (distance source + 1))
        else distance) distance =
      edges.foldl (fun layer (source, target) =>
        if source = component then
          Function.update layer target (max (layer target) (current + 1))
        else layer) distance := by
    intro edges
    induction edges with
    | nil =>
      intro distance current _ _
      rfl
    | cons edge edges ih =>
      intro distance current hself hcurrent
      obtain ⟨source, target⟩ := edge
      rw [List.mem_cons, not_or] at hself
      rw [List.foldl_cons, List.foldl_cons]
      by_cases hsource : source = component
      · subst hsource
        simp only [if_true, hcurrent]
        refine ih _ _ hself.2 ?_
        have hne : source ≠ target := fun heq => hself.1 (by rw [← heq])
        rw [Function.update_of_ne hne, hcurrent]
      · simp only [if_neg hsource]
        exact ih _ _ hself.2 hcurrent
  exact hfold edges layer _ h rfl

/-- What holds when the front of the order has been gone along. -/
structure Layered (edges : List (ℕ × ℕ)) (front : List ℕ) (layer : ℕ → ℕ) : Prop where
  attained : ∀ node, PathLength edges node (layer node)
  above : ∀ source ∈ front, ∀ target, (source, target) ∈ edges → layer source + 1 ≤ layer target

theorem Layered.step {front rest : List ℕ} {component : ℕ} {layer : ℕ → ℕ}
    (h : Layered edges front layer) (hordered : Ordered edges (front ++ component :: rest))
    (hnodup : (front ++ component :: rest).Nodup) :
    Layered edges (front ++ [component]) (layerStep edges layer component) := by
  -- the layers of the front and of the component itself do not change
  have hkept : ∀ source ∈ front ++ [component],
      layerStep edges layer component source = layer source := by
    intro source hsource
    rw [layerStep_apply, raised, if_neg]
    intro hedge
    have hnotFront : component ∉ front := fun hmem =>
      List.disjoint_of_nodup_append hnodup hmem List.mem_cons_self
    rcases List.mem_append.mp hsource with hsource | hsource
    · obtain ⟨before, after, rfl⟩ := List.append_of_mem hsource
      have hmem := hordered before source (after ++ component :: rest) (by simp) component hedge
      exact hnotFront (List.mem_append_left _ hmem)
    · obtain rfl := List.mem_singleton.mp hsource
      exact hnotFront (hordered front source rest rfl source hedge)
  constructor
  case attained =>
    intro node
    rw [layerStep_apply, raised]
    split_ifs with hedge
    · rcases max_choice (layer node) (layer component + 1) with hmax | hmax
      · rw [hmax]
        exact h.attained node
      · rw [hmax]
        exact .step hedge (h.attained component)
    · exact h.attained node
  case above =>
    intro source hsource target hedge
    rw [hkept source hsource, layerStep_apply, raised]
    rcases List.mem_append.mp hsource with hsource | hsource
    · have hle := h.above source hsource target hedge
      split_ifs
      · exact hle.trans (le_max_left _ _)
      · exact hle
    · obtain rfl := List.mem_singleton.mp hsource
      rw [if_pos hedge]
      exact le_max_right _ _

/-- Along the whole order, every node gets the length of its longest path. -/
theorem layered_foldl {order : List ℕ} (hordered : Ordered edges order) (hnodup : order.Nodup) :
    Layered edges order (order.foldl (layerStep edges) fun _ => 0) := by
  have hrun : ∀ (rest front : List ℕ) (layer : ℕ → ℕ), order = front ++ rest →
      Layered edges front layer → Layered edges order (rest.foldl (layerStep edges) layer) := by
    intro rest
    induction rest with
    | nil =>
      intro front layer horder h
      rw [horder, List.append_nil]
      exact h
    | cons component rest ih =>
      intro front layer horder h
      refine ih (front ++ [component]) _ (by simp [horder]) ?_
      exact h.step (horder ▸ hordered) (horder ▸ hnodup)
  exact hrun order [] _ rfl ⟨fun node => .start node, fun _ h => absurd h List.not_mem_nil⟩

theorem Layered.isGreatest {order : List ℕ} {layer : ℕ → ℕ} (h : Layered edges order layer)
    (hall : ∀ edge ∈ edges, edge.1 ∈ order) (node : ℕ) :
    IsGreatest { length | PathLength edges node length } (layer node) := by
  refine ⟨h.attained node, fun length hpath => ?_⟩
  induction hpath with
  | start node => exact Nat.zero_le _
  | step hedge _ ih =>
    exact (Nat.succ_le_succ ih).trans (h.above _ (hall _ hedge) _ hedge)

end CodeCity
end Bitloops
