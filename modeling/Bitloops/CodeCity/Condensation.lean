import Bitloops.CodeCity.Layering
import Mathlib.Algebra.Field.Rat
import Mathlib.Data.List.GetD

/-!
# The graph of the components

The components are the classes of files that depend on each other, and the graph that they are taken
together to has no cycle.  So the components can always be sorted, the layer of a component is the
length of the longest path to it, and only the edges inside a component count as going back:
`layering_of_components`.
-/

namespace Bitloops
namespace CodeCity

open GraphSearch (Reaches)

variable {graph : FileGraph}

/-! ## Components -/

namespace FileGraph

/-- The second file can be reached from the first one. -/
def Reaches (source target : graph.Node) : Prop := Relation.ReflTransGen DependsOn source target

theorem reaches_adjacency_iff {source target : graph.Node} :
    GraphSearch.Reaches graph.adjacency source target ↔ Reaches source target := by
  have hstep : (fun a b => b ∈ graph.adjacency a) = fun a b : graph.Node => DependsOn a b :=
    funext₂ fun _ _ => propext mem_adjacency
  rw [GraphSearch.Reaches, hstep, Reaches]

/-- Files that reach each other, and all of them. -/
structure IsComponent (component : List graph.Node) : Prop where
  ne_nil : component ≠ []
  mem_iff : ∀ source ∈ component, ∀ target,
    target ∈ component ↔ Reaches source target ∧ Reaches target source

end FileGraph

open FileGraph (IsComponent DependsOn)

/-- Every file stands in one component. -/
structure ComponentList (sccs : List (List graph.Node)) : Prop where
  covers : ∀ node, node ∈ sccs.flatten
  nodup : sccs.flatten.Nodup
  isComponent : ∀ component ∈ sccs, IsComponent component

theorem componentList (graph : FileGraph) : ComponentList (stronglyConnectedComponents graph) := by
  obtain ⟨hcovers, hnodup, hclasses⟩ := @components_connectAll _ graph.adjacency _ _ _
    List.mem_finRange
  have hperm := perm_orderBy (fun component : List graph.Node =>
      toLex (component.head?.elim "" fun node => graph.paths[node], component.length))
    (connectAll graph.adjacency (List.finRange graph.paths.length) {}).components
  constructor
  case covers => exact fun node => hperm.flatten.mem_iff.mpr (hcovers node)
  case nodup => exact hperm.flatten.nodup_iff.mpr hnodup
  case isComponent =>
    intro component hcomponent
    obtain ⟨hne, hmem⟩ := hclasses component (hperm.mem_iff.mp hcomponent)
    refine ⟨hne, fun source hsource target => ?_⟩
    rw [hmem source hsource, FileGraph.reaches_adjacency_iff, FileGraph.reaches_adjacency_iff]

/-! ## The index of a component -/

theorem assignComponent_apply {V : Type*} [DecidableEq V] (byNode : V → ℕ) (component : List V)
    (index : ℕ) (node : V) :
    assignComponent byNode (component, index) node =
      if node ∈ component then index else byNode node := by
  rw [assignComponent]
  induction component generalizing byNode with
  | nil => rfl
  | cons other component ih =>
    rw [List.foldl_cons, ih, Function.update_apply]
    by_cases hmem : node ∈ component
    · rw [if_pos hmem, if_pos (List.mem_cons_of_mem _ hmem)]
    · rw [if_neg hmem]
      simp only [List.mem_cons, hmem, or_false]

theorem foldl_assignComponent {V : Type*} [DecidableEq V] {numbered : List (List V × ℕ)}
    (hnodup : (numbered.map Prod.fst).flatten.Nodup) {component : List V} {index : ℕ}
    (hmem : (component, index) ∈ numbered) {node : V} (hnode : node ∈ component)
    (byNode : V → ℕ) : numbered.foldl assignComponent byNode node = index := by
  have hother : ∀ (numbered : List (List V × ℕ)) (byNode : V → ℕ),
      node ∉ (numbered.map Prod.fst).flatten →
        numbered.foldl assignComponent byNode node = byNode node := by
    intro numbered
    induction numbered with
    | nil => exact fun _ _ => rfl
    | cons pair numbered ih =>
      intro byNode hnot
      rw [List.map_cons, List.flatten_cons, List.mem_append, not_or] at hnot
      rw [List.foldl_cons, ih _ hnot.2, assignComponent_apply, if_neg hnot.1]
  induction numbered generalizing byNode with
  | nil => exact absurd hmem List.not_mem_nil
  | cons pair numbered ih =>
    rw [List.map_cons, List.flatten_cons, List.nodup_append'] at hnodup
    rw [List.foldl_cons]
    rcases List.mem_cons.mp hmem with rfl | hmem
    · rw [hother _ _ fun hmem => hnodup.2.2 hnode hmem, assignComponent_apply, if_pos hnode]
    · exact ih hnodup.2.1 hmem _

section Collapsed

variable {sccs : List (List graph.Node)}

theorem componentByNode_eq (h : ComponentList sccs) {index : ℕ} {node : graph.Node}
    (hnode : node ∈ sccs.getD index []) :
    (collapseStronglyConnectedComponents graph sccs).componentByNode node = index := by
  have hlt : index < sccs.length := by
    by_contra hge
    rw [List.getD_eq_default _ _ (Nat.le_of_not_lt hge)] at hnode
    exact List.not_mem_nil hnode
  have hnodup : (sccs.zipIdx.map Prod.fst).flatten.Nodup := by
    rw [List.zipIdx_map_fst]
    exact h.nodup
  rw [List.getD_eq_getElem _ _ hlt] at hnode
  exact foldl_assignComponent hnodup
    (List.mk_mem_zipIdx_iff_getElem?.mpr (List.getElem?_eq_getElem hlt)) hnode _

/-- Every file is in the component with its index. -/
theorem mem_component (h : ComponentList sccs) (node : graph.Node) :
    node ∈ sccs.getD
      ((collapseStronglyConnectedComponents graph sccs).componentByNode node) [] := by
  obtain ⟨component, hcomponent, hnode⟩ := List.mem_flatten.mp (h.covers node)
  obtain ⟨index, hlt, rfl⟩ := List.mem_iff_getElem.mp hcomponent
  rw [← List.getD_eq_getElem _ [] hlt] at hnode
  rw [componentByNode_eq h hnode]
  exact hnode

theorem componentByNode_lt (h : ComponentList sccs) (node : graph.Node) :
    (collapseStronglyConnectedComponents graph sccs).componentByNode node < sccs.length := by
  have hmem := mem_component h node
  by_contra hge
  rw [List.getD_eq_default _ _ (Nat.le_of_not_lt hge)] at hmem
  exact List.not_mem_nil hmem

theorem component_mem (h : ComponentList sccs) (node : graph.Node) :
    sccs.getD ((collapseStronglyConnectedComponents graph sccs).componentByNode node) [] ∈ sccs := by
  rw [List.getD_eq_getElem _ _ (componentByNode_lt h node)]
  exact List.getElem_mem _

/-- Two files have the same component when they reach each other. -/
theorem componentByNode_eq_iff (h : ComponentList sccs) {source target : graph.Node} :
    (collapseStronglyConnectedComponents graph sccs).componentByNode source =
        (collapseStronglyConnectedComponents graph sccs).componentByNode target ↔
      FileGraph.Reaches source target ∧ FileGraph.Reaches target source := by
  rw [← (h.isComponent _ (component_mem h source)).mem_iff source (mem_component h source)]
  constructor
  · intro heq
    rw [heq]
    exact mem_component h target
  · intro hmem
    exact (componentByNode_eq h hmem).symm

/-! ## The graph of the components -/

theorem mem_collapsed_edges {left right : ℕ} :
    (left, right) ∈ (collapseStronglyConnectedComponents graph sccs).edges ↔
      left ≠ right ∧ ∃ source target : graph.Node, DependsOn source target ∧
        (collapseStronglyConnectedComponents graph sccs).componentByNode source = left ∧
          (collapseStronglyConnectedComponents graph sccs).componentByNode target = right := by
  change (left, right) ∈ (sortDedup _).map ofLex ↔ _
  rw [List.mem_map]
  simp only [mem_sortDedup, List.mem_filterMap]
  constructor
  · rintro ⟨pair, ⟨⟨source, target⟩, hedge, hpair⟩, heq⟩
    split_ifs at hpair with hne
    obtain rfl := Option.some.inj hpair
    obtain ⟨rfl, rfl⟩ := Prod.mk.inj heq
    exact ⟨hne, source, target, hedge, rfl, rfl⟩
  · rintro ⟨hne, source, target, hedge, rfl, rfl⟩
    exact ⟨_, ⟨(source, target), hedge, if_pos hne⟩, rfl⟩

theorem simpleEdges (h : ComponentList sccs) :
    SimpleEdges sccs.length (collapseStronglyConnectedComponents graph sccs).edges where
  nodup := (List.nodup_dedup _).map ofLex.injective
  bounds := by
    rintro ⟨left, right⟩ hedge
    obtain ⟨-, source, target, -, rfl, rfl⟩ := mem_collapsed_edges.mp hedge
    exact ⟨componentByNode_lt h source, componentByNode_lt h target⟩

/-- Along the edges of the components, files reach each other. -/
theorem reaches_of_components (h : ComponentList sccs) {left right : ℕ}
    (hpath : Relation.ReflTransGen
      (fun a b => (a, b) ∈ (collapseStronglyConnectedComponents graph sccs).edges) left right) :
    ∀ source target : graph.Node,
      (collapseStronglyConnectedComponents graph sccs).componentByNode source = left →
        (collapseStronglyConnectedComponents graph sccs).componentByNode target = right →
          FileGraph.Reaches source target := by
  induction hpath with
  | refl =>
    intro source target hsource htarget
    exact ((componentByNode_eq_iff h).mp (hsource.trans htarget.symm)).1
  | tail _ hedge ih =>
    intro source target hsource htarget
    obtain ⟨-, before, after, hdepends, hbefore, hafter⟩ := mem_collapsed_edges.mp hedge
    have hsame := ((componentByNode_eq_iff h).mp (hafter.trans htarget.symm)).1
    exact ((ih source before hsource hbefore).tail hdepends).trans hsame

/-- The graph of the components has no cycle. -/
theorem acyclic_collapsed (h : ComponentList sccs) (component : ℕ) :
    ¬Relation.TransGen
      (fun a b => (a, b) ∈ (collapseStronglyConnectedComponents graph sccs).edges)
      component component := by
  intro hcycle
  obtain ⟨other, hedge, hback⟩ := Relation.TransGen.head'_iff.mp hcycle
  obtain ⟨hne, source, target, hdepends, hsource, htarget⟩ := mem_collapsed_edges.mp hedge
  have hreturn := reaches_of_components h hback target source htarget hsource
  have hsame := (componentByNode_eq_iff h).mpr ⟨.single hdepends, hreturn⟩
  exact hne (hsource.symm.trans (hsame.trans htarget))

end Collapsed

/-! ## The layers -/

/-- The edges of the files that stay in a component of more than one file. -/
def StaysInComponent (sccs : List (List graph.Node)) (edge : graph.Node × graph.Node) : Prop :=
  ∃ component ∈ sccs, 1 < component.length ∧ edge.1 ∈ component ∧ edge.2 ∈ component

instance (sccs : List (List graph.Node)) (edge : graph.Node × graph.Node) :
    Decidable (StaysInComponent sccs edge) :=
  inferInstanceAs (Decidable (∃ component ∈ sccs, _))

/-- The order of the components is found, and an edge between two of them goes forward. -/
theorem idxOf_lt_idxOf {edges : List (ℕ × ℕ)} {order : List ℕ} (hordered : Ordered edges order)
    {left right : ℕ} (hright : right ∈ order) (hnodup : order.Nodup)
    (hedge : (left, right) ∈ edges) : order.idxOf left < order.idxOf right := by
  obtain ⟨front, rest, rfl⟩ := List.append_of_mem hright
  have hleft := hordered front right rest rfl left hedge
  have hnot : right ∉ front := fun hmem =>
    List.disjoint_of_nodup_append hnodup hmem List.mem_cons_self
  rw [List.idxOf_append_of_mem hleft, List.idxOf_append_of_notMem hnot, List.idxOf_cons_self,
    Nat.add_zero]
  exact List.idxOf_lt_length_of_mem hleft

theorem isUpwardOrCyclic_iff {sccs : List (List graph.Node)} (h : ComponentList sccs)
    {order : List ℕ} (hperm : order.Perm (List.range sccs.length))
    (hordered : Ordered (collapseStronglyConnectedComponents graph sccs).edges order)
    {edge : graph.Node × graph.Node} (hedge : edge ∈ graph.edges) :
    isUpwardOrCyclic (collapseStronglyConnectedComponents graph sccs) order edge = true ↔
      StaysInComponent sccs edge := by
  obtain ⟨source, target⟩ := edge
  rw [isUpwardOrCyclic]
  simp only
  split_ifs with hsame
  · rw [decide_eq_true_eq]
    constructor
    · intro hlarge
      refine ⟨_, component_mem h source, hlarge, mem_component h source, ?_⟩
      change target ∈ _
      rw [hsame]
      exact mem_component h target
    · rintro ⟨component, hcomponent, hlarge, hsource, -⟩
      obtain ⟨index, hlt, rfl⟩ := List.mem_iff_getElem.mp hcomponent
      rw [← List.getD_eq_getElem _ [] hlt] at hsource hlarge
      rw [componentByNode_eq h hsource]
      exact hlarge
  · rw [decide_eq_true_eq]
    refine iff_of_false ?_ ?_
    · refine Nat.not_le.mpr (idxOf_lt_idxOf hordered ?_ ?_ (mem_collapsed_edges.mpr
        ⟨hsame, source, target, hedge, rfl, rfl⟩))
      · exact hperm.mem_iff.mpr (List.mem_range.mpr (componentByNode_lt h target))
      · exact hperm.nodup_iff.mpr List.nodup_range
    · rintro ⟨component, hcomponent, -, hsource, htarget⟩
      obtain ⟨index, hlt, rfl⟩ := List.mem_iff_getElem.mp hcomponent
      rw [← List.getD_eq_getElem _ [] hlt] at hsource htarget
      exact hsame ((componentByNode_eq h hsource).trans (componentByNode_eq h htarget).symm)

/-- The steps of the longest path do the same as those of the layers. -/
theorem foldl_distanceStep {edges : List (ℕ × ℕ)}
    (hself : ∀ component, (component, component) ∉ edges) (order : List ℕ) (distance : ℕ → ℕ) :
    order.foldl (distanceStep edges) distance = order.foldl (layerStep edges) distance := by
  induction order generalizing distance with
  | nil => rfl
  | cons component order ih =>
    rw [List.foldl_cons, List.foldl_cons, distanceStep_eq (hself component), ih]

/-- The greatest of the lengths is that of a longest path. -/
theorem isGreatest_max {edges : List (ℕ × ℕ)} {count : ℕ} {length : ℕ → ℕ}
    (hbounds : ∀ edge ∈ edges, edge.1 < count ∧ edge.2 < count)
    (hlength : ∀ node, IsGreatest { k | PathLength edges node k } (length node)) :
    IsGreatest { k | ∃ node, PathLength edges node k }
      (((List.range count).map length).max?.getD 0) := by
  cases hmax : ((List.range count).map length).max? with
  | none =>
    rw [List.max?_eq_none_iff, List.map_eq_nil_iff, List.range_eq_nil] at hmax
    refine ⟨⟨0, .start 0⟩, ?_⟩
    rintro k ⟨node, hpath⟩
    cases hpath with
    | start => exact Nat.le_refl 0
    | step hedge _ => exact absurd (hbounds _ hedge).2 (by rw [hmax]; exact Nat.not_lt_zero _)
  | some greatest =>
    obtain ⟨hmem, hle⟩ := List.max?_eq_some_iff.mp hmax
    obtain ⟨node, -, rfl⟩ := List.mem_map.mp hmem
    refine ⟨⟨node, (hlength node).1⟩, ?_⟩
    rintro k ⟨other, hpath⟩
    cases hpath with
    | start => exact Nat.zero_le _
    | step hedge hpath =>
      refine ((hlength other).2 (PathLength.step hedge hpath)).trans (hle _ ?_)
      exact List.mem_map_of_mem (List.mem_range.mpr (hbounds _ hedge).2)

/-- The components of a file graph are its classes of files that reach each other, and what is
found along them is right. -/
theorem layering_of_components (graph : FileGraph) :
    let sccs := stronglyConnectedComponents graph
    let collapsed := collapseStronglyConnectedComponents graph sccs
    let layering := inferGraphLayering graph sccs collapsed
    ComponentList sccs ∧
      (∀ component,
        ¬Relation.TransGen (fun a b => (a, b) ∈ collapsed.edges) component component) ∧
      topologicalSort collapsed.components.length collapsed.edges =
        some layering.componentOrder ∧
      (∀ component, IsGreatest { length | PathLength collapsed.edges component length }
        (layering.layerByComponent component)) ∧
      IsGreatest { length | ∃ component, PathLength collapsed.edges component length }
        (longestPathLength collapsed layering.componentOrder) ∧
      backEdgeRatio graph collapsed layering.componentOrder =
        graph.edges.countP (StaysInComponent sccs) / graph.edges.length := by
  intro sccs collapsed layering
  have hlist : ComponentList sccs := componentList graph
  have hacyclic := acyclic_collapsed hlist
  obtain ⟨order, hsort, hperm, hordered⟩ := exists_topologicalSort (simpleEdges hlist) hacyclic
  have hnodup : order.Nodup := hperm.nodup_iff.mpr List.nodup_range
  have horder : layering.componentOrder = order := by
    change (topologicalSort sccs.length collapsed.edges).getD _ = order
    rw [hsort, Option.getD_some]
  have hlayer : layering.layerByComponent = order.foldl (layerStep collapsed.edges) fun _ => 0 := by
    change ((topologicalSort sccs.length collapsed.edges).getD _).foldl _ _ = _
    rw [hsort, Option.getD_some]
  have hgreatest : ∀ component, IsGreatest { length | PathLength collapsed.edges component length }
      (layering.layerByComponent component) := by
    rw [hlayer]
    refine (layered_foldl hordered hnodup).isGreatest fun edge hedge => ?_
    exact hperm.mem_iff.mpr (List.mem_range.mpr ((simpleEdges hlist).bounds edge hedge).1)
  refine ⟨hlist, hacyclic, hsort.trans (congrArg some horder.symm), hgreatest, ?_, ?_⟩
  · rw [longestPathLength, horder, foldl_distanceStep fun component hedge =>
      hacyclic component (.single hedge), ← hlayer]
    exact isGreatest_max (simpleEdges hlist).bounds hgreatest
  · rw [backEdgeRatio, horder]
    split_ifs with hnil
    · rw [hnil, List.countP_nil, Nat.cast_zero, zero_div]
    · rw [List.countP_congr fun edge hedge => ?_]
      rw [isUpwardOrCyclic_iff hlist hperm hordered hedge, decide_eq_true_eq]

/-! ## Edges with cycles -/

theorem perm_range_of_topologicalSort {nodeCount : ℕ} {edges : List (ℕ × ℕ)} {order : List ℕ}
    (hedges : SimpleEdges nodeCount edges) (h : topologicalSort nodeCount edges = some order) :
    order.Perm (List.range nodeCount) ∧ Ordered edges order := by
  obtain ⟨hsorting, -⟩ := sorting_sortLoop hedges nodeCount (sortStart nodeCount edges)
    (sorting_start nodeCount edges) (Nat.le_add_left _ _)
  rw [topologicalSort] at h
  set state := sortLoop (sortAdjacency edges) nodeCount (sortStart nodeCount edges)
  split_ifs at h with hlength
  obtain rfl := Option.some.inj h
  refine ⟨?_, hsorting.ordered⟩
  have hsubset : state.order ⊆ List.range nodeCount := fun node hnode =>
    List.mem_range.mpr ((hsorting.mem_iff node).mp (List.mem_append_left _ hnode)).1
  exact ((List.nodup_append.mp hsorting.nodup).1.subperm hsubset).perm_of_length_le
    (by rw [hlength, List.length_range])

/-- The sort succeeds exactly when the edges have no cycle, and its order lists every node once and
leads every edge forward. -/
theorem topologicalSort_spec {nodeCount : ℕ} {edges : List (ℕ × ℕ)}
    (hedges : SimpleEdges nodeCount edges) :
    ((topologicalSort nodeCount edges).isSome ↔
        ∀ node, ¬Relation.TransGen (fun a b => (a, b) ∈ edges) node node) ∧
      ∀ order, topologicalSort nodeCount edges = some order →
        order.Perm (List.range nodeCount) ∧
          ∀ edge ∈ edges, order.idxOf edge.1 < order.idxOf edge.2 := by
  have hforward : ∀ order, topologicalSort nodeCount edges = some order →
      order.Perm (List.range nodeCount) ∧
        ∀ edge ∈ edges, order.idxOf edge.1 < order.idxOf edge.2 := by
    intro order horder
    obtain ⟨hperm, hordered⟩ := perm_range_of_topologicalSort hedges horder
    refine ⟨hperm, fun edge hedge => ?_⟩
    exact idxOf_lt_idxOf hordered
      (hperm.mem_iff.mpr (List.mem_range.mpr (hedges.bounds edge hedge).2))
      (hperm.nodup_iff.mpr List.nodup_range) hedge
  refine ⟨⟨fun h node hcycle => ?_, fun hacyclic => ?_⟩, hforward⟩
  · obtain ⟨order, horder⟩ := Option.isSome_iff_exists.mp h
    have hlt : ∀ target, Relation.TransGen (fun a b => (a, b) ∈ edges) node target →
        order.idxOf node < order.idxOf target := by
      intro target hpath
      induction hpath with
      | single hedge => exact (hforward order horder).2 _ hedge
      | tail _ hedge ih => exact ih.trans ((hforward order horder).2 _ hedge)
    exact lt_irrefl _ (hlt node hcycle)
  · obtain ⟨order, horder, -⟩ := exists_topologicalSort hedges hacyclic
    exact Option.isSome_iff_exists.mpr ⟨order, horder⟩

/-- Two nodes that lead to each other. -/
theorem topologicalSort_cycle :
    topologicalSort 2 [(0, 1), (1, 0)] = none ∧
      ¬∀ node, ¬Relation.TransGen (fun a b => (a, b) ∈ [(0, 1), (1, 0)]) node node := by
  have hnone : topologicalSort 2 [(0, 1), (1, 0)] = none := by decide
  refine ⟨hnone, fun hacyclic => ?_⟩
  have hedges : SimpleEdges 2 [(0, 1), (1, 0)] := ⟨by decide, by decide⟩
  have hsome := (topologicalSort_spec hedges).1.mpr hacyclic
  rw [hnone] at hsome
  cases hsome

end CodeCity
end Bitloops
