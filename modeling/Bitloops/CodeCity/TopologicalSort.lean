import Bitloops.Foundation.OrderBy
import Mathlib.Data.List.Count
import Mathlib.Data.Finset.Basic
import Mathlib.Logic.Relation
import Mathlib.Order.WellFoundedSet

/-!
# Topological sorting

Nodes without incoming edges are ready.  The least node that is ready comes next in the order, and
its edges are taken away.  When there is no cycle, all nodes come into the order:
`exists_topologicalSort`.
-/

namespace Bitloops
namespace CodeCity

/-! ## The sort -/

structure SortState where
  indegree : ℕ → ℕ
  ready : List ℕ
  order : List ℕ := []

/-- An edge to the node is taken away. -/
def release (state : SortState) (next : ℕ) : SortState :=
  { state with
    indegree := Function.update state.indegree next (state.indegree next - 1)
    ready := if state.indegree next - 1 = 0 then orderBy id (next :: state.ready) else state.ready }

/-- The nodes that are ready come into the order, the next one first.  There are no more steps than
nodes. -/
def sortLoop (adjacency : ℕ → List ℕ) : ℕ → SortState → SortState
  | 0, state => state
  | steps + 1, state =>
    match state.ready with
    | [] => state
    | node :: ready =>
      sortLoop adjacency steps ((adjacency node).foldl release
        { state with ready, order := state.order ++ [node] })

def sortAdjacency (edges : List (ℕ × ℕ)) (node : ℕ) : List ℕ :=
  sortDedup ((edges.filter fun edge => edge.1 = node).map Prod.snd)

def indegree (edges : List (ℕ × ℕ)) (node : ℕ) : ℕ := edges.countP fun edge => edge.2 = node

def sortStart (nodeCount : ℕ) (edges : List (ℕ × ℕ)) : SortState :=
  { indegree := indegree edges
    ready := (List.range nodeCount).filter fun node => indegree edges node = 0 }

def topologicalSort (nodeCount : ℕ) (edges : List (ℕ × ℕ)) : Option (List ℕ) :=
  let state := sortLoop (sortAdjacency edges) nodeCount (sortStart nodeCount edges)
  if state.order.length = nodeCount then some state.order else none

/-! ## What holds of the order -/

variable {nodeCount : ℕ} {edges : List (ℕ × ℕ)} {state : SortState}

theorem nodup_sortAdjacency (node : ℕ) : (sortAdjacency edges node).Nodup := List.nodup_dedup _

theorem mem_sortAdjacency {node next : ℕ} :
    next ∈ sortAdjacency edges node ↔ (node, next) ∈ edges := by
  rw [sortAdjacency, mem_sortDedup, List.mem_map]
  constructor
  · rintro ⟨⟨source, target⟩, hmem, rfl⟩
    obtain ⟨hedge, hsource⟩ := List.mem_filter.mp hmem
    obtain rfl := of_decide_eq_true hsource
    exact hedge
  · intro h
    exact ⟨(node, next), List.mem_filter.mpr ⟨h, decide_eq_true rfl⟩, rfl⟩

/-- Every edge to a node of the order comes from a node before it. -/
def Ordered (edges : List (ℕ × ℕ)) (order : List ℕ) : Prop :=
  ∀ front node rest, order = front ++ node :: rest → ∀ source, (source, node) ∈ edges →
    source ∈ front

/-- How many edges to the node come from nodes that are not in the order. -/
def pending (edges : List (ℕ × ℕ)) (order : List ℕ) (node : ℕ) : ℕ :=
  edges.countP fun edge => edge.2 = node ∧ edge.1 ∉ order

structure Sorting (nodeCount : ℕ) (edges : List (ℕ × ℕ)) (state : SortState) : Prop where
  nodup : (state.order ++ state.ready).Nodup
  indegree : ∀ node, state.indegree node = pending edges state.order node
  mem_iff : ∀ node, node ∈ state.order ++ state.ready ↔
    node < nodeCount ∧ state.indegree node = 0
  ordered : Ordered edges state.order

theorem pending_eq_zero_iff {order : List ℕ} {node : ℕ} :
    pending edges order node = 0 ↔ ∀ source, (source, node) ∈ edges → source ∈ order := by
  rw [pending, List.countP_eq_zero]
  constructor
  · intro h source hedge
    have hnot := h _ hedge
    rw [decide_eq_true_eq, not_and_not_right] at hnot
    exact hnot rfl
  · rintro h ⟨source, target⟩ hedge
    rw [decide_eq_true_eq, not_and_not_right]
    rintro rfl
    exact h source hedge

/-- A node that comes into the order takes its edges with it. -/
theorem pending_append (hedges : edges.Nodup) {order : List ℕ} {node : ℕ} (hnode : node ∉ order)
    (next : ℕ) :
    pending edges (order ++ [node]) next =
      pending edges order next - (if (node, next) ∈ edges then 1 else 0) := by
  have hsplit : pending edges order next = pending edges (order ++ [node]) next +
      edges.count (node, next) := by
    rw [pending, pending, List.count, List.countP_eq_countP_filter_add edges _
      fun edge => edge.1 ≠ node, List.countP_filter, List.countP_filter]
    congr 1
    · refine List.countP_congr fun edge _ => ?_
      simp only [decide_eq_true_eq, Bool.and_eq_true, List.mem_append, List.mem_singleton]
      tauto
    · refine List.countP_congr fun edge _ => ?_
      obtain ⟨source, target⟩ := edge
      simp only [Bool.and_eq_true, decide_eq_true_eq, beq_iff_eq, Prod.mk.injEq, decide_not,
        Bool.not_not]
      constructor
      · rintro ⟨⟨rfl, -⟩, rfl⟩
        exact ⟨rfl, rfl⟩
      · rintro ⟨rfl, rfl⟩
        exact ⟨⟨rfl, hnode⟩, rfl⟩
  rw [hsplit]
  split_ifs with hmem
  · rw [List.count_eq_one_of_mem hedges hmem]
    rfl
  · rw [List.count_eq_zero_of_not_mem hmem]
    rfl

/-- What the edges of a node do when they are taken away. -/
theorem foldl_release {targets : List ℕ} (htargets : targets.Nodup) (state : SortState) :
    (targets.foldl release state).order = state.order ∧
      (∀ node, (targets.foldl release state).indegree node =
        state.indegree node - (if node ∈ targets then 1 else 0)) ∧
      (targets.foldl release state).ready.Perm
        (state.ready ++ targets.filter fun node => state.indegree node - 1 = 0) := by
  induction targets generalizing state with
  | nil =>
    refine ⟨rfl, fun node => ?_, ?_⟩
    · rw [if_neg List.not_mem_nil]
      rfl
    · rw [List.filter_nil, List.append_nil]
      exact List.Perm.refl _
  | cons next targets ih =>
    obtain ⟨hnext, htargets⟩ := List.nodup_cons.mp htargets
    obtain ⟨horder, hindegree, hready⟩ := ih htargets (release state next)
    have hrelease : ∀ node, (release state next).indegree node =
        if node = next then state.indegree next - 1 else state.indegree node :=
      fun node => Function.update_apply ..
    refine ⟨horder, fun node => ?_, ?_⟩
    · refine (hindegree node).trans ?_
      rw [hrelease]
      by_cases heq : node = next
      · rw [if_pos heq, if_neg (heq ▸ hnext), if_pos (heq ▸ List.mem_cons_self), heq]
        rfl
      · rw [if_neg heq]
        simp only [List.mem_cons, heq, false_or]
    · have hfilter : targets.filter (fun node => (release state next).indegree node - 1 = 0) =
          targets.filter fun node => state.indegree node - 1 = 0 := by
        refine List.filter_congr fun node hnode => ?_
        have hne : node ≠ next := fun heq => hnext (heq ▸ hnode)
        rw [hrelease, if_neg hne]
      rw [hfilter] at hready
      refine hready.trans ?_
      rw [release, List.filter_cons]
      by_cases hzero : state.indegree next - 1 = 0
      · rw [if_pos hzero, if_pos (decide_eq_true hzero)]
        exact ((perm_orderBy id _).append_right _).trans List.perm_middle.symm
      · rw [if_neg hzero, if_neg fun h => hzero (of_decide_eq_true h)]

/-! ## The loop -/

/-- The edges join different nodes of the graph, each pair at most once. -/
structure SimpleEdges (nodeCount : ℕ) (edges : List (ℕ × ℕ)) : Prop where
  nodup : edges.Nodup
  bounds : ∀ edge ∈ edges, edge.1 < nodeCount ∧ edge.2 < nodeCount

theorem sorting_start (nodeCount : ℕ) (edges : List (ℕ × ℕ)) :
    Sorting nodeCount edges (sortStart nodeCount edges) where
  nodup := List.nodup_range.filter _
  indegree := by
    intro node
    refine List.countP_congr fun edge _ => ?_
    simp [sortStart]
  mem_iff := by
    intro node
    change node ∈ [] ++ List.filter _ _ ↔ _
    rw [List.nil_append, List.mem_filter, List.mem_range, decide_eq_true_eq]
    rfl
  ordered := by
    intro front node rest h
    exact absurd h.symm (List.append_ne_nil_of_right_ne_nil _ (List.cons_ne_nil _ _))

theorem Ordered.append {order : List ℕ} (h : Ordered edges order) {node : ℕ}
    (hnode : ∀ source, (source, node) ∈ edges → source ∈ order) :
    Ordered edges (order ++ [node]) := by
  intro front last rest hsplit source hedge
  rcases List.eq_nil_or_concat' rest with rfl | ⟨rest, end_, rfl⟩
  · obtain ⟨rfl, hlast⟩ := List.append_inj' hsplit rfl
    obtain rfl := List.head_eq_of_cons_eq hlast
    exact hnode source hedge
  · rw [← List.cons_append, ← List.append_assoc] at hsplit
    obtain ⟨rfl, -⟩ := List.append_inj' hsplit rfl
    exact h front last rest rfl source hedge

/-- A step of the loop. -/
theorem Sorting.visit (hedges : SimpleEdges nodeCount edges) (h : Sorting nodeCount edges state)
    {node : ℕ} {ready : List ℕ} (hready : state.ready = node :: ready) :
    Sorting nodeCount edges ((sortAdjacency edges node).foldl release
      { state with ready, order := state.order ++ [node] }) := by
  have hnodup := h.nodup
  rw [hready] at hnodup
  have hnode : node ∉ state.order := fun hmem =>
    List.disjoint_of_nodup_append hnodup hmem List.mem_cons_self
  have hzero := ((h.mem_iff node).mp (by rw [hready]; simp)).2
  obtain ⟨horder, hindegree, hreleased⟩ := foldl_release
    (nodup_sortAdjacency  node) { state with ready, order := state.order ++ [node] }
  have hpending : ∀ next, (node, next) ∈ edges → state.indegree next ≠ 0 := by
    intro next hedge
    rw [h.indegree, Ne, pending_eq_zero_iff]
    exact fun hall => hnode (hall node hedge)
  have hperm : (state.order ++ [node] ++ ((sortAdjacency edges node).foldl release
      { state with ready, order := state.order ++ [node] }).ready).Perm
        (state.order ++ state.ready ++
          (sortAdjacency edges node).filter fun next => state.indegree next - 1 = 0) := by
    refine (hreleased.append_left _).trans ?_
    rw [hready, List.append_assoc, List.append_assoc, List.singleton_append, List.cons_append]
  constructor
  case nodup =>
    rw [horder]
    refine hperm.nodup_iff.mpr (List.nodup_append'.mpr ⟨h.nodup, ?_, fun next hmem hmem' => ?_⟩)
    · exact (nodup_sortAdjacency node).filter _
    · exact hpending next (mem_sortAdjacency.mp (List.mem_filter.mp hmem').1)
        ((h.mem_iff next).mp hmem).2
  case indegree =>
    intro next
    rw [hindegree, horder, pending_append hedges.nodup hnode, ← h.indegree]
    simp only [mem_sortAdjacency]
  case mem_iff =>
    intro next
    rw [horder, hperm.mem_iff, List.mem_append, h.mem_iff, hindegree]
    simp only [List.mem_filter, decide_eq_true_eq, mem_sortAdjacency]
    constructor
    · rintro (⟨hlt, hdegree⟩ | ⟨hedge, hdegree⟩)
      · exact ⟨hlt, by rw [hdegree, Nat.zero_sub]⟩
      · refine ⟨(hedges.bounds _ hedge).2, ?_⟩
        rw [if_pos hedge]
        exact hdegree
    · rintro ⟨hlt, hdegree⟩
      by_cases hedge : (node, next) ∈ edges
      · rw [if_pos hedge] at hdegree
        exact Or.inr ⟨hedge, hdegree⟩
      · rw [if_neg hedge] at hdegree
        exact Or.inl ⟨hlt, hdegree⟩
  case ordered =>
    rw [horder]
    refine h.ordered.append ?_
    rw [h.indegree, pending_eq_zero_iff] at hzero
    exact hzero

theorem Sorting.length_le (h : Sorting nodeCount edges state) :
    (state.order ++ state.ready).length ≤ nodeCount := by
  have hsubset : (state.order ++ state.ready).toFinset ⊆ Finset.range nodeCount := by
    intro node hnode
    exact Finset.mem_range.mpr ((h.mem_iff node).mp (List.mem_toFinset.mp hnode)).1
  have hcard := Finset.card_le_card hsubset
  rwa [List.toFinset_card_of_nodup h.nodup, Finset.card_range] at hcard

/-- In the end no node is ready. -/
theorem sorting_sortLoop (hedges : SimpleEdges nodeCount edges) (steps : ℕ) :
    ∀ state, Sorting nodeCount edges state → nodeCount ≤ state.order.length + steps →
      Sorting nodeCount edges (sortLoop (sortAdjacency edges) steps state) ∧
        (sortLoop (sortAdjacency edges) steps state).ready = [] := by
  induction steps with
  | zero =>
    intro state h hsteps
    have hlength := h.length_le
    rw [List.length_append] at hlength
    exact ⟨h, List.eq_nil_of_length_eq_zero (by change state.ready.length = 0; omega)⟩
  | succ steps ih =>
    intro state h hsteps
    rw [sortLoop]
    split
    · rename_i hready
      exact ⟨h, hready⟩
    · rename_i node ready hready
      refine ih _ (h.visit hedges hready) ?_
      rw [(foldl_release (nodup_sortAdjacency node) _).1, List.length_append, List.length_singleton]
      omega

/-- What is sorted: every edge goes forward, and all nodes are there when there is no cycle. -/
theorem exists_topologicalSort (hedges : SimpleEdges nodeCount edges)
    (hacyclic : ∀ node, ¬Relation.TransGen (fun a b => (a, b) ∈ edges) node node) :
    ∃ order, topologicalSort nodeCount edges = some order ∧ order.Perm (List.range nodeCount) ∧
      Ordered edges order := by
  obtain ⟨hsorting, hready⟩ := sorting_sortLoop hedges nodeCount (sortStart nodeCount edges)
    (sorting_start nodeCount edges) (Nat.le_add_left _ _)
  set state := sortLoop (sortAdjacency edges) nodeCount (sortStart nodeCount edges) with hstate
  have hmem := hsorting.mem_iff
  have hnodup := hsorting.nodup
  rw [hready, List.append_nil] at hmem hnodup
  -- a node comes into the order after those that lead to it
  have hall : ∀ node, node < nodeCount → node ∈ state.order := by
    let before : ℕ → ℕ → Prop := Relation.TransGen fun a b => (a, b) ∈ edges
    have hstrict : IsStrictOrder ℕ before :=
      { irrefl := hacyclic, trans := fun _ _ _ => Relation.TransGen.trans }
    have hwell : (Set.Iio nodeCount).WellFoundedOn before :=
      (Set.finite_Iio nodeCount).wellFoundedOn
    intro node hnode
    refine hwell.induction hnode fun node hnode ih => (hmem node).mpr ⟨hnode, ?_⟩
    rw [hsorting.indegree, pending_eq_zero_iff]
    exact fun source hedge => ih source (hedges.bounds _ hedge).1 (.single hedge)
  have hperm : state.order.Perm (List.range nodeCount) := by
    rw [List.perm_ext_iff_of_nodup hnodup List.nodup_range]
    intro node
    rw [List.mem_range]
    exact ⟨fun h => ((hmem node).mp h).1, hall node⟩
  refine ⟨state.order, ?_, hperm, hsorting.ordered⟩
  rw [topologicalSort, ← hstate, if_pos (hperm.length_eq.trans List.length_range)]

end CodeCity
end Bitloops
