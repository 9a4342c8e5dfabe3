import Bitloops.CodeCity.ArticulationCalls

/-!
# Articulation points

The search leaves a forest in the graph of the files.  With it the components can be counted that
are there when a file is deleted: `articulationComponentIncrease_eq`.
-/

namespace Bitloops
namespace CodeCity

open SearchForest (Above IsForest CutChild above_of_parent)

/-- The graph with its edges in both directions. -/
def FileGraph.undirected (graph : FileGraph) : SimpleGraph graph.Node :=
  SimpleGraph.fromRel FileGraph.DependsOn

noncomputable def componentCount {V : Type*} (G : SimpleGraph V) : ℕ := Nat.card G.ConnectedComponent

section Forest

variable {V : Type*} [LinearOrder V] [Fintype V] {next : V → List V} {parent : V → Option V}
  {s : LowState V} {G : SimpleGraph V}

theorem isForest (hinv : LowInv next ∅ parent s) (hfound : ∀ v, s.Found v)
    (hG : ∀ v w, G.Adj v w ↔ v ≠ w ∧ w ∈ next v) : IsForest G parent s.disc where
  adj := by
    intro v p hp
    refine (hG p v).mpr ⟨fun heq => ?_, hinv.adj_parent v p hp⟩
    exact Nat.lt_irrefl _ (heq ▸ hinv.disc_lt v p hp)
  rank_lt := fun hp => hinv.disc_lt _ _ hp
  comparable := by
    intro v w hedge
    exact hinv.comparable v w (hfound v) (hfound w) ((hG v w).mp hedge).2

/-- The low numbers tell which children are cut off. -/
theorem cutChild_iff (hinv : LowInv next ∅ parent s) (hfound : ∀ v, s.Found v)
    (hG : ∀ v w, G.Adj v w ↔ v ≠ w ∧ w ∈ next v) {u v : V} :
    CutChild G parent s.disc v u ↔ u ∈ cutChildren parent s v := by
  rw [CutChild, cutChildren, Finset.mem_filter, mem_children]
  refine and_congr_right fun hu => ?_
  rw [← Nat.not_lt, hinv.low_lt_iff u v (hfound u) (Set.notMem_empty u) hu _ (Nat.le_refl _)]
  push Not
  refine forall₂_congr fun x hx => ⟨fun h y hy => ?_, fun h y hy => h y ((hG x y).mp hy).2⟩
  by_cases heq : x = y
  · rw [← heq]
    exact (hinv.disc_lt u v hu).le.trans ((isForest hinv hfound hG).rank_le hx)
  · exact h y ((hG x y).mpr ⟨heq, hy⟩)

/-- Nothing leads past a root, so all its children are cut off. -/
theorem cutChildren_root (hinv : LowInv next ∅ parent s) (hfound : ∀ v, s.Found v)
    (hG : ∀ v w, G.Adj v w ↔ v ≠ w ∧ w ∈ next v) {v : V} (hv : parent v = none) :
    cutChildren parent s v = children parent v := by
  refine Finset.filter_true_of_mem fun u hu => ?_
  have hforest := isForest hinv hfound hG
  rw [mem_children] at hu
  have hcut : CutChild G parent s.disc v u := by
    refine ⟨hu, fun x hx y hedge => ?_⟩
    by_contra hlt
    have habove := hforest.above_of_rank_lt ((above_of_parent hu).trans hx) hedge
      (Nat.lt_of_not_le hlt)
    obtain rfl := hforest.eq_of_parent_eq_none hv habove
    exact hlt (Nat.le_refl _)
  exact (Finset.mem_filter.mp ((cutChild_iff hinv hfound hG).mp hcut)).2

theorem additionalComponents_eq (hinv : LowInv next ∅ parent s) (hfound : ∀ v, s.Found v)
    (hG : ∀ v w, G.Adj v w ↔ v ≠ w ∧ w ∈ next v) (v : V) :
    (s.additionalComponents v : ℤ) =
      max 0 ((componentCount (G.induce {v}ᶜ) : ℤ) - componentCount G) := by
  have hforest := isForest hinv hfound hG
  have hcut : { u | CutChild G parent s.disc v u }.ncard = (cutChildren parent s v).card := by
    rw [← Set.ncard_coe_finset]
    exact congrArg Set.ncard (Set.ext fun u => cutChild_iff hinv hfound hG)
  rw [componentCount, componentCount, hforest.card_components_deleted v, hforest.card_components,
    hcut, hinv.additional_eq v (hfound v) (Set.notMem_empty v)]
  by_cases hroot : parent v = none
  · have hmem : v ∈ { u | parent u = none } := hroot
    have hsplit := Set.ncard_sdiff_singleton_add_one hmem (Set.toFinite _)
    have hother : { u | u ≠ v ∧ parent u = none } = { u | parent u = none } \ {v} := by
      ext u
      exact and_comm
    rw [if_pos hroot, cutChildren_root hinv hfound hG hroot, hother]
    omega
  · have hother : { u | u ≠ v ∧ parent u = none } = { u | parent u = none } := by
      ext u
      refine and_iff_right_of_imp fun hu heq => hroot ?_
      rw [← heq]
      exact hu
    rw [if_neg hroot, hother]
    omega

end Forest

/-- The increase is the number of components that the deletion of the file adds. -/
theorem articulationComponentIncrease_eq (graph : FileGraph) (node : graph.Node) :
    (articulationComponentIncrease graph node : ℤ) =
      max 0 ((componentCount (graph.undirected.induce {node}ᶜ) : ℤ) -
        componentCount graph.undirected) := by
  have hsymm : ∀ v w, w ∈ graph.undirectedAdjacency v → v ∈ graph.undirectedAdjacency w := by
    intro v w h
    rw [FileGraph.mem_undirectedAdjacency] at h ⊢
    exact h.symm
  obtain ⟨parent, hinv, -, hfound⟩ := lowInv_visitAll hsymm (List.finRange graph.paths.length) _ _
    lowInv_initial
  refine additionalComponents_eq hinv (fun v => hfound v (List.mem_finRange v)) (fun v w => ?_) node
  rw [FileGraph.undirected, SimpleGraph.fromRel_adj, FileGraph.mem_undirectedAdjacency]

end CodeCity
end Bitloops
