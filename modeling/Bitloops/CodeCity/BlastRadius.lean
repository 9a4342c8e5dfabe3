import Bitloops.CodeCity.FileGraph
import Bitloops.Foundation.GraphSearch
import Mathlib.Data.Set.Card

/-!
# The blast radius of a file

The blast radius is to be the number of the other files that depend on a file, directly or through
other files.  The search starts at the dependents and not at the file, so a file on a cycle is found
too and counted as its own dependent: `blastRadius_eq_iff`.
-/

namespace Bitloops
namespace CodeCity

open GraphSearch (search)

namespace FileGraph

/-- How many files are found from the dependents of the file. -/
def blastRadius (graph : FileGraph) (node : graph.Node) : ℕ :=
  (search graph.reverseAdjacency ∅ 0 (graph.reverseAdjacency node).reverse).2

variable {graph : FileGraph} {node : graph.Node}

/-- The other files that depend on the file, directly or through other files. -/
def dependents (node : graph.Node) : Set graph.Node :=
  { source | source ≠ node ∧ Relation.ReflTransGen DependsOn source node }

/-- The file depends on itself, directly or through other files. -/
def OnCycle (node : graph.Node) : Prop := Relation.TransGen DependsOn node node

theorem reaches_reverseAdjacency_iff {source target : graph.Node} :
    GraphSearch.Reaches graph.reverseAdjacency target source ↔
      Relation.ReflTransGen DependsOn source target := by
  have hstep : (fun a b => b ∈ graph.reverseAdjacency a) =
      Function.swap fun a b : graph.Node => DependsOn a b :=
    funext₂ fun _ _ => propext mem_reverseAdjacency
  rw [GraphSearch.Reaches, hstep, Relation.reflTransGen_swap]

/-- All files that depend on the file are counted, the file itself included. -/
theorem blastRadius_eq (node : graph.Node) :
    graph.blastRadius node = { source | Relation.TransGen DependsOn source node }.ncard := by
  have hcount := @GraphSearch.count_search _ graph.reverseAdjacency _ _ ∅ 0
    (graph.reverseAdjacency node).reverse
  have hfound : { source | Relation.TransGen DependsOn source node } =
      ((search graph.reverseAdjacency ∅ 0 (graph.reverseAdjacency node).reverse).1 :
        Set graph.Node) := by
    ext source
    rw [Finset.mem_coe, GraphSearch.mem_search_iff, Set.mem_ofPred_eq,
      Relation.TransGen.tail'_iff]
    simp only [List.mem_reverse, mem_reverseAdjacency, reaches_reverseAdjacency_iff, and_comm]
  rw [hfound, Set.ncard_coe_finset, blastRadius]
  simpa using hcount

theorem setOf_transGen_eq (node : graph.Node) :
    { source | Relation.TransGen DependsOn source node } \ {node} = dependents node := by
  ext source
  simp only [Set.mem_sdiff, Set.mem_ofPred_eq, Set.mem_singleton_iff, dependents, and_comm]
  refine and_congr_right fun hne => ?_
  rw [Relation.reflTransGen_iff_eq_or_transGen]
  exact ⟨Or.inr, fun h => h.resolve_left fun heq => hne heq.symm⟩

/-- The file counts itself on a cycle, and only there. -/
theorem blastRadius_eq_iff (graph : FileGraph) (node : graph.Node) :
    graph.blastRadius node = (dependents node).ncard ↔ ¬OnCycle node := by
  rw [blastRadius_eq, ← setOf_transGen_eq]
  by_cases hcycle : OnCycle node
  · have hmem : node ∈ { source | Relation.TransGen DependsOn source node } := hcycle
    have hcard := Set.ncard_sdiff_singleton_add_one hmem (Set.toFinite _)
    exact iff_of_false (by omega) (not_not_intro hcycle)
  · have hnotMem : node ∉ { source | Relation.TransGen DependsOn source node } := hcycle
    rw [Set.sdiff_singleton_eq_self hnotMem]
    exact iff_of_true rfl hcycle

/-- Two files that depend on each other. -/
def pair : FileGraph where
  paths := ["a", "b"]
  edges := [(0, 1), (1, 0)]

/-- One other file depends on the first file of the pair, and two are counted. -/
theorem pair_counts_itself :
    ¬∀ (graph : FileGraph) (node : graph.Node),
      graph.blastRadius node = (dependents node).ncard := by
  intro h
  let first : pair.Node := ⟨0, by decide⟩
  let second : pair.Node := ⟨1, by decide⟩
  have hsubset : dependents first ⊆ {second} := by
    rintro source ⟨hne, -⟩
    have hlt : source.val < 2 := source.isLt
    have hval : source.val ≠ 0 := fun heq => hne (Fin.ext heq)
    exact Fin.ext (by change source.val = 1; omega)
  have hone := Set.ncard_le_ncard hsubset
  rw [Set.ncard_singleton, ← h pair first] at hone
  have htwo : pair.blastRadius first = 2 := by
    have hfirst : pair.reverseAdjacency first = [second] := by decide
    have hsecond : pair.reverseAdjacency second = [first] := by decide
    have hne : first ≠ second := by decide
    rw [blastRadius, hfirst]
    simp [search, hfirst, hsecond, hne]
  omega

end FileGraph

end CodeCity
end Bitloops
