import Bitloops.Foundation.OrderBy
import Mathlib.Logic.Relation

/-!
# The graph of the files

The files of a code city depend on each other.  A file is known by its index among the paths, and
an edge goes from the file that depends to the file that it depends on.
-/

namespace Bitloops
namespace CodeCity

structure FileGraph where
  paths : List String
  edges : List (Fin paths.length × Fin paths.length)

namespace FileGraph

variable (graph : FileGraph)

/-- The index of a file. -/
abbrev Node : Type := Fin graph.paths.length

def adjacency (node : graph.Node) : List graph.Node :=
  sortDedup ((graph.edges.filter fun edge => edge.1 = node).map Prod.snd)

def reverseAdjacency (node : graph.Node) : List graph.Node :=
  sortDedup ((graph.edges.filter fun edge => edge.2 = node).map Prod.fst)

/-- The files that the edges of the file lead to, in both directions. -/
def undirectedAdjacency (node : graph.Node) : List graph.Node :=
  sortDedup (graph.edges.flatMap fun (source, target) =>
    (if source = node then [target] else []) ++ (if target = node then [source] else []))

variable {graph}

/-- The first file depends on the second one. -/
def DependsOn (source target : graph.Node) : Prop := (source, target) ∈ graph.edges

theorem mem_adjacency {node target : graph.Node} :
    target ∈ graph.adjacency node ↔ DependsOn node target := by
  rw [adjacency, mem_sortDedup, List.mem_map]
  constructor
  · rintro ⟨⟨source, target⟩, hmem, rfl⟩
    obtain ⟨hedge, hsource⟩ := List.mem_filter.mp hmem
    obtain rfl := of_decide_eq_true hsource
    exact hedge
  · intro h
    exact ⟨(node, target), List.mem_filter.mpr ⟨h, by simp⟩, rfl⟩

theorem mem_reverseAdjacency {node source : graph.Node} :
    source ∈ graph.reverseAdjacency node ↔ DependsOn source node := by
  rw [reverseAdjacency, mem_sortDedup, List.mem_map]
  constructor
  · rintro ⟨⟨source, target⟩, hmem, rfl⟩
    obtain ⟨hedge, htarget⟩ := List.mem_filter.mp hmem
    obtain rfl := of_decide_eq_true htarget
    exact hedge
  · intro h
    exact ⟨(source, node), List.mem_filter.mpr ⟨h, by simp⟩, rfl⟩

theorem mem_undirectedAdjacency {node other : graph.Node} :
    other ∈ graph.undirectedAdjacency node ↔ DependsOn node other ∨ DependsOn other node := by
  rw [undirectedAdjacency, mem_sortDedup, List.mem_flatMap]
  constructor
  · rintro ⟨⟨source, target⟩, hmem, hother⟩
    rcases List.mem_append.mp hother with hother | hother
    · split_ifs at hother with hsource
      · obtain rfl := List.mem_singleton.mp hother
        exact Or.inl (hsource ▸ hmem)
      · exact absurd hother List.not_mem_nil
    · split_ifs at hother with htarget
      · obtain rfl := List.mem_singleton.mp hother
        exact Or.inr (htarget ▸ hmem)
      · exact absurd hother List.not_mem_nil
  · rintro (h | h)
    · exact ⟨(node, other), h, by simp⟩
    · exact ⟨(other, node), h, by simp⟩

end FileGraph

end CodeCity
end Bitloops
