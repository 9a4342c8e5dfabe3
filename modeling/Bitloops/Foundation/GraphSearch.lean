import Mathlib.Data.Finset.BooleanAlgebra
import Mathlib.Data.Fintype.Card
import Mathlib.Logic.Relation

/-!
# Searching a graph with a stack

`search` takes vertices from a stack, marks those that are not marked yet and pushes their
successors.  It counts the vertices that it marks.

* `count_search`: the count is the number of new marks.
* `mem_search_iff`: what can be reached from the stack is marked, and nothing else.
-/

namespace Bitloops
namespace GraphSearch

variable {V : Type*} {next : V → List V}

/-! ## Reachability -/

/-- There is a way from one vertex to the other. -/
def Reaches (next : V → List V) : V → V → Prop := Relation.ReflTransGen fun a b => b ∈ next a

theorem reaches_iff_eq_or {v w : V} :
    Reaches next v w ↔ v = w ∨ ∃ u ∈ next v, Reaches next u w :=
  Relation.ReflTransGen.cases_head_iff

/-- The successors of the marked vertices are marked, or they are on the stack. -/
def Closed (next : V → List V) (visited : Finset V) (stack : List V) : Prop :=
  ∀ v ∈ visited, ∀ w ∈ next v, w ∈ visited ∨ w ∈ stack

/-- A way from a marked vertex passes through the stack, or all of it is marked. -/
theorem Closed.reaches {visited : Finset V} {stack : List V} (h : Closed next visited stack)
    {v w : V} (hv : v ∈ visited) (hw : Reaches next v w) :
    w ∈ visited ∨ ∃ u ∈ stack, Reaches next u w := by
  induction hw using Relation.ReflTransGen.head_induction_on with
  | refl => exact Or.inl hv
  | head hedge hrest ih =>
    rcases h _ hv _ hedge with hmem | hmem
    · exact ih hmem
    · exact Or.inr ⟨_, hmem, hrest⟩

/-! ## The search -/

/-- The vertices that are marked in the end, and the count.  The top of the stack is its head. -/
def search [Fintype V] [DecidableEq V] (next : V → List V) (visited : Finset V) (count : ℕ) : List V → Finset V × ℕ
  | [] => (visited, count)
  | v :: stack =>
    if v ∈ visited then search next visited count stack
    else search next (insert v visited) (count + 1) ((next v).reverse ++ stack)
termination_by stack => (visitedᶜ.card, stack.length)
decreasing_by
  · exact Prod.Lex.right _ (Nat.lt_succ_self _)
  · rename_i h
    refine Prod.Lex.left _ _ (Finset.card_lt_card ?_)
    rw [Finset.compl_insert]
    exact Finset.erase_ssubset (Finset.mem_compl.mpr h)

variable [Fintype V] [DecidableEq V]

theorem subset_search (visited : Finset V) (count : ℕ) (stack : List V) :
    visited ⊆ (search next visited count stack).1 := by
  fun_induction search next visited count stack with
  | case1 => exact Finset.Subset.refl _
  | case2 visited count v stack hv ih => exact ih
  | case3 visited count v stack hv ih => exact (Finset.subset_insert v visited).trans ih

theorem count_search (visited : Finset V) (count : ℕ) (stack : List V) :
    (search next visited count stack).2 + visited.card =
      count + (search next visited count stack).1.card := by
  fun_induction search next visited count stack with
  | case1 => rfl
  | case2 visited count v stack hv ih => exact ih
  | case3 visited count v stack hv ih =>
    rw [Finset.card_insert_of_notMem hv] at ih
    omega

/-- The marked vertices are those that were marked and those that the stack reaches. -/
theorem mem_search_iff_of_closed {visited : Finset V} {count : ℕ} {stack : List V}
    (h : Closed next visited stack) {w : V} :
    w ∈ (search next visited count stack).1 ↔ w ∈ visited ∨ ∃ u ∈ stack, Reaches next u w := by
  fun_induction search next visited count stack with
  | case1 visited => simp
  | case2 visited count v stack hv ih =>
    have hclosed : Closed next visited stack := by
      intro u hu w hw
      rcases h u hu w hw with hmem | hmem
      · exact Or.inl hmem
      · rcases List.mem_cons.mp hmem with rfl | hmem
        · exact Or.inl hv
        · exact Or.inr hmem
    rw [ih hclosed]
    constructor
    · exact Or.imp_right fun ⟨u, hu, hw⟩ => ⟨u, List.mem_cons_of_mem v hu, hw⟩
    · rintro (hw | ⟨u, hu, hw⟩)
      · exact Or.inl hw
      · rcases List.mem_cons.mp hu with rfl | hu
        · exact hclosed.reaches hv hw
        · exact Or.inr ⟨u, hu, hw⟩
  | case3 visited count v stack hv ih =>
    have hclosed : Closed next (insert v visited) ((next v).reverse ++ stack) := by
      intro u hu w hw
      rcases Finset.mem_insert.mp hu with rfl | hu
      · exact Or.inr (List.mem_append_left _ (List.mem_reverse.mpr hw))
      · rcases h u hu w hw with hmem | hmem
        · exact Or.inl (Finset.mem_insert_of_mem hmem)
        · rcases List.mem_cons.mp hmem with rfl | hmem
          · exact Or.inl (Finset.mem_insert_self _ _)
          · exact Or.inr (List.mem_append_right _ hmem)
    rw [ih hclosed, Finset.mem_insert]
    constructor
    · rintro ((rfl | hw) | ⟨u, hu, hw⟩)
      · exact Or.inr ⟨w, List.mem_cons_self, Relation.ReflTransGen.refl⟩
      · exact Or.inl hw
      · rcases List.mem_append.mp hu with hu | hu
        · exact Or.inr ⟨v, List.mem_cons_self,
            reaches_iff_eq_or.mpr (Or.inr ⟨u, List.mem_reverse.mp hu, hw⟩)⟩
        · exact Or.inr ⟨u, List.mem_cons_of_mem v hu, hw⟩
    · rintro (hw | ⟨u, hu, hw⟩)
      · exact Or.inl (Or.inr hw)
      · rcases List.mem_cons.mp hu with rfl | hu
        · rcases reaches_iff_eq_or.mp hw with rfl | ⟨t, ht, hw⟩
          · exact Or.inl (Or.inl rfl)
          · exact Or.inr ⟨t, List.mem_append_left _ (List.mem_reverse.mpr ht), hw⟩
        · exact Or.inr ⟨u, List.mem_append_right _ hu, hw⟩

/-- The search marks what can be reached from the stack. -/
theorem mem_search_iff {count : ℕ} {stack : List V} {w : V} :
    w ∈ (search next ∅ count stack).1 ↔ ∃ u ∈ stack, Reaches next u w := by
  rw [mem_search_iff_of_closed fun v hv => absurd hv (Finset.notMem_empty v)]
  simp

end GraphSearch
end Bitloops
