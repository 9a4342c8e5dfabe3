import Mathlib

/-!
# Greedy groups

Consecutive entries of a list are put in one group until the next one would go over a limit.

* `groups`: the groups, with `flatten_groups` and `ne_nil_of_mem_groups`.
* `fits_of_mem_groups`: a group is within the limit, or a single entry.
-/

namespace Bitloops
namespace GreedyGroups

variable {α : Type*} {weight : α → ℕ} {base limit : ℕ} {group items : List α}

def size (weight : α → ℕ) (base : ℕ) (group : List α) : ℕ := base + (group.map weight).sum

theorem size_append_singleton {a : α} :
    size weight base (group ++ [a]) = size weight base group + weight a := by
  rw [size, size, List.map_append, List.sum_append, List.map_singleton, List.sum_singleton,
    Nat.add_assoc]

/-- The groups that are closed, and the one that still takes entries. -/
structure State (α : Type*) where
  closed : List (List α) := []
  current : List α := []

def push (weight : α → ℕ) (base limit : ℕ) (state : State α) (a : α) : State α :=
  if limit < size weight base state.current + weight a ∧ state.current ≠ [] then
    { closed := state.closed ++ [state.current], current := [a] }
  else { state with current := state.current ++ [a] }

def State.groups (state : State α) : List (List α) :=
  if state.current = [] then state.closed else state.closed ++ [state.current]

def groups (weight : α → ℕ) (base limit : ℕ) (items : List α) : List (List α) :=
  (items.foldl (push weight base limit) {}).groups

/-- The group is within the limit, or a single entry. -/
def Fits (weight : α → ℕ) (base limit : ℕ) (group : List α) : Prop :=
  size weight base group ≤ limit ∨ ∃ a, group = [a]

/-- What the groups of the entries so far satisfy. -/
structure State.Valid (weight : α → ℕ) (base limit : ℕ) (items : List α) (state : State α) :
    Prop where
  flatten : state.closed.flatten ++ state.current = items
  closed : ∀ group ∈ state.closed, group ≠ [] ∧ Fits weight base limit group
  current : state.current ≠ [] → Fits weight base limit state.current

variable {state : State α}

theorem State.Valid.push (h : state.Valid weight base limit items) (a : α) :
    (push weight base limit state a).Valid weight base limit (items ++ [a]) := by
  rw [GreedyGroups.push]
  split_ifs with hfull
  · refine ⟨?_, ?_, fun _ => Or.inr ⟨a, rfl⟩⟩
    · rw [List.flatten_append, List.flatten_singleton, h.flatten]
    · rw [List.forall_mem_append]
      refine ⟨h.closed, fun group hgroup => ?_⟩
      rw [List.mem_singleton.mp hgroup]
      exact ⟨hfull.2, h.current hfull.2⟩
  · refine ⟨?_, h.closed, fun _ => ?_⟩
    · rw [← List.append_assoc, h.flatten]
    · rcases not_and_or.mp hfull with hroom | hempty
      · exact Or.inl (size_append_singleton.trans_le (Nat.not_lt.mp hroom))
      · rw [not_not.mp hempty]
        exact Or.inr ⟨a, rfl⟩

theorem valid_foldl (items : List α) :
    (items.foldl (push weight base limit) {}).Valid weight base limit items := by
  have hfold : ∀ (rest seen : List α) (state : State α), state.Valid weight base limit seen →
      (rest.foldl (push weight base limit) state).Valid weight base limit (seen ++ rest) := by
    intro rest
    induction rest with
    | nil => exact fun seen state h => (List.append_nil seen).symm ▸ h
    | cons a rest ih =>
      intro seen state h
      have hrest := ih (seen ++ [a]) _ (h.push a)
      rwa [List.append_assoc] at hrest
  exact hfold items [] {} ⟨rfl, fun _ hgroup => absurd hgroup List.not_mem_nil,
    fun hne => absurd rfl hne⟩

theorem State.Valid.flatten_groups (h : state.Valid weight base limit items) :
    state.groups.flatten = items := by
  rw [← h.flatten, State.groups]
  split_ifs with hcurrent
  · rw [hcurrent, List.append_nil]
  · rw [List.flatten_append, List.flatten_singleton]

theorem State.Valid.of_mem_groups (h : state.Valid weight base limit items)
    (hgroup : group ∈ state.groups) : group ≠ [] ∧ Fits weight base limit group := by
  rw [State.groups] at hgroup
  split_ifs at hgroup with hcurrent
  · exact h.closed group hgroup
  · rcases List.mem_append.mp hgroup with hclosed | hlast
    · exact h.closed group hclosed
    · rw [List.mem_singleton.mp hlast]
      exact ⟨hcurrent, h.current hcurrent⟩

/-- The groups hold the entries, in their order. -/
theorem flatten_groups (weight : α → ℕ) (base limit : ℕ) (items : List α) :
    (groups weight base limit items).flatten = items :=
  (valid_foldl items).flatten_groups

theorem ne_nil_of_mem_groups (h : group ∈ groups weight base limit items) : group ≠ [] :=
  ((valid_foldl items).of_mem_groups h).1

theorem fits_of_mem_groups (h : group ∈ groups weight base limit items) :
    Fits weight base limit group :=
  ((valid_foldl items).of_mem_groups h).2

/-- With entries there is a last group. -/
theorem current_ne_nil (h : items ≠ []) :
    (items.foldl (push weight base limit) {}).current ≠ [] := by
  obtain ⟨front, a, rfl⟩ := (List.eq_nil_or_concat' items).resolve_left h
  rw [List.foldl_append, List.foldl_cons, List.foldl_nil, push]
  split_ifs <;> simp

end GreedyGroups
end Bitloops
