import Bitloops.Foundation.GraphSearch
import Bitloops.Foundation.OrderBy
import Mathlib.Logic.Function.Basic

/-!
# Searching for strongly connected components

`strongConnect` visits a vertex and what can be found from it.  It keeps the vertices whose
component is not known on a stack, and the least index on the stack that the vertex reaches as its
low link.  When the low link of a vertex is its own index, the stack down to it is a component.

The calls that are under way are those of a path; `Wf` is what holds of the state then, and
`Connected` what a call does.
-/

namespace Bitloops
namespace CodeCity

open GraphSearch (Reaches)

variable {V : Type*} [LinearOrder V]

/-! ## The search -/

structure TarjanState (V : Type*) where
  index : ℕ := 0
  indices : V → Option ℕ := fun _ => none
  lowlink : V → ℕ := fun _ => 0
  stack : List V := []
  onStack : V → Bool := fun _ => false
  components : List (List V) := []

/-- The vertex gets the next index and goes on the stack, whose top is its head. -/
def enter (node : V) (state : TarjanState V) : TarjanState V :=
  { state with
    indices := Function.update state.indices node (some state.index)
    lowlink := Function.update state.lowlink node state.index
    index := state.index + 1
    stack := node :: state.stack
    onStack := Function.update state.onStack node true }

/-- What is popped down to the vertex, what stays on the stack, and the marks. -/
def popTo (node : V) : List V → (V → Bool) → List V × List V × (V → Bool)
  | [], onStack => ([], [], onStack)
  | next :: stack, onStack =>
    if next = node then ([next], stack, Function.update onStack next false)
    else
      let (component, rest, onStack) := popTo node stack (Function.update onStack next false)
      (next :: component, rest, onStack)

/-- A root pops its component. -/
def finish (node : V) (state : TarjanState V) : TarjanState V :=
  if state.lowlink node = (state.indices node).getD 0 then
    let (component, rest, onStack) := popTo node state.stack state.onStack
    { state with
      stack := rest
      onStack
      components := state.components ++ [orderBy id component] }
  else state

def lowerLink (node : V) (bound : ℕ) (state : TarjanState V) : TarjanState V :=
  { state with lowlink := Function.update state.lowlink node (min (state.lowlink node) bound) }

/-- A successor of the vertex is looked at. -/
def scanStep (connect : V → TarjanState V → TarjanState V) (node : V) (state : TarjanState V)
    (next : V) : TarjanState V :=
  if state.indices next = none then
    lowerLink node ((connect next state).lowlink next) (connect next state)
  else if state.onStack next then lowerLink node ((state.indices next).getD 0) state
  else state

/-- The calls are nested no deeper than there are vertices. -/
def strongConnect (adjacency : V → List V) : ℕ → V → TarjanState V → TarjanState V
  | 0, _, state => state
  | depth + 1, node, state =>
    finish node ((adjacency node).foldl (scanStep (strongConnect adjacency depth) node)
      (enter node state))

/-! ## What holds between the calls -/

variable {next : V → List V}

namespace TarjanState

def Found (s : TarjanState V) (v : V) : Prop := s.indices v ≠ none

/-- The index of a vertex that is found. -/
def idx (s : TarjanState V) (v : V) : ℕ := (s.indices v).getD 0

/-- The component of the vertex is known. -/
def Done (s : TarjanState V) (v : V) : Prop := s.Found v ∧ v ∉ s.stack

end TarjanState

/-- The vertices are those that a vertex reaches and that reach it. -/
structure IsClass (next : V → List V) (component : List V) : Prop where
  ne_nil : component ≠ []
  mem_iff : ∀ v ∈ component, ∀ w, w ∈ component ↔ Reaches next v w ∧ Reaches next w v

/-- The state of the search while the calls of a path are under way. -/
structure Wf (next : V → List V) (path : Set V) (s : TarjanState V) : Prop where
  found : ∀ v ∈ s.stack, s.Found v
  onStack : ∀ v, s.onStack v = true ↔ v ∈ s.stack
  idx_lt : ∀ v, s.Found v → s.idx v < s.index
  sorted : s.stack.Pairwise fun v w => s.idx w < s.idx v
  path_stack : ∀ v ∈ path, v ∈ s.stack
  closed : ∀ v, s.Found v → v ∉ path → ∀ w ∈ next v, s.Found w
  down : ∀ v ∈ s.stack, ∀ w ∈ s.stack, s.idx v ≤ s.idx w → Reaches next v w
  up : ∀ v ∈ s.stack, ∃ u ∈ path, s.idx u ≤ s.idx v ∧ Reaches next v u
  done : ∀ v, s.Done v → ∀ w ∈ next v, s.Done w
  mem_components : ∀ v, v ∈ s.components.flatten ↔ s.Done v
  nodup : s.components.flatten.Nodup
  classes : ∀ component ∈ s.components, IsClass next component

/-- What a call leaves as it is. -/
structure Extends (s s' : TarjanState V) : Prop where
  indices : ∀ v, s.Found v → s'.indices v = s.indices v
  lowlink : ∀ v, s.Found v → s'.lowlink v = s.lowlink v
  index_le : s.index ≤ s'.index
  fresh : ∀ v, s'.Found v → ¬s.Found v → s.index ≤ s'.idx v

/-- What a call of a vertex does. -/
structure Connected (next : V → List V) (path : Set V) (node : V) (s s' : TarjanState V) :
    Prop where
  wf : Wf next path s'
  ext : Extends s s'
  stack : ∃ new, s'.stack = new ++ s.stack ∧ ∀ v ∈ new, ¬s.Found v
  found : s'.Found node
  low : s'.lowlink node = s'.idx node ∨
    ∃ v ∈ s'.stack, s'.idx v = s'.lowlink node ∧ Reaches next node v
  bound : ∀ v ∈ s'.stack, ¬s.Found v → ∀ w ∈ next v, w ∈ s.stack → s'.lowlink node ≤ s'.idx w

/-- The state while the successors of a vertex are looked at, when the calls of the path and of
the vertex are under way. -/
structure Scanning (next : V → List V) (path : Set V) (node : V) (s : TarjanState V)
    (seen : List V) (s' : TarjanState V) : Prop where
  wf : Wf next (insert node path) s'
  ext : Extends s s'
  index : s'.indices node = some s.index
  stack : ∃ new, s'.stack = new ++ node :: s.stack ∧ ∀ v ∈ new, ¬s.Found v ∧ v ≠ node
  low_le : s'.lowlink node ≤ s.index
  low : ∃ v ∈ s'.stack, s'.idx v = s'.lowlink node ∧ Reaches next node v
  bound : ∀ v ∈ s'.stack, ¬s.Found v → v ≠ node → ∀ w ∈ next v, w ∈ s.stack →
    s'.lowlink node ≤ s'.idx w
  seen : ∀ w ∈ seen, s'.Found w ∧ (w ∈ s.stack → s'.lowlink node ≤ s'.idx w)

variable {path : Set V} {node : V} {s s' s'' : TarjanState V} {seen : List V}

theorem Extends.found (h : Extends s s') {v : V} (hv : s.Found v) : s'.Found v := by
  rw [TarjanState.Found, h.indices v hv]
  exact hv

theorem Extends.idx (h : Extends s s') {v : V} (hv : s.Found v) : s'.idx v = s.idx v := by
  rw [TarjanState.idx, h.indices v hv, TarjanState.idx]

theorem Extends.trans (h : Extends s s') (h' : Extends s' s'') : Extends s s'' where
  indices v hv := (h'.indices v (h.found hv)).trans (h.indices v hv)
  lowlink v hv := (h'.lowlink v (h.found hv)).trans (h.lowlink v hv)
  index_le := h.index_le.trans h'.index_le
  fresh v hv hnot := by
    by_cases hfound : s'.Found v
    · rw [h'.idx hfound]
      exact h.fresh v hfound hnot
    · exact h.index_le.trans (h'.fresh v hv hfound)

/-! ## A vertex is entered -/

theorem indices_enter (v : V) :
    (enter node s).indices v = if v = node then some s.index else s.indices v :=
  Function.update_apply ..

theorem lowlink_enter (v : V) :
    (enter node s).lowlink v = if v = node then s.index else s.lowlink v :=
  Function.update_apply ..

theorem found_enter {v : V} : (enter node s).Found v ↔ v = node ∨ s.Found v := by
  rw [TarjanState.Found, indices_enter]
  split_ifs with heq
  · exact iff_of_true (Option.some_ne_none _) (Or.inl heq)
  · exact (or_iff_right heq).symm

theorem idx_enter_self : (enter node s).idx node = s.index := by
  rw [TarjanState.idx, indices_enter, if_pos rfl, Option.getD_some]

theorem idx_enter {v : V} (h : v ≠ node) : (enter node s).idx v = s.idx v := by
  rw [TarjanState.idx, indices_enter, if_neg h, TarjanState.idx]

theorem Wf.enter (h : Wf next path s) (hnode : ¬s.Found node)
    (hpath : ∀ v ∈ path, Reaches next v node) : Wf next (insert node path) (enter node s) := by
  have hne : ∀ {v}, s.Found v → v ≠ node := fun hv heq => hnode (heq ▸ hv)
  have hidx : ∀ {v}, s.Found v → (CodeCity.enter node s).idx v = s.idx v := fun hv =>
    idx_enter (hne hv)
  have hreach : ∀ v ∈ s.stack, Reaches next v node := by
    intro v hv
    obtain ⟨u, hu, -, hvu⟩ := h.up v hv
    exact hvu.trans (hpath u hu)
  have hdone : ∀ v, (CodeCity.enter node s).Done v ↔ s.Done v := by
    intro v
    have hstack : v ∈ (CodeCity.enter node s).stack ↔ v = node ∨ v ∈ s.stack := List.mem_cons
    rw [TarjanState.Done, found_enter, hstack, TarjanState.Done, not_or]
    constructor
    · rintro ⟨hfound, hnot, hstack⟩
      exact ⟨hfound.resolve_left hnot, hstack⟩
    · rintro ⟨hfound, hstack⟩
      exact ⟨Or.inr hfound, hne hfound, hstack⟩
  constructor
  case found =>
    refine List.forall_mem_cons.mpr ⟨found_enter.mpr (Or.inl rfl), fun v hv => ?_⟩
    exact found_enter.mpr (Or.inr (h.found v hv))
  case onStack =>
    intro v
    change Function.update s.onStack node true v = true ↔ v ∈ node :: s.stack
    rw [Function.update_apply, List.mem_cons]
    split_ifs with heq
    · exact iff_of_true rfl (Or.inl heq)
    · rw [h.onStack, or_iff_right heq]
  case idx_lt =>
    intro v hv
    change (CodeCity.enter node s).idx v < s.index + 1
    rcases found_enter.mp hv with rfl | hv
    · rw [idx_enter_self]
      exact Nat.lt_succ_self _
    · rw [hidx hv]
      exact (h.idx_lt v hv).trans (Nat.lt_succ_self _)
  case sorted =>
    refine List.pairwise_cons.mpr ⟨fun v hv => ?_, ?_⟩
    · rw [idx_enter_self, hidx (h.found v hv)]
      exact h.idx_lt v (h.found v hv)
    · refine h.sorted.imp_of_mem fun {v w} hv hw hlt => ?_
      rwa [hidx (h.found v hv), hidx (h.found w hw)]
  case path_stack =>
    rintro v (rfl | hv)
    · exact List.mem_cons_self
    · exact List.mem_cons_of_mem _ (h.path_stack v hv)
  case closed =>
    intro v hv hnot w hw
    have hfound := (found_enter.mp hv).resolve_left fun heq => hnot (Or.inl heq)
    exact found_enter.mpr (Or.inr (h.closed v hfound (fun hmem => hnot (Or.inr hmem)) w hw))
  case down =>
    refine List.forall_mem_cons.mpr ⟨List.forall_mem_cons.mpr ⟨fun _ => .refl, ?_⟩, ?_⟩
    · intro w hw hle
      rw [idx_enter_self, hidx (h.found w hw)] at hle
      exact absurd (h.idx_lt w (h.found w hw)) (Nat.not_lt.mpr hle)
    · intro v hv
      refine List.forall_mem_cons.mpr ⟨fun _ => hreach v hv, fun w hw hle => ?_⟩
      rw [hidx (h.found v hv), hidx (h.found w hw)] at hle
      exact h.down v hv w hw hle
  case up =>
    refine List.forall_mem_cons.mpr ⟨⟨node, Or.inl rfl, Nat.le_refl _, .refl⟩, fun v hv => ?_⟩
    obtain ⟨u, hu, hle, hvu⟩ := h.up v hv
    refine ⟨u, Or.inr hu, ?_, hvu⟩
    rwa [hidx (h.found u (h.path_stack u hu)), hidx (h.found v hv)]
  case done =>
    intro v hv w hw
    exact (hdone w).mpr (h.done v ((hdone v).mp hv) w hw)
  case mem_components =>
    intro v
    rw [hdone]
    exact h.mem_components v
  case nodup => exact h.nodup
  case classes => exact h.classes

theorem scanning_enter (h : Wf next path s) (hnode : ¬s.Found node)
    (hpath : ∀ v ∈ path, Reaches next v node) :
    Scanning next path node s [] (enter node s) where
  wf := h.enter hnode hpath
  ext := by
    have hne : ∀ {v}, s.Found v → v ≠ node := fun hv heq => hnode (heq ▸ hv)
    constructor
    case indices => exact fun v hv => (indices_enter v).trans (if_neg (hne hv))
    case lowlink => exact fun v hv => (lowlink_enter v).trans (if_neg (hne hv))
    case index_le => exact Nat.le_succ _
    case fresh =>
      intro v hv hnot
      obtain rfl := (found_enter.mp hv).resolve_right hnot
      exact idx_enter_self.ge
  index := (indices_enter node).trans (if_pos rfl)
  stack := ⟨[], rfl, fun _ hv => absurd hv List.not_mem_nil⟩
  low_le := ((lowlink_enter node).trans (if_pos rfl)).le
  low := ⟨node, List.mem_cons_self, by rw [idx_enter_self, lowlink_enter, if_pos rfl], .refl⟩
  bound := by
    intro v hv hnot hne
    rcases List.mem_cons.mp hv with heq | hv
    · exact absurd heq hne
    · exact absurd (h.found v hv) hnot
  seen := fun _ hw => absurd hw List.not_mem_nil

end CodeCity
end Bitloops
