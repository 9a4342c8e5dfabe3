import Bitloops.CodeCity.ComponentSearch
import Mathlib.Data.Fintype.Card

/-!
# The calls of the search for components

A call of a vertex looks at the successors of the vertex, `Scanning.scanStep`, and then either
leaves the vertex on the stack or pops its component, `Scanning.finish`.  With this,
`connected_strongConnect` is an induction on the depth of the calls.
-/

namespace Bitloops
namespace CodeCity

open GraphSearch (Reaches)

variable {V : Type*} {next : V → List V} {path : Set V} {node : V} {s s' s'' : TarjanState V}
  {seen : List V}

theorem Wf.done_of_reaches (h : Wf next path s) {v w : V} (hv : s.Done v)
    (hw : Reaches next v w) : s.Done w := by
  induction hw with
  | refl => exact hv
  | tail _ hedge ih => exact h.done _ ih _ hedge

theorem wf_initial : Wf next ∅ ({} : TarjanState V) where
  found := fun _ hv => absurd hv List.not_mem_nil
  onStack := fun _ => iff_of_false Bool.false_ne_true List.not_mem_nil
  idx_lt := fun _ hv => absurd rfl hv
  sorted := List.Pairwise.nil
  path_stack := fun _ hv => absurd hv (Set.notMem_empty _)
  closed := fun _ hv => absurd rfl hv
  down := fun _ hv => absurd hv List.not_mem_nil
  up := fun _ hv => absurd hv List.not_mem_nil
  done := fun _ hv => absurd rfl hv.1
  mem_components := fun _ => iff_of_false List.not_mem_nil fun hv => hv.1 rfl
  nodup := List.nodup_nil
  classes := fun _ hcomponent => absurd hcomponent List.not_mem_nil

/-! ## The successors of a vertex -/

namespace Scanning

variable (h : Scanning next path node s seen s')

include h

theorem idx_self : s'.idx node = s.index := by
  rw [TarjanState.idx, h.index, Option.getD_some]

theorem found_self : s'.Found node := by
  rw [TarjanState.Found, h.index]
  exact Option.some_ne_none _

theorem stack_subset {v : V} (hv : v ∈ s.stack) : v ∈ s'.stack := by
  obtain ⟨new, hstack, -⟩ := h.stack
  rw [hstack]
  exact List.mem_append_right _ (List.mem_cons_of_mem _ hv)

theorem node_mem : node ∈ s'.stack := by
  obtain ⟨new, hstack, -⟩ := h.stack
  rw [hstack]
  exact List.mem_append_right _ List.mem_cons_self

/-- A new vertex on the stack stands above the vertex, an old one below it. -/
theorem lt_index {v : V} (hv : v ∈ s.stack) :
    s'.idx v < s.index := by
  obtain ⟨new, hstack, -⟩ := h.stack
  have hsorted := h.wf.sorted
  rw [hstack, List.pairwise_append, List.pairwise_cons] at hsorted
  have hlt := hsorted.2.1.1 v hv
  rwa [h.idx_self] at hlt

theorem mem_stack_of_lt {v : V} (hv : v ∈ s'.stack) (hlt : s'.idx v < s.index) : v ∈ s.stack := by
  obtain ⟨new, hstack, -⟩ := h.stack
  have hsorted := h.wf.sorted
  rw [hstack, List.pairwise_append] at hsorted
  rw [hstack] at hv
  rcases List.mem_append.mp hv with hv | hv
  · have hgt := hsorted.2.2 v hv node List.mem_cons_self
    rw [h.idx_self] at hgt
    exact absurd hlt hgt.asymm
  · rcases List.mem_cons.mp hv with rfl | hv
    · rw [h.idx_self] at hlt
      exact absurd hlt (Nat.lt_irrefl _)
    · exact hv

/-- A successor whose component is known. -/
theorem done {w : V} (hw : s'.Done w) :
    Scanning next path node s (seen ++ [w]) s' where
  wf := h.wf
  ext := h.ext
  index := h.index
  stack := h.stack
  low_le := h.low_le
  low := h.low
  bound := h.bound
  seen := by
    intro u hu
    rcases List.mem_append.mp hu with hu | hu
    · exact h.seen u hu
    · obtain rfl := List.mem_singleton.mp hu
      exact ⟨hw.1, fun hmem => absurd (h.stack_subset hmem) hw.2⟩

end Scanning

variable [LinearOrder V]

theorem lowlink_lowerLink (bound : ℕ) (v : V) :
    (lowerLink node bound s).lowlink v =
      if v = node then min (s.lowlink node) bound else s.lowlink v :=
  Function.update_apply ..

theorem Wf.lowerLink (h : Wf next path s) (bound : ℕ) : Wf next path (lowerLink node bound s) :=
  ⟨h.found, h.onStack, h.idx_lt, h.sorted, h.path_stack, h.closed, h.down, h.up, h.done,
    h.mem_components, h.nodup, h.classes⟩

theorem Extends.lowerLink (h : Extends s s') (hnode : ¬s.Found node) (bound : ℕ) :
    Extends s (lowerLink node bound s') where
  indices := h.indices
  lowlink v hv := by
    have hne : v ≠ node := fun heq => hnode (heq ▸ hv)
    rw [lowlink_lowerLink, if_neg hne]
    exact h.lowlink v hv
  index_le := h.index_le
  fresh := h.fresh

namespace Scanning

variable (h : Scanning next path node s seen s')

include h

/-- A successor that was found before. -/
theorem lowerLink_found (hnode : ¬s.Found node) {w : V} (hw : w ∈ next node)
    (hstack : w ∈ s'.stack) :
    Scanning next path node s (seen ++ [w]) (lowerLink node (s'.idx w) s') := by
  have hlow : (lowerLink node (s'.idx w) s').lowlink node = min (s'.lowlink node) (s'.idx w) := by
    rw [lowlink_lowerLink, if_pos rfl]
  have hle : (lowerLink node (s'.idx w) s').lowlink node ≤ s'.lowlink node := by
    rw [hlow]
    exact Nat.min_le_left _ _
  constructor
  case wf => exact h.wf.lowerLink _
  case ext => exact h.ext.lowerLink hnode _
  case index => exact h.index
  case stack => exact h.stack
  case low_le => exact hle.trans h.low_le
  case low =>
    rw [hlow]
    rcases min_choice (s'.lowlink node) (s'.idx w) with hmin | hmin
    · rw [hmin]
      exact h.low
    · rw [hmin]
      exact ⟨w, hstack, rfl, .single hw⟩
  case bound => exact fun v hv hnot hne u hu hmem => hle.trans (h.bound v hv hnot hne u hu hmem)
  case seen =>
    intro u hu
    rcases List.mem_append.mp hu with hu | hu
    · exact ⟨(h.seen u hu).1, fun hmem => hle.trans ((h.seen u hu).2 hmem)⟩
    · obtain rfl := List.mem_singleton.mp hu
      refine ⟨h.wf.found u hstack, fun _ => ?_⟩
      rw [hlow]
      exact Nat.min_le_right _ _

/-- A successor that is called. -/
theorem call (hnode : ¬s.Found node) (hfound : ∀ v ∈ s.stack, s.Found v) {w : V}
    (hw : w ∈ next node) (hnew : ¬s'.Found w)
    (hcall : Connected next (insert node path) w s' s'') :
    Scanning next path node s (seen ++ [w]) (lowerLink node (s''.lowlink w) s'') := by
  have hlow : (lowerLink node (s''.lowlink w) s'').lowlink node =
      min (s'.lowlink node) (s''.lowlink w) := by
    rw [lowlink_lowerLink, if_pos rfl, hcall.ext.lowlink node h.found_self]
  have hle : (lowerLink node (s''.lowlink w) s'').lowlink node ≤ s'.lowlink node := by
    rw [hlow]
    exact Nat.min_le_left _ _
  have hle' : (lowerLink node (s''.lowlink w) s'').lowlink node ≤ s''.lowlink w := by
    rw [hlow]
    exact Nat.min_le_right _ _
  have hidx : ∀ v, s'.Found v → (lowerLink node (s''.lowlink w) s'').idx v = s'.idx v :=
    fun v hv => hcall.ext.idx hv
  obtain ⟨new, hstack, hnewStack⟩ := h.stack
  obtain ⟨new', hstack', hnewStack'⟩ := hcall.stack
  constructor
  case wf => exact hcall.wf.lowerLink _
  case ext => exact (h.ext.trans hcall.ext).lowerLink hnode _
  case index => exact (hcall.ext.indices node h.found_self).trans h.index
  case stack =>
    refine ⟨new' ++ new, ?_, fun v hv => ?_⟩
    · rw [List.append_assoc, ← hstack]
      exact hstack'
    · rcases List.mem_append.mp hv with hv | hv
      · exact ⟨fun hs => hnewStack' v hv (h.ext.found hs),
          fun heq => hnewStack' v hv (heq ▸ h.found_self)⟩
      · exact hnewStack v hv
  case low_le => exact hle.trans h.low_le
  case low =>
    rw [hlow]
    rcases Nat.le_total (s'.lowlink node) (s''.lowlink w) with hcase | hcase
    · obtain ⟨v, hv, hidxv, hreach⟩ := h.low
      refine ⟨v, ?_, ?_, hreach⟩
      · change v ∈ s''.stack
        rw [hstack']
        exact List.mem_append_right _ hv
      · rw [hidx v (h.wf.found v hv), hidxv, Nat.min_eq_left hcase]
    · rw [Nat.min_eq_right hcase]
      rcases hcall.low with heq | ⟨v, hv, hidxv, hreach⟩
      · -- the successor has a greater index than the vertex
        have hgt : s'.index ≤ s''.idx w := hcall.ext.fresh w hcall.found hnew
        have hindex := h.wf.idx_lt node h.found_self
        rw [h.idx_self] at hindex
        have hlowLe := h.low_le
        omega
      · exact ⟨v, hv, hidxv, .head hw hreach⟩
  case bound =>
    intro v hv hnot hne u hu hmem
    have hu' := h.wf.found u (h.stack_subset hmem)
    by_cases hold : s'.Found v
    · refine hle.trans ?_
      rw [hidx u hu']
      refine h.bound v ?_ hnot hne u hu hmem
      have hv' : v ∈ new' ++ s'.stack := hstack' ▸ hv
      exact (List.mem_append.mp hv').resolve_left fun hmem' => hnewStack' v hmem' hold
    · exact hle'.trans (hcall.bound v hv hold u hu (h.stack_subset hmem))
  case seen =>
    intro u hu
    rcases List.mem_append.mp hu with hu | hu
    · obtain ⟨hu', hbound⟩ := h.seen u hu
      refine ⟨hcall.ext.found hu', fun hmem => hle.trans ?_⟩
      rw [hidx u hu']
      exact hbound hmem
    · obtain rfl := List.mem_singleton.mp hu
      exact ⟨hcall.found, fun hmem => absurd (h.ext.found (hfound u hmem)) hnew⟩

end Scanning

/-! ## The end of a call -/

/-- What is popped are the vertices down to the vertex. -/
theorem popTo_append {new rest : List V} (hnode : node ∉ new) (onStack : V → Bool) :
    (popTo node (new ++ node :: rest) onStack).1 = new ++ [node] ∧
      (popTo node (new ++ node :: rest) onStack).2.1 = rest ∧
        ∀ v, (popTo node (new ++ node :: rest) onStack).2.2 v =
          (onStack v && !decide (v ∈ new ++ [node])) := by
  have hupdate : ∀ (onStack : V → Bool) (u v : V),
      Function.update onStack u false v = (onStack v && !decide (v = u)) := by
    intro onStack u v
    rw [Function.update_apply]
    split_ifs with heq
    · rw [decide_eq_true heq, Bool.not_true, Bool.and_false]
    · rw [decide_eq_false heq, Bool.not_false, Bool.and_true]
  induction new generalizing onStack with
  | nil =>
    rw [List.nil_append, List.nil_append, popTo, if_pos rfl]
    refine ⟨rfl, rfl, fun v => (hupdate onStack node v).trans ?_⟩
    simp only [List.mem_singleton]
  | cons u new ih =>
    rw [List.mem_cons, not_or] at hnode
    obtain ⟨hcomponent, hrest, hmarks⟩ := ih hnode.2 (Function.update onStack u false)
    rw [List.cons_append, popTo, if_neg fun heq => hnode.1 heq.symm]
    refine ⟨congrArg (u :: ·) hcomponent, hrest, fun v => ?_⟩
    refine (hmarks v).trans ?_
    rw [hupdate, List.cons_append]
    simp only [List.mem_cons, Bool.decide_or, Bool.not_or, Bool.and_assoc]

namespace Scanning

variable (h : Scanning next path node s (next node) s')

include h

/-- The vertices above the old stack lead to each other, and to what is done. -/
theorem successor {v w : V} (hwf : Wf next path s) (hroot : s'.lowlink node = s.index)
    (hv : v ∈ s'.stack) (hnot : v ∉ s.stack) (hw : w ∈ next v) :
    w ∈ s'.stack ∧ w ∉ s.stack ∨ s'.Done w := by
  obtain ⟨new, hstack, hnew⟩ := h.stack
  have hnotPath : v ≠ node → v ∉ insert node path := by
    rintro hne (heq | hmem)
    · exact hne heq
    · exact hnot (hwf.path_stack v hmem)
  have hfound : s'.Found w := by
    by_cases hne : v = node
    · exact (h.seen w (hne ▸ hw)).1
    · exact h.wf.closed v (h.wf.found v hv) (hnotPath hne) w hw
  by_cases hmem : w ∈ s'.stack
  · refine Or.inl ⟨hmem, fun hold => ?_⟩
    have hlt := h.lt_index hold
    have hle : s'.lowlink node ≤ s'.idx w := by
      by_cases hne : v = node
      · exact (h.seen w (hne ▸ hw)).2 hold
      · refine h.bound v hv (fun hfoundv => ?_) hne w hw hold
        have hv' : v ∈ new ++ node :: s.stack := hstack ▸ hv
        rcases List.mem_append.mp hv' with hv' | hv'
        · exact (hnew v hv').1 hfoundv
        · exact (List.mem_cons.mp hv').elim hne hnot
    omega
  · exact Or.inr ⟨hfound, hmem⟩

theorem reachable {v w : V} (hwf : Wf next path s) (hroot : s'.lowlink node = s.index)
    (hv : v ∈ s'.stack) (hnot : v ∉ s.stack) (hw : Reaches next v w) :
    w ∈ s'.stack ∧ w ∉ s.stack ∨ s'.Done w := by
  induction hw with
  | refl => exact Or.inl ⟨hv, hnot⟩
  | tail _ hedge ih =>
    rcases ih with ⟨hmem, hold⟩ | hdone
    · exact h.successor hwf hroot hmem hold hedge
    · exact Or.inr (h.wf.done _ hdone _ hedge)

/-- When the low link of the vertex is its index, the vertices down to it are a component. -/
theorem isClass {new : List V} (hwf : Wf next path s) (hroot : s'.lowlink node = s.index)
    (hmem : ∀ v, v ∈ new ↔ v ∈ s'.stack ∧ v ∉ s.stack) : IsClass next new := by
  have hnode : node ∉ s.stack := fun hmem => by
    have hlt := h.lt_index hmem
    rw [h.idx_self] at hlt
    exact Nat.lt_irrefl _ hlt
  have hto : ∀ v ∈ new, Reaches next v node := by
    intro v hv
    obtain ⟨hv, hnot⟩ := (hmem v).mp hv
    obtain ⟨u, hu, -, hreach⟩ := h.wf.up v hv
    rcases hu with rfl | hu
    · exact hreach
    · rcases h.reachable hwf hroot hv hnot hreach with ⟨-, hold⟩ | hdone
      · exact absurd (hwf.path_stack u hu) hold
      · exact absurd (h.stack_subset (hwf.path_stack u hu)) hdone.2
  have hfrom : ∀ v ∈ new, Reaches next node v := by
    intro v hv
    obtain ⟨hv, hnot⟩ := (hmem v).mp hv
    refine h.wf.down node h.node_mem v hv ?_
    rw [h.idx_self]
    exact Nat.le_of_not_lt fun hlt => hnot (h.mem_stack_of_lt hv hlt)
  constructor
  case ne_nil => exact List.ne_nil_of_mem ((hmem node).mpr ⟨h.node_mem, hnode⟩)
  case mem_iff =>
    intro v hv w
    obtain ⟨hv', hnot⟩ := (hmem v).mp hv
    constructor
    · intro hw
      exact ⟨(hto v hv).trans (hfrom w hw), (hto w hw).trans (hfrom v hv)⟩
    · rintro ⟨hvw, hwv⟩
      rcases h.reachable hwf hroot hv' hnot hvw with hw | hdone
      · exact (hmem w).mpr hw
      · exact absurd hv' (h.wf.done_of_reaches hdone hwv).2

/-- A vertex with a lower low link stays on the stack. -/
theorem stays (hwf : Wf next path s) (hlow : s'.lowlink node ≠ s.index) :
    Connected next path node s s' := by
  obtain ⟨new, hstack, hnew⟩ := h.stack
  have hlt : s'.lowlink node < s.index := lt_of_le_of_ne h.low_le hlow
  have hnode : ¬s.Found node := fun hfound => by
    have hindex := hwf.idx_lt node hfound
    rw [← h.ext.idx hfound, h.idx_self] at hindex
    exact Nat.lt_irrefl _ hindex
  -- the vertex reaches a lower one on the old stack, and from there the path
  have hnodeUp : ∃ u ∈ path, s'.idx u < s.index ∧ Reaches next node u := by
    obtain ⟨v, hv, hidx, hreach⟩ := h.low
    obtain ⟨u, hu, hle, hreach'⟩ := h.wf.up v hv
    rcases hu with rfl | hu
    · rw [h.idx_self] at hle
      omega
    · exact ⟨u, hu, by omega, hreach.trans hreach'⟩
  constructor
  case wf =>
    constructor
    case found => exact h.wf.found
    case onStack => exact h.wf.onStack
    case idx_lt => exact h.wf.idx_lt
    case sorted => exact h.wf.sorted
    case path_stack => exact fun v hv => h.stack_subset (hwf.path_stack v hv)
    case closed =>
      intro v hv hnot w hw
      by_cases heq : v = node
      · exact (h.seen w (heq ▸ hw)).1
      · exact h.wf.closed v hv (fun hmem => hmem.elim heq hnot) w hw
    case down => exact h.wf.down
    case up =>
      intro v hv
      obtain ⟨u, hu, hle, hreach⟩ := h.wf.up v hv
      rcases hu with rfl | hu
      · obtain ⟨t, ht, hlt, hreach'⟩ := hnodeUp
        rw [h.idx_self] at hle
        exact ⟨t, ht, by omega, hreach.trans hreach'⟩
      · exact ⟨u, hu, hle, hreach⟩
    case done => exact h.wf.done
    case mem_components => exact h.wf.mem_components
    case nodup => exact h.wf.nodup
    case classes => exact h.wf.classes
  case ext => exact h.ext
  case stack =>
    refine ⟨new ++ [node], by rw [hstack, List.append_assoc, List.singleton_append], fun v hv => ?_⟩
    rcases List.mem_append.mp hv with hv | hv
    · exact (hnew v hv).1
    · obtain rfl := List.mem_singleton.mp hv
      exact hnode
  case found => exact h.found_self
  case low => exact Or.inr h.low
  case bound =>
    intro v hv hnot w hw hmem
    by_cases heq : v = node
    · exact (h.seen w (heq ▸ hw)).2 hmem
    · exact h.bound v hv hnot heq w hw hmem

/-- What the state is after a component is popped. -/
theorem popped {new : List V} {onStack : V → Bool} (hwf : Wf next path s)
    (hnode : ¬s.Found node) (hroot : s'.lowlink node = s.index)
    (hstack : s'.stack = new ++ node :: s.stack) (hnew : ∀ v ∈ new, ¬s.Found v ∧ v ≠ node)
    (honStack : ∀ v, onStack v = (s'.onStack v && !decide (v ∈ new ++ [node]))) :
    Connected next path node s
      { s' with
        stack := s.stack
        onStack
        components := s'.components ++ [orderBy id (new ++ [node])] } := by
  have hmemStack : ∀ v, v ∈ s'.stack ↔ v ∈ new ++ [node] ∨ v ∈ s.stack := by
    intro v
    rw [hstack, ← List.singleton_append, ← List.append_assoc, List.mem_append]
  have hnotOld : ∀ v ∈ new ++ [node], v ∉ s.stack := by
    intro v hv hold
    rcases List.mem_append.mp hv with hv | hv
    · exact (hnew v hv).1 (hwf.found v hold)
    · exact hnode (List.mem_singleton.mp hv ▸ hwf.found v hold)
  have hcomponent : ∀ v, v ∈ orderBy id (new ++ [node]) ↔ v ∈ s'.stack ∧ v ∉ s.stack := by
    intro v
    rw [mem_orderBy, hmemStack]
    exact ⟨fun hv => ⟨Or.inl hv, hnotOld v hv⟩, fun hv => hv.1.resolve_right hv.2⟩
  have hdone : ∀ v, s'.Found v ∧ v ∉ s.stack ↔ s'.Done v ∨ v ∈ s'.stack ∧ v ∉ s.stack := by
    intro v
    rw [TarjanState.Done]
    constructor
    · rintro ⟨hfound, hnot⟩
      by_cases hmem : v ∈ s'.stack
      · exact Or.inr ⟨hmem, hnot⟩
      · exact Or.inl ⟨hfound, hmem⟩
    · rintro (⟨hfound, hnot⟩ | ⟨hmem, hnot⟩)
      · exact ⟨hfound, fun hold => hnot (h.stack_subset hold)⟩
      · exact ⟨h.wf.found v hmem, hnot⟩
  constructor
  case wf =>
    constructor
    case found => exact fun v hv => h.wf.found v (h.stack_subset hv)
    case onStack =>
      intro v
      change onStack v = true ↔ v ∈ s.stack
      rw [honStack, Bool.and_eq_true, h.wf.onStack, Bool.not_eq_true', decide_eq_false_iff_not,
        hmemStack]
      exact ⟨fun hv => hv.1.resolve_left hv.2, fun hv => ⟨Or.inr hv, fun hv' => hnotOld v hv' hv⟩⟩
    case idx_lt => exact h.wf.idx_lt
    case sorted =>
      have hsorted := h.wf.sorted
      rw [hstack, List.pairwise_append, List.pairwise_cons] at hsorted
      exact hsorted.2.1.2
    case path_stack => exact hwf.path_stack
    case closed =>
      intro v hv hnot w hw
      by_cases heq : v = node
      · exact (h.seen w (heq ▸ hw)).1
      · exact h.wf.closed v hv (fun hmem => hmem.elim heq hnot) w hw
    case down => exact fun v hv w hw => h.wf.down v (h.stack_subset hv) w (h.stack_subset hw)
    case up =>
      intro v hv
      obtain ⟨u, hu, hle, hreach⟩ := h.wf.up v (h.stack_subset hv)
      rcases hu with rfl | hu
      · rw [h.idx_self] at hle
        exact absurd (h.lt_index hv) (Nat.not_lt.mpr hle)
      · exact ⟨u, hu, hle, hreach⟩
    case done =>
      intro v hv w hw
      refine (hdone w).mpr ?_
      rcases (hdone v).mp hv with hv | ⟨hv, hnot⟩
      · exact Or.inl (h.wf.done v hv w hw)
      · exact (h.successor hwf hroot hv hnot hw).symm
    case mem_components =>
      intro v
      refine Iff.trans ?_ (hdone v).symm
      rw [List.flatten_concat, List.mem_append, h.wf.mem_components, hcomponent]
    case nodup =>
      rw [List.flatten_concat, List.nodup_append']
      refine ⟨h.wf.nodup, (perm_orderBy id _).nodup_iff.mpr ?_, fun v hv hv' => ?_⟩
      · have hsorted := h.wf.sorted
        have hnodup : s'.stack.Nodup := hsorted.imp fun hlt heq => hlt.ne' (congrArg _ heq)
        rw [hstack, ← List.singleton_append, ← List.append_assoc] at hnodup
        exact (List.nodup_append'.mp hnodup).1
      · exact ((h.wf.mem_components v).mp hv).2 ((hcomponent v).mp hv').1
    case classes =>
      rw [List.forall_mem_append, List.forall_mem_singleton]
      exact ⟨h.wf.classes, h.isClass hwf hroot hcomponent⟩
  case ext => exact ⟨h.ext.indices, h.ext.lowlink, h.ext.index_le, h.ext.fresh⟩
  case stack => exact ⟨[], rfl, fun v hv => absurd hv List.not_mem_nil⟩
  case found => exact h.found_self
  case low => exact Or.inl (hroot.trans h.idx_self.symm)
  case bound => exact fun v hv hnot => absurd (hwf.found v hv) hnot

/-- The end of a call. -/
theorem finish (hwf : Wf next path s) (hnode : ¬s.Found node) :
    Connected next path node s (finish node s') := by
  rw [CodeCity.finish, h.index, Option.getD_some]
  split_ifs with hroot
  · obtain ⟨new, hstack, hnew⟩ := h.stack
    obtain ⟨hcomponent, hrest, hmarks⟩ := @popTo_append _ _ _ _ s.stack
      (fun hmem => (hnew node hmem).2 rfl) s'.onStack
    rw [← hstack] at hcomponent hrest hmarks
    simp only [hcomponent, hrest]
    exact h.popped hwf hnode hroot hstack hnew hmarks
  · exact h.stays hwf hroot

end Scanning

/-! ## All calls -/

section Depth

variable [Fintype V]

/-- How many vertices are not found. -/
def unfound (s : TarjanState V) : ℕ := (Finset.univ.filter fun v => s.indices v = none).card

theorem unfound_le (h : ∀ v, s.Found v → s'.Found v) : unfound s' ≤ unfound s := by
  refine Finset.card_le_card fun v hv => ?_
  rw [Finset.mem_filter] at hv ⊢
  exact ⟨hv.1, by_contra fun hfound => h v hfound hv.2⟩

theorem unfound_enter_lt (hnode : ¬s.Found node) : unfound (enter node s) < unfound s := by
  refine Finset.card_lt_card ((Finset.ssubset_iff_of_subset fun v hv => ?_).mpr ?_)
  · rw [Finset.mem_filter] at hv ⊢
    exact ⟨hv.1, by_contra fun hfound => (found_enter.mpr (Or.inr hfound)) hv.2⟩
  · refine ⟨node, Finset.mem_filter.mpr ⟨Finset.mem_univ _, not_not.mp hnode⟩, fun hmem => ?_⟩
    exact found_enter.mpr (Or.inl rfl) (Finset.mem_filter.mp hmem).2

/-- The successors are looked at one after the other. -/
theorem Scanning.foldl {connect : V → TarjanState V → TarjanState V} {depth : ℕ}
    (hconnect : ∀ w s', Wf next (insert node path) s' → ¬s'.Found w →
      (∀ v ∈ insert node path, Reaches next v w) → unfound s' ≤ depth →
        Connected next (insert node path) w s' (connect w s'))
    (hwf : Wf next path s) (hnode : ¬s.Found node) (hpath : ∀ v ∈ path, Reaches next v node)
    (hdepth : unfound (enter node s) ≤ depth) (targets : List V)
    (htargets : ∀ w ∈ targets, w ∈ next node) :
    ∀ seen s', Scanning next path node s seen s' →
      Scanning next path node s (seen ++ targets)
        (targets.foldl (scanStep connect node) s') := by
  induction targets with
  | nil =>
    intro seen s' h
    rwa [List.append_nil]
  | cons w targets ih =>
    intro seen s' h
    obtain ⟨hw, htail⟩ := List.forall_mem_cons.mp htargets
    rw [List.foldl_cons, ← List.singleton_append, ← List.append_assoc]
    refine ih htail (seen ++ [w]) (scanStep connect node s' w) ?_
    have hreach : ∀ v ∈ insert node path, Reaches next v w := by
      rintro v (rfl | hv)
      · exact .single hw
      · exact (hpath v hv).tail hw
    have hle : unfound s' ≤ depth := by
      refine le_trans (unfound_le fun v hv => ?_) hdepth
      rcases found_enter.mp hv with rfl | hv
      · exact h.found_self
      · exact h.ext.found hv
    rw [scanStep]
    by_cases hfound : s'.indices w = none
    · rw [if_pos hfound]
      have hnew : ¬s'.Found w := not_not_intro hfound
      exact h.call hnode hwf.found hw hnew (hconnect w s' h.wf hnew hreach hle)
    · rw [if_neg hfound]
      split_ifs with hstack
      · exact h.lowerLink_found hnode hw ((h.wf.onStack w).mp hstack)
      · exact h.done ⟨hfound, fun hmem => hstack ((h.wf.onStack w).mpr hmem)⟩

/-- A call does what it is to do when there are calls enough for the vertices that are not
found. -/
theorem connected_strongConnect (depth : ℕ) :
    ∀ path node (s : TarjanState V), Wf next path s → ¬s.Found node →
      (∀ v ∈ path, Reaches next v node) → unfound s ≤ depth →
        Connected next path node s (strongConnect next depth node s) := by
  induction depth with
  | zero =>
    intro path node s hwf hnode hpath hdepth
    have hlt := unfound_enter_lt hnode
    omega
  | succ depth ih =>
    intro path node s hwf hnode hpath hdepth
    have hlt := unfound_enter_lt hnode
    have hscan := Scanning.foldl (fun w s' => ih (insert node path) w s') hwf hnode hpath
      (by omega) (next node) (fun _ hw => hw) [] _ (scanning_enter hwf hnode hpath)
    rw [List.nil_append] at hscan
    exact hscan.finish hwf hnode

/-- The vertices are called that are not found when their turn comes. -/
def connectAll (next : V → List V) (nodes : List V) (state : TarjanState V) : TarjanState V :=
  nodes.foldl (fun state node =>
    if state.indices node = none then strongConnect next (Fintype.card V) node state else state)
    state

theorem wf_connectAll (nodes : List V) :
    ∀ s : TarjanState V, Wf next ∅ s →
      Wf next ∅ (connectAll next nodes s) ∧
        (∀ v, s.Found v → (connectAll next nodes s).Found v) ∧
          ∀ v ∈ nodes, (connectAll next nodes s).Found v := by
  induction nodes with
  | nil =>
    intro s hwf
    exact ⟨hwf, fun _ hv => hv, fun _ hv => absurd hv List.not_mem_nil⟩
  | cons node nodes ih =>
    intro s hwf
    rw [connectAll, List.foldl_cons, List.forall_mem_cons]
    by_cases hnode : s.indices node = none
    · rw [if_pos hnode]
      have hcall := connected_strongConnect (Fintype.card V) ∅ node s hwf (not_not_intro hnode)
        (fun _ hv => absurd hv (Set.notMem_empty _)) (Finset.card_le_univ _)
      obtain ⟨hwf', hkept, hall⟩ := ih _ hcall.wf
      exact ⟨hwf', fun v hv => hkept v (hcall.ext.found hv), hkept node hcall.found, hall⟩
    · rw [if_neg hnode]
      obtain ⟨hwf', hkept, hall⟩ := ih s hwf
      exact ⟨hwf', hkept, hkept node hnode, hall⟩

/-- In the end every vertex stands in one component, and the components are classes. -/
theorem components_connectAll {nodes : List V} (hnodes : ∀ v, v ∈ nodes) :
    (∀ v, v ∈ (connectAll next nodes {}).components.flatten) ∧
      (connectAll next nodes {}).components.flatten.Nodup ∧
        ∀ component ∈ (connectAll next nodes {}).components, IsClass next component := by
  obtain ⟨hwf, -, hall⟩ := wf_connectAll nodes ({} : TarjanState V) wf_initial
  refine ⟨fun v => (hwf.mem_components v).mpr ⟨hall v (hnodes v), fun hv => ?_⟩, hwf.nodup,
    hwf.classes⟩
  -- a vertex on the stack would reach a call that is under way
  obtain ⟨u, hu, -⟩ := hwf.up v hv
  exact absurd hu (Set.notMem_empty _)

end Depth

end CodeCity
end Bitloops
