import Bitloops.CodeCity.ArticulationSearch

/-!
# The calls of the search for articulation points

A call finds its vertex, `Entry.scan`, looks at the neighbours one after the other, and finishes the
vertex, `Scan.grows`.  `grows_visit` is the induction on the depth of the calls.
-/

namespace Bitloops
namespace CodeCity

open SearchForest (Above above_of_parent)

variable {V : Type*} [LinearOrder V] {next : V → List V} {path : Set V}
  {parent parent' parent'' : V → Option V} {s s' s'' : LowState V} {node : V} {above : Option V}
  {seen : List V}

/-! ## A vertex is found -/

theorem discovery_discover (v : V) :
    (s.discover node).discovery v = if v = node then some s.time else s.discovery v :=
  Function.update_apply ..

theorem low_discover (v : V) :
    (s.discover node).low v = if v = node then s.time else s.low v :=
  Function.update_apply ..

theorem found_discover {v : V} : (s.discover node).Found v ↔ v = node ∨ s.Found v := by
  rw [LowState.Found, discovery_discover]
  split_ifs with heq
  · exact iff_of_true (Option.some_ne_none _) (Or.inl heq)
  · exact (or_iff_right heq).symm

theorem disc_discover_self : (s.discover node).disc node = s.time := by
  rw [LowState.disc, discovery_discover, if_pos rfl, Option.getD_some]

variable [Fintype V]

/-- The state when a vertex is called, whose parent is `above`. -/
structure Entry (next : V → List V) (path : Set V) (parent : V → Option V) (s : LowState V)
    (node : V) (above : Option V) : Prop where
  inv : LowInv next path parent s
  new : ¬s.Found node
  above_some : ∀ p, above = some p → p ∈ path ∧ node ∈ next p ∧ ∀ v ∈ path, Above parent v p
  above_none : above = none → path = ∅

/-- The state while the neighbours of a vertex are looked at. -/
structure Scan (next : V → List V) (path : Set V) (parent : V → Option V) (s : LowState V)
    (node : V) (above : Option V) (seen : List V) (parent' : V → Option V)
    (acc : LowState V × ℕ) : Prop where
  inv : LowInv next (insert node path) parent' acc.1
  grows : Grows parent s node above parent' acc.1
  disc_node : acc.1.discovery node = some s.time
  found_seen : ∀ w ∈ seen, acc.1.Found w
  count : acc.2 = (children parent' node).card
  low_lt_iff : ∀ p, above = some p → ∀ d ≤ s.disc p, (acc.1.low node < d ↔
    (∃ u, parent' u = some node ∧ acc.1.low u < d) ∨ ∃ w ∈ seen, acc.1.disc w < d)
  additional : acc.1.additionalComponents node =
    if above = none then 0 else (cutChildren parent' acc.1 node).card

namespace Entry

variable (h : Entry next path parent s node above)

include h

theorem ne_node {v : V} (hv : s.Found v) : v ≠ node := fun heq => h.new (heq ▸ hv)

theorem agrees :
    Agrees path parent s (Function.update parent node above) (s.discover node) where
  discovery v hv := by rw [discovery_discover, if_neg (h.ne_node hv)]
  low v hv _ := by rw [low_discover, if_neg (h.ne_node hv)]
  additional _ _ _ := rfl
  parent v hv := Function.update_of_ne (h.ne_node hv) _ _
  parent_new v hv p hparent := by
    rw [Function.update_apply] at hparent
    split_ifs at hparent with heq
    · exact Or.inl (h.above_some p hparent).1
    · exact absurd (h.inv.found_parent v p hparent).1 hv

theorem grows : Grows parent s node above (Function.update parent node above) (s.discover node) where
  discovery := h.agrees.discovery
  low v hv := by rw [low_discover, if_neg (h.ne_node hv)]
  additional _ _ := rfl
  parent := h.agrees.parent
  parent_node := Function.update_self ..
  parent_new v hv hne p hparent := by
    rw [Function.update_of_ne hne] at hparent
    exact absurd (h.inv.found_parent v p hparent).1 hv
  found_node := found_discover.mpr (Or.inl rfl)
  time_le := Nat.le_succ _
  time_le_disc v hv hnew := by
    obtain rfl := (found_discover.mp hv).resolve_right hnew
    exact disc_discover_self.ge

/-- The calls that are under way are those of the vertices above. -/
theorem above_path {v : V} (hv : v ∈ path) :
    Above (Function.update parent node above) v node := by
  cases habove : above with
  | none =>
    rw [h.above_none habove] at hv
    exact absurd hv (Set.notMem_empty v)
  | some p =>
    obtain ⟨hp, -, hall⟩ := h.above_some p habove
    have hvp := (h.inv.above_iff_of_found h.agrees.parent (h.inv.path_found p hp)).mpr (hall v hv)
    rw [habove] at hvp
    exact hvp.tail (Function.update_self ..)

theorem inv_discover (hsymm : ∀ v w, w ∈ next v → v ∈ next w) :
    LowInv next (insert node path) (Function.update parent node above) (s.discover node) := by
  have hdisc : ∀ {v}, s.Found v → (s.discover node).disc v = s.disc v :=
    disc_eq_of_discovery h.agrees.discovery
  have hparent : ∀ v p, Function.update parent node above v = some p →
      v = node ∧ p ∈ path ∧ node ∈ next p ∨ parent v = some p := by
    intro v p hp
    rw [Function.update_apply] at hp
    split_ifs at hp with heq
    · obtain ⟨hpath, hnext, -⟩ := h.above_some p hp
      exact Or.inl ⟨heq, hpath, hnext⟩
    · exact Or.inr hp
  -- a new vertex has no neighbour that is finished
  have hnode : ∀ v, s.Found v → node ∈ next v → Above (Function.update parent node above) v node := by
    intro v hv hnext
    by_cases hpath : v ∈ path
    · exact h.above_path hpath
    · exact absurd (h.inv.closed v hv hpath node hnext) h.new
  constructor
  case found_parent =>
    intro v p hp
    rcases hparent v p hp with ⟨rfl, hpath, -⟩ | hp
    · exact ⟨found_discover.mpr (Or.inl rfl),
        found_discover.mpr (Or.inr (h.inv.path_found p hpath))⟩
    · exact ⟨found_discover.mpr (Or.inr (h.inv.found_parent v p hp).1),
        found_discover.mpr (Or.inr (h.inv.found_parent v p hp).2)⟩
  case adj_parent =>
    intro v p hp
    rcases hparent v p hp with ⟨rfl, -, hnext⟩ | hp
    · exact hnext
    · exact h.inv.adj_parent v p hp
  case disc_lt =>
    intro v p hp
    rcases hparent v p hp with ⟨rfl, hpath, -⟩ | hp
    · rw [disc_discover_self, hdisc (h.inv.path_found p hpath)]
      exact h.inv.disc_lt_time p (h.inv.path_found p hpath)
    · rw [hdisc (h.inv.found_parent v p hp).1, hdisc (h.inv.found_parent v p hp).2]
      exact h.inv.disc_lt v p hp
  case disc_lt_time =>
    intro v hv
    change (s.discover node).disc v < s.time + 1
    rcases found_discover.mp hv with rfl | hv
    · rw [disc_discover_self]
      exact Nat.lt_succ_self _
    · rw [hdisc hv]
      exact (h.inv.disc_lt_time v hv).trans (Nat.lt_succ_self _)
  case comparable =>
    intro v w hv hw hnext
    rcases found_discover.mp hv with rfl | hv'
    · rcases found_discover.mp hw with rfl | hw'
      · exact Or.inl .refl
      · exact Or.inr (hnode w hw' (hsymm _ _ hnext))
    · rcases found_discover.mp hw with rfl | hw'
      · exact Or.inl (hnode v hv' hnext)
      · rw [h.inv.above_iff_of_found h.agrees.parent hw',
          h.inv.above_iff_of_found h.agrees.parent hv']
        exact h.inv.comparable v w hv' hw' hnext
  case closed =>
    intro v hv hpath w hw
    have hfound := (found_discover.mp hv).resolve_left fun heq => hpath (Or.inl heq)
    exact found_discover.mpr
      (Or.inr (h.inv.closed v hfound (fun hmem => hpath (Or.inr hmem)) w hw))
  case path_found =>
    rintro v (rfl | hv)
    · exact found_discover.mpr (Or.inl rfl)
    · exact found_discover.mpr (Or.inr (h.inv.path_found v hv))
  case path_up =>
    intro v hv p hp
    rcases hparent v p hp with ⟨-, hpath, -⟩ | hp
    · exact Or.inr hpath
    · have hne := h.ne_node (h.inv.found_parent v p hp).1
      exact Or.inr (h.inv.path_up v (hv.resolve_left hne) p hp)
  case additional_zero =>
    intro v hv
    exact h.inv.additional_zero v fun hfound => hv (found_discover.mpr (Or.inr hfound))
  case low_lt_iff =>
    intro v p hv hpath hp d hd
    have hfound := (found_discover.mp hv).resolve_left fun heq => hpath (Or.inl heq)
    exact h.inv.low_lt_iff_of_agrees h.agrees hfound (fun hmem => hpath (Or.inr hmem)) hp hd
  case additional_eq =>
    intro v hv hpath
    have hfound := (found_discover.mp hv).resolve_left fun heq => hpath (Or.inl heq)
    exact h.inv.additional_eq_of_agrees h.agrees hfound fun hmem => hpath (Or.inr hmem)

theorem children_discover : children (Function.update parent node above) node = ∅ := by
  refine Finset.eq_empty_of_forall_notMem fun u hu => ?_
  rw [mem_children, Function.update_apply] at hu
  split_ifs at hu
  · exact h.new (h.inv.path_found node (h.above_some node hu).1)
  · exact h.new (h.inv.found_parent u node hu).2

theorem scan (hsymm : ∀ v w, w ∈ next v → v ∈ next w) :
    Scan next path parent s node above [] (Function.update parent node above)
      (s.discover node, 0) where
  inv := h.inv_discover hsymm
  grows := h.grows
  disc_node := by rw [discovery_discover, if_pos rfl]
  found_seen := fun _ hw => absurd hw List.not_mem_nil
  count := by rw [h.children_discover, Finset.card_empty]
  low_lt_iff := by
    intro p hp d hd
    have hlow : (s.discover node).low node = s.time := by rw [low_discover, if_pos rfl]
    have hlt := h.inv.disc_lt_time p (h.inv.path_found p (h.above_some p hp).1)
    refine iff_of_false (by rw [hlow]; omega) ?_
    rintro (⟨u, hu, -⟩ | ⟨w, hw, -⟩)
    · rw [← mem_children, h.children_discover] at hu
      exact Finset.notMem_empty u hu
    · exact List.not_mem_nil hw
  additional := by
    have hzero : (s.discover node).additionalComponents node = 0 := h.inv.additional_zero node h.new
    rw [hzero, cutChildren, h.children_discover, Finset.filter_empty, Finset.card_empty, ite_self]

end Entry

/-! ## The neighbours of a vertex -/

theorem low_lower (bound : ℕ) (v : V) :
    (s.lower node bound).low v = if v = node then min (s.low node) bound else s.low v :=
  Function.update_apply ..

theorem additional_setAdditional (count : ℕ) (v : V) :
    (s.setAdditional node count).additionalComponents v =
      if v = node then count else s.additionalComponents v :=
  Function.update_apply ..

namespace Scan

variable {state : LowState V} {count : ℕ} (he : Entry next path parent s node above)
  (h : Scan next path parent s node above seen parent' (state, count))

include he h

theorem found_node : state.Found node := h.grows.found_node

theorem disc_node_eq : state.disc node = s.time := by
  rw [LowState.disc, h.disc_node, Option.getD_some]

/-- The parent is passed over. -/
theorem skip {w : V} (hw : state.Found w) (habove : above = some w) :
    Scan next path parent s node above (seen ++ [w]) parent' (state, count) where
  inv := h.inv
  grows := h.grows
  disc_node := h.disc_node
  found_seen := by
    rw [List.forall_mem_append, List.forall_mem_singleton]
    exact ⟨h.found_seen, hw⟩
  count := h.count
  low_lt_iff := by
    intro p hp d hd
    obtain rfl := Option.some.inj (hp.symm.trans habove)
    have hdisc : state.disc p = s.disc p := disc_eq_of_discovery h.grows.discovery
      (he.inv.path_found p (he.above_some p hp).1)
    rw [h.low_lt_iff p hp d hd]
    refine or_congr_right ⟨?_, ?_⟩
    · rintro ⟨w, hw, hlt⟩
      exact ⟨w, List.mem_append_left _ hw, hlt⟩
    · rintro ⟨w, hw, hlt⟩
      rcases List.mem_append.mp hw with hw | hw
      · exact ⟨w, hw, hlt⟩
      · rw [List.mem_singleton.mp hw] at hlt
        change state.disc p < d at hlt
        omega
  additional := h.additional

/-- A neighbour that is found already. -/
theorem lower {w : V} (hw : state.Found w) :
    Scan next path parent s node above (seen ++ [w]) parent'
      (state.lower node (state.disc w), count) := by
  have hlow : ∀ v, v ≠ node → (state.lower node (state.disc w)).low v = state.low v :=
    fun v hv => by rw [low_lower, if_neg hv]
  have hself : ∀ v, s.Found v → v ≠ node := fun v hv => he.ne_node hv
  have hchild : ∀ u, parent' u = some node → u ≠ node := by
    rintro u hu rfl
    exact Nat.lt_irrefl _ (h.inv.disc_lt u u hu)
  constructor
  case inv =>
    exact h.inv.update rfl rfl (fun v hv => hlow v fun heq => hv (Or.inl heq)) fun _ _ => rfl
  case grows =>
    exact
      { discovery := h.grows.discovery
        low := fun v hv => (hlow v (hself v hv)).trans (h.grows.low v hv)
        additional := h.grows.additional
        parent := h.grows.parent
        parent_node := h.grows.parent_node
        parent_new := h.grows.parent_new
        found_node := h.grows.found_node
        time_le := h.grows.time_le
        time_le_disc := h.grows.time_le_disc }
  case disc_node => exact h.disc_node
  case found_seen =>
    rw [List.forall_mem_append, List.forall_mem_singleton]
    exact ⟨h.found_seen, hw⟩
  case count => exact h.count
  case low_lt_iff =>
    intro p hp d hd
    have hiff := h.low_lt_iff p hp d hd
    change (state.lower node (state.disc w)).low node < d ↔
      (∃ u, parent' u = some node ∧ (state.lower node (state.disc w)).low u < d) ∨
        ∃ v ∈ seen ++ [w], state.disc v < d
    have hchildren : (∃ u, parent' u = some node ∧
        (state.lower node (state.disc w)).low u < d) ↔
          ∃ u, parent' u = some node ∧ state.low u < d :=
      exists_congr fun u => and_congr_right fun hu => by rw [hlow u (hchild u hu)]
    have hseen : (∃ v ∈ seen ++ [w], state.disc v < d) ↔
        (∃ v ∈ seen, state.disc v < d) ∨ state.disc w < d := by
      simp only [List.mem_append, List.mem_singleton, or_and_right, exists_or, exists_eq_left]
    rw [low_lower, if_pos rfl, min_lt_iff, hchildren, hseen, ← or_assoc, ← hiff]
  case additional =>
    have hcut : cutChildren parent' (state.lower node (state.disc w)) node =
        cutChildren parent' state node :=
      Finset.filter_congr fun u hu => by
        rw [hlow u (hchild u (mem_children.mp hu))]
        rfl
    rw [hcut]
    exact h.additional

/-- What the low number of a child says. -/
theorem low_child {u p : V} (hu : parent' u = some node) {d : ℕ} (hd : d ≤ s.disc p)
    (hp : s.disc p ≤ s.time) :
    state.low u < d ↔ ∃ z, Above parent' u z ∧ ∃ w ∈ next z, state.disc w < d := by
  have hne : u ≠ node := by
    rintro rfl
    exact Nat.lt_irrefl _ (h.inv.disc_lt u u hu)
  have hnotFound : ¬s.Found u := by
    intro hfound
    rw [h.grows.parent u hfound] at hu
    exact he.new (he.inv.found_parent u node hu).2
  have hpath : u ∉ insert node path := fun hmem =>
    hmem.elim hne fun hmem => hnotFound (he.inv.path_found u hmem)
  refine h.inv.low_lt_iff u node (h.inv.found_parent u node hu).1 hpath hu d ?_
  exact hd.trans (hp.trans_eq (h.disc_node_eq he).symm)

/-- What is known when a neighbour is called. -/
theorem entry {w : V} (hnew : ¬state.Found w) (hw : w ∈ next node) :
    Entry next (insert node path) parent' state w (some node) where
  inv := h.inv
  new := hnew
  above_some := by
    intro p hp
    obtain rfl := Option.some.inj hp
    refine ⟨Or.inl rfl, hw, ?_⟩
    rintro v (rfl | hv)
    · exact .refl
    · cases habove : above with
      | none =>
        rw [he.above_none habove] at hv
        exact absurd hv (Set.notMem_empty v)
      | some p =>
        obtain ⟨hp, -, hall⟩ := he.above_some p habove
        have hvp := (he.inv.above_iff_of_found h.grows.parent (he.inv.path_found p hp)).mpr
          (hall v hv)
        exact hvp.tail (h.grows.parent_node.trans habove)
  above_none := fun hnone => absurd hnone (Option.some_ne_none node)

/-- The children of the vertex after a neighbour is called. -/
theorem children_call {w : V} (hnew : ¬state.Found w)
    (hgrows : Grows parent' state w (some node) parent'' s'') :
    children parent'' node = insert w (children parent' node) ∧ w ∉ children parent' node := by
  constructor
  · ext u
    rw [mem_children, Finset.mem_insert, mem_children]
    by_cases hu : state.Found u
    · rw [hgrows.parent u hu]
      exact (or_iff_right fun heq : u = w => hnew (heq ▸ hu)).symm
    · by_cases heq : u = w
      · rw [heq]
        exact iff_of_true hgrows.parent_node (Or.inl rfl)
      · refine iff_of_false (fun hparent => ?_) ?_
        · exact hgrows.parent_new u hu heq node hparent (h.found_node he)
        · rintro (heq' | hparent)
          · exact heq heq'
          · exact hu (h.inv.found_parent u node hparent).1
  · rw [mem_children]
    exact fun hparent => hnew (h.inv.found_parent w node hparent).1

/-- A neighbour that is called. -/
theorem call {w : V} (hnew : ¬state.Found w)
    (hinv : LowInv next (insert node path) parent'' s'')
    (hgrows : Grows parent' state w (some node) parent'' s'') {final : LowState V}
    (hdiscovery : final.discovery = s''.discovery) (htime : final.time = s''.time)
    (hlow : ∀ v, final.low v = if v = node then min (s''.low node) (s''.low w) else s''.low v)
    (hadditional : ∀ v, final.additionalComponents v =
      if v = node ∧ above.isSome ∧ s.time ≤ s''.low w then s''.additionalComponents node + 1
      else s''.additionalComponents v) :
    Scan next path parent s node above (seen ++ [w]) parent'' (final, count + 1) := by
  have hnode := h.found_node he
  have hdisc : ∀ v, final.disc v = s''.disc v := fun v => by
    rw [LowState.disc, hdiscovery, LowState.disc]
  have hfound : ∀ v, final.Found v ↔ s''.Found v := fun v => by
    rw [LowState.Found, hdiscovery, LowState.Found]
  have hother : ∀ v, v ≠ node → final.low v = s''.low v := fun v hv => by rw [hlow, if_neg hv]
  have hadditional' : ∀ v, v ≠ node →
      final.additionalComponents v = s''.additionalComponents v := fun v hv => by
    rw [hadditional, if_neg fun hand => hv hand.1]
  have hdiscNode : final.discovery node = some s.time := by
    rw [hdiscovery, hgrows.discovery node hnode]
    exact h.disc_node
  have hdiscNode' : final.disc node = s.time := by
    rw [LowState.disc, hdiscNode, Option.getD_some]
  obtain ⟨hchildren, hwNot⟩ := h.children_call he hnew hgrows
  have hchild : ∀ u ∈ children parent' node, state.Found u ∧ final.low u = state.low u := by
    intro u hu
    rw [mem_children] at hu
    have hu' := (h.inv.found_parent u node hu).1
    have hne : u ≠ node := fun heq => Nat.lt_irrefl _ (heq ▸ h.inv.disc_lt u node hu)
    exact ⟨hu', (hother u hne).trans (hgrows.low u hu')⟩
  have hwNode : w ≠ node := fun heq => hnew (heq ▸ hnode)
  constructor
  case inv =>
    exact hinv.update hdiscovery htime (fun v hv => hother v fun heq => hv (Or.inl heq))
      fun v hv => hadditional' v fun heq => hv (Or.inl heq)
  case grows =>
    have hstate : ∀ v, s.Found v → state.Found v := fun v => found_of_discovery h.grows.discovery
    constructor
    case discovery =>
      intro v hv
      rw [hdiscovery, hgrows.discovery v (hstate v hv)]
      exact h.grows.discovery v hv
    case low =>
      intro v hv
      rw [hother v (he.ne_node hv), hgrows.low v (hstate v hv)]
      exact h.grows.low v hv
    case additional =>
      intro v hv
      rw [hadditional' v (he.ne_node hv), hgrows.additional v (hstate v hv)]
      exact h.grows.additional v hv
    case parent => exact fun v hv => (hgrows.parent v (hstate v hv)).trans (h.grows.parent v hv)
    case parent_node => exact (hgrows.parent node hnode).trans h.grows.parent_node
    case parent_new =>
      intro v hv hne p hp hfoundp
      by_cases hv' : state.Found v
      · rw [hgrows.parent v hv'] at hp
        exact h.grows.parent_new v hv hne p hp hfoundp
      · by_cases heq : v = w
        · rw [heq, hgrows.parent_node] at hp
          exact he.new (Option.some.inj hp ▸ hfoundp)
        · exact hgrows.parent_new v hv' heq p hp (hstate p hfoundp)
    case found_node => exact (hfound node).mpr (found_of_discovery hgrows.discovery hnode)
    case time_le =>
      rw [htime]
      exact h.grows.time_le.trans hgrows.time_le
    case time_le_disc =>
      intro v hv hnot
      rw [hdisc]
      by_cases hv' : state.Found v
      · rw [disc_eq_of_discovery hgrows.discovery hv']
        exact h.grows.time_le_disc v hv' hnot
      · exact h.grows.time_le.trans (hgrows.time_le_disc v ((hfound v).mp hv) hv')
  case disc_node => exact hdiscNode
  case found_seen =>
    rw [List.forall_mem_append, List.forall_mem_singleton]
    refine ⟨fun v hv => (hfound v).mpr ?_, (hfound w).mpr hgrows.found_node⟩
    exact found_of_discovery hgrows.discovery (h.found_seen v hv)
  case count =>
    change count + 1 = _
    rw [hchildren, Finset.card_insert_of_notMem hwNot, ← h.count]
  case low_lt_iff =>
    intro p hp d hd
    have hiff := h.low_lt_iff p hp d hd
    have hbefore : s.disc p < s.time :=
      he.inv.disc_lt_time p (he.inv.path_found p (he.above_some p hp).1)
    have hlowNode : final.low node < d ↔ state.low node < d ∨ s''.low w < d := by
      rw [hlow, if_pos rfl, min_lt_iff, hgrows.low node hnode]
    have hchildren' : (∃ u, parent'' u = some node ∧ final.low u < d) ↔
        s''.low w < d ∨ ∃ u, parent' u = some node ∧ state.low u < d := by
      simp only [← mem_children, hchildren, Finset.mem_insert, or_and_right, exists_or,
        exists_eq_left]
      refine or_congr (by rw [hother w hwNode]) (exists_congr fun u => ?_)
      exact and_congr_right fun hu => by rw [(hchild u hu).2]
    -- the neighbour itself was found after the vertex
    have hseen : (∃ v ∈ seen ++ [w], final.disc v < d) ↔ ∃ v ∈ seen, state.disc v < d := by
      simp only [List.mem_append, List.mem_singleton, or_and_right, exists_or, exists_eq_left]
      have hw : ¬final.disc w < d := by
        have hle := h.grows.time_le
        have hle' := hgrows.time_le_disc w hgrows.found_node hnew
        rw [hdisc]
        change s.time ≤ state.time at hle
        omega
      rw [or_iff_left hw]
      refine exists_congr fun v => and_congr_right fun hv => ?_
      rw [hdisc, disc_eq_of_discovery hgrows.discovery (h.found_seen v hv)]
    change final.low node < d ↔
      (∃ u, parent'' u = some node ∧ final.low u < d) ∨ ∃ v ∈ seen ++ [w], final.disc v < d
    rw [hlowNode, hchildren', hseen, hiff, or_comm, ← or_assoc]
  case additional =>
    have hbefore : s''.additionalComponents node =
        if above = none then 0 else (cutChildren parent' state node).card :=
      (hgrows.additional node hnode).trans h.additional
    have hstateDisc : state.disc node = s.time := h.disc_node_eq he
    have hcut : cutChildren parent'' final node =
        if s.time ≤ s''.low w then insert w (cutChildren parent' state node)
        else cutChildren parent' state node := by
      rw [cutChildren, hchildren, Finset.filter_insert, hdiscNode', hother w hwNode, cutChildren,
        hstateDisc]
      have hfilter : (children parent' node).filter (fun u => s.time ≤ final.low u) =
          (children parent' node).filter fun u => s.time ≤ state.low u :=
        Finset.filter_congr fun u hu => by rw [(hchild u hu).2]
      rw [hfilter]
    change final.additionalComponents node = _
    rw [hadditional, hcut, hbefore]
    cases above with
    | none => simp
    | some p =>
      have hnotMem : w ∉ cutChildren parent' state node := fun hmem =>
        hwNot (Finset.mem_filter.mp hmem).1
      by_cases hle : s.time ≤ s''.low w
      · simp [hle, Finset.card_insert_of_notMem hnotMem]
      · simp [hle]

end Scan

/-! ## The end of a call -/

/-- What a call of a vertex is to do. -/
def Visits (next : V → List V) (path : Set V) (parent : V → Option V) (s : LowState V) (node : V)
    (above : Option V) (s' : LowState V) : Prop :=
  ∃ parent', LowInv next path parent' s' ∧ Grows parent s node above parent' s'

theorem Scan.step {visit : V → Option V → LowState V → LowState V} {state : LowState V} {count : ℕ}
    (he : Entry next path parent s node above)
    (h : Scan next path parent s node above seen parent' (state, count)) {w : V}
    (hw : w ∈ next node)
    (hvisit : ¬state.Found w →
      Visits next (insert node path) parent' state w (some node) (visit w (some node) state)) :
    ∃ parent'', Scan next path parent s node above (seen ++ [w]) parent''
      (neighbourStep visit node above (state, count) w) := by
  rw [neighbourStep]
  by_cases hnew : state.discovery w = none
  · obtain ⟨parent'', hinv, hgrows⟩ := hvisit (not_not_intro hnew)
    refine ⟨parent'', ?_⟩
    simp only [if_pos hnew]
    have hwNode : w ≠ node := fun heq => h.found_node he (heq ▸ hnew)
    have hdisc : ((visit w (some node) state).lower node
        ((visit w (some node) state).low w)).disc node = s.time := by
      have hdiscovery := hgrows.discovery node (h.found_node he)
      rw [LowState.disc]
      change ((visit w (some node) state).discovery node).getD 0 = s.time
      rw [hdiscovery]
      exact h.disc_node_eq he
    have hlowW : ((visit w (some node) state).lower node
        ((visit w (some node) state).low w)).low w = (visit w (some node) state).low w := by
      rw [low_lower, if_neg hwNode]
    rw [hdisc, hlowW]
    refine h.call he (not_not_intro hnew) hinv hgrows ?_ ?_ ?_ ?_
    · split_ifs <;> rfl
    · split_ifs <;> rfl
    · intro v
      rw [← low_lower]
      split_ifs <;> rfl
    · intro v
      by_cases hcut : above.isSome ∧ s.time ≤ (visit w (some node) state).low w
      · rw [if_pos hcut, additional_setAdditional]
        simp only [and_iff_left hcut]
        rfl
      · rw [if_neg hcut, if_neg fun hand => hcut hand.2]
        rfl
  · rw [if_neg hnew]
    by_cases habove : some w ≠ above
    · rw [if_pos habove]
      exact ⟨parent', h.lower he hnew⟩
    · rw [if_neg habove]
      exact ⟨parent', h.skip he hnew (not_not.mp habove).symm⟩

/-- When all neighbours have been looked at, the vertex is finished. -/
theorem Scan.finish {state : LowState V} {count : ℕ}
    (he : Entry next path parent s node above)
    (h : Scan next path parent s node above (next node) parent' (state, count)) :
    Visits next path parent s node above (closeRoot node above (state, count)) := by
  have hnodePath : node ∉ path := fun hmem => he.new (he.inv.path_found node hmem)
  have hcount : count = (children parent' node).card := h.count
  have hparentNode : parent' node = above := h.grows.parent_node
  set final := closeRoot node above (state, count) with hfinal
  have hdiscovery : final.discovery = state.discovery := by
    rw [hfinal, closeRoot]
    split_ifs <;> rfl
  have htime : final.time = state.time := by
    rw [hfinal, closeRoot]
    split_ifs <;> rfl
  have hlow : final.low = state.low := by
    rw [hfinal, closeRoot]
    split_ifs <;> rfl
  have hadditional : ∀ v, v ≠ node →
      final.additionalComponents v = state.additionalComponents v := by
    intro v hv
    rw [hfinal, closeRoot]
    split_ifs
    · rw [additional_setAdditional, if_neg hv]
    · rfl
  have hadditionalNode : final.additionalComponents node =
      if above = none then (children parent' node).card - 1
      else (cutChildren parent' final node).card := by
    have hcut : cutChildren parent' final node = cutChildren parent' state node := by
      rw [cutChildren, cutChildren, hlow, LowState.disc, hdiscovery, LowState.disc]
    have hbefore : state.additionalComponents node =
        if above = none then 0 else (cutChildren parent' state node).card := h.additional
    rw [hcut, hfinal, closeRoot, ← hcount]
    by_cases habove : above = none
    · rw [if_pos habove] at hbefore
      rw [if_pos habove]
      split_ifs with hmany
      · rw [additional_setAdditional, if_pos rfl]
      · rw [hbefore]
        have hfew : ¬1 < count := fun hlt => hmany ⟨habove, hlt⟩
        omega
    · rw [if_neg habove] at hbefore
      rw [if_neg fun hand => habove hand.1, if_neg habove, hbefore]
  have hinv : LowInv next (insert node path) parent' final :=
    h.inv.update hdiscovery htime (fun v _ => congrFun hlow v)
      fun v hv => hadditional v fun heq => hv (Or.inl heq)
  have hfound : ∀ v, final.Found v ↔ state.Found v := fun v => by
    rw [LowState.Found, hdiscovery, LowState.Found]
  have hdisc : ∀ v, final.disc v = state.disc v := fun v => by
    rw [LowState.disc, hdiscovery, LowState.disc]
  refine ⟨parent', ?_, ?_⟩
  · constructor
    case found_parent => exact hinv.found_parent
    case adj_parent => exact hinv.adj_parent
    case disc_lt => exact hinv.disc_lt
    case disc_lt_time => exact hinv.disc_lt_time
    case comparable => exact hinv.comparable
    case closed =>
      intro v hv hpath w hw
      by_cases heq : v = node
      · exact (hfound w).mpr (h.found_seen w (heq ▸ hw))
      · exact hinv.closed v hv (fun hmem => hmem.elim heq hpath) w hw
    case path_found => exact fun v hv => hinv.path_found v (Or.inr hv)
    case path_up =>
      intro v hv p hp
      rw [h.grows.parent v (he.inv.path_found v hv)] at hp
      exact he.inv.path_up v hv p hp
    case additional_zero => exact hinv.additional_zero
    case low_lt_iff =>
      intro v p hv hpath hp d hd
      by_cases heq : v = node
      · subst heq
        rw [hparentNode] at hp
        have hpPath := (he.above_some p hp).1
        have hdiscP : state.disc p = s.disc p :=
          disc_eq_of_discovery h.grows.discovery (he.inv.path_found p hpPath)
        have hd' : d ≤ s.disc p := by rw [← hdiscP, ← hdisc]; exact hd
        have hle : s.disc p ≤ s.time :=
          (he.inv.disc_lt_time p (he.inv.path_found p hpPath)).le
        have hiff := h.low_lt_iff p hp d hd'
        rw [hlow]
        refine hiff.trans ⟨?_, ?_⟩
        · rintro (⟨u, hu, hlt⟩ | ⟨w, hw, hlt⟩)
          · have hchild := (h.low_child he hu hd' hle).mp hlt
            obtain ⟨z, hz, w, hw, hlt⟩ := hchild
            exact ⟨z, (above_of_parent hu).trans hz, w, hw, (hdisc w).trans_lt hlt⟩
          · exact ⟨v, .refl, w, hw, (hdisc w).trans_lt hlt⟩
        · rintro ⟨z, hz, w, hw, hlt⟩
          rw [hdisc] at hlt
          rw [Above, Relation.ReflTransGen.cases_head_iff] at hz
          rcases hz with rfl | ⟨u, hu, hz⟩
          · exact Or.inr ⟨w, hw, hlt⟩
          · exact Or.inl ⟨u, hu, (h.low_child he hu hd' hle).mpr ⟨z, hz, w, hw, hlt⟩⟩
      · exact hinv.low_lt_iff v p hv (fun hmem => hmem.elim heq hpath) hp d hd
    case additional_eq =>
      intro v hv hpath
      by_cases heq : v = node
      · rw [heq, hadditionalNode, hparentNode]
      · exact hinv.additional_eq v hv fun hmem => hmem.elim heq hpath
  · constructor
    case discovery => exact fun v hv => (congrFun hdiscovery v).trans (h.grows.discovery v hv)
    case low => exact fun v hv => (congrFun hlow v).trans (h.grows.low v hv)
    case additional =>
      exact fun v hv => (hadditional v (he.ne_node hv)).trans (h.grows.additional v hv)
    case parent => exact h.grows.parent
    case parent_node => exact h.grows.parent_node
    case parent_new => exact h.grows.parent_new
    case found_node => exact (hfound node).mpr h.grows.found_node
    case time_le => exact h.grows.time_le.trans_eq htime.symm
    case time_le_disc =>
      intro v hv hnot
      rw [hdisc]
      exact h.grows.time_le_disc v ((hfound v).mp hv) hnot

/-! ## All calls -/

/-- How many vertices are not found. -/
def undiscovered (s : LowState V) : ℕ := (Finset.univ.filter fun v => s.discovery v = none).card

theorem undiscovered_le (h : ∀ v, s.Found v → s'.Found v) : undiscovered s' ≤ undiscovered s := by
  refine Finset.card_le_card fun v hv => ?_
  rw [Finset.mem_filter] at hv ⊢
  exact ⟨hv.1, by_contra fun hfound => h v hfound hv.2⟩

theorem undiscovered_discover_lt (hnode : ¬s.Found node) :
    undiscovered (s.discover node) < undiscovered s := by
  refine Finset.card_lt_card ((Finset.ssubset_iff_of_subset fun v hv => ?_).mpr ?_)
  · rw [Finset.mem_filter] at hv ⊢
    exact ⟨hv.1, by_contra fun hfound => (found_discover.mpr (Or.inr hfound)) hv.2⟩
  · refine ⟨node, Finset.mem_filter.mpr ⟨Finset.mem_univ _, not_not.mp hnode⟩, fun hmem => ?_⟩
    exact found_discover.mpr (Or.inl rfl) (Finset.mem_filter.mp hmem).2

theorem Scan.foldl {visit : V → Option V → LowState V → LowState V} {depth : ℕ}
    (hvisit : ∀ parent' (s' : LowState V) w, Entry next (insert node path) parent' s' w (some node) →
      undiscovered s' ≤ depth →
        Visits next (insert node path) parent' s' w (some node) (visit w (some node) s'))
    (he : Entry next path parent s node above)
    (hdepth : undiscovered (s.discover node) ≤ depth) (targets : List V)
    (htargets : ∀ w ∈ targets, w ∈ next node) :
    ∀ seen parent' acc, Scan next path parent s node above seen parent' acc →
      ∃ parent'', Scan next path parent s node above (seen ++ targets) parent''
        (targets.foldl (neighbourStep visit node above) acc) := by
  induction targets with
  | nil =>
    intro seen parent' acc h
    rw [List.append_nil]
    exact ⟨parent', h⟩
  | cons w targets ih =>
    intro seen parent' acc h
    obtain ⟨hw, htail⟩ := List.forall_mem_cons.mp htargets
    obtain ⟨state, count⟩ := acc
    have hle : undiscovered state ≤ depth := by
      refine le_trans (undiscovered_le fun v hv => ?_) hdepth
      rcases found_discover.mp hv with rfl | hv
      · exact h.found_node he
      · exact found_of_discovery h.grows.discovery hv
    have hvisits : ¬state.Found w → Visits next (insert node path) parent' state w (some node)
        (visit w (some node) state) := fun hnew =>
      hvisit parent' state w (h.entry he hnew hw) hle
    obtain ⟨parent'', hstep⟩ := h.step he hw hvisits
    rw [List.foldl_cons, ← List.singleton_append, ← List.append_assoc]
    exact ih htail (seen ++ [w]) parent'' _ hstep

/-- A call does what it is to do when there are calls enough for the vertices that are not
found. -/
theorem visits_visit (hsymm : ∀ v w, w ∈ next v → v ∈ next w) (depth : ℕ) :
    ∀ path parent (s : LowState V) node above, Entry next path parent s node above →
      undiscovered s ≤ depth →
        Visits next path parent s node above (visit next depth node above s) := by
  induction depth with
  | zero =>
    intro path parent s node above he hdepth
    have hlt := undiscovered_discover_lt he.new
    omega
  | succ depth ih =>
    intro path parent s node above he hdepth
    have hlt := undiscovered_discover_lt he.new
    obtain ⟨parent', hscan⟩ := Scan.foldl (fun parent' s' w => ih _ parent' s' w (some node)) he
      (by omega) (next node) (fun _ hw => hw) [] _ _ (he.scan hsymm)
    rw [List.nil_append] at hscan
    exact hscan.finish he

theorem lowInv_initial : LowInv next ∅ (fun _ => none) ({} : LowState V) where
  found_parent := fun _ _ h => absurd h.symm (Option.some_ne_none _)
  adj_parent := fun _ _ h => absurd h.symm (Option.some_ne_none _)
  disc_lt := fun _ _ h => absurd h.symm (Option.some_ne_none _)
  disc_lt_time := fun _ h => absurd rfl h
  comparable := fun _ _ h => absurd rfl h
  closed := fun _ h => absurd rfl h
  path_found := fun _ h => absurd h (Set.notMem_empty _)
  path_up := fun _ h => absurd h (Set.notMem_empty _)
  additional_zero := fun _ _ => rfl
  low_lt_iff := fun _ _ h => absurd rfl h
  additional_eq := fun _ h => absurd rfl h

/-- After all calls, every vertex is found. -/
theorem lowInv_visitAll (hsymm : ∀ v w, w ∈ next v → v ∈ next w) (nodes : List V) :
    ∀ parent (s : LowState V), LowInv next ∅ parent s →
      ∃ parent', LowInv next ∅ parent' (visitAll next nodes s) ∧
        (∀ v, s.Found v → (visitAll next nodes s).Found v) ∧
          ∀ v ∈ nodes, (visitAll next nodes s).Found v := by
  induction nodes with
  | nil =>
    intro parent s hinv
    exact ⟨parent, hinv, fun _ hv => hv, fun _ hv => absurd hv List.not_mem_nil⟩
  | cons node nodes ih =>
    intro parent s hinv
    rw [visitAll, List.foldl_cons, List.forall_mem_cons]
    by_cases hnode : s.discovery node = none
    · rw [if_pos hnode]
      obtain ⟨parent', hinv', hgrows⟩ := visits_visit hsymm (Fintype.card V) ∅ parent s node none
        { inv := hinv
          new := not_not_intro hnode
          above_some := fun p hp => absurd hp.symm (Option.some_ne_none p)
          above_none := fun _ => rfl } (Finset.card_le_univ _)
      obtain ⟨parent'', hinv'', hkept, hall⟩ := ih parent' _ hinv'
      exact ⟨parent'', hinv'', fun v hv => hkept v (found_of_discovery hgrows.discovery hv),
        hkept node hgrows.found_node, hall⟩
    · rw [if_neg hnode]
      obtain ⟨parent'', hinv'', hkept, hall⟩ := ih parent s hinv
      exact ⟨parent'', hinv'', hkept, hkept node hnode, hall⟩

end CodeCity
end Bitloops
