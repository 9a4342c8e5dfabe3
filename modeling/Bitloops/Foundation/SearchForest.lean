import Mathlib.Combinatorics.SimpleGraph.Connectivity.Connected
import Mathlib.SetTheory.Cardinal.Finite
import Mathlib.Data.Set.Card

/-!
# Search forests

A depth-first search leaves a forest in the graph whose edges only join vertices that stand above
each other.  From such a forest the components of the graph can be counted, and those that are left
when a vertex is deleted.

* `card_components`: there is one component for each root.
* `card_components_deleted`: when a vertex is deleted, there is one component for each other root
  and one for each child from whose vertices no edge leads past the vertex.
-/

namespace Bitloops
namespace SearchForest

variable {V : Type*}

/-! ## Counting components -/

/-- A map that is constant along edges and stays in the component has one fixed point in each. -/
theorem card_connectedComponent {G : SimpleGraph V} {f : V → V}
    (hadj : ∀ v w, G.Adj v w → f v = f w) (hreach : ∀ v, G.Reachable v (f v)) :
    Nat.card G.ConnectedComponent = Nat.card { v // f v = v } := by
  have hconst : ∀ v w, G.Reachable v w → f v = f w := by
    intro v w h
    rw [SimpleGraph.reachable_iff_reflTransGen] at h
    induction h with
    | refl => rfl
    | tail _ hedge ih => exact ih.trans (hadj _ _ hedge)
  refine (Nat.card_congr (Equiv.ofBijective
    (fun v : { v // f v = v } => G.connectedComponentMk v) ⟨?_, ?_⟩)).symm
  · rintro ⟨v, hv⟩ ⟨w, hw⟩ h
    have heq := hconst v w (SimpleGraph.ConnectedComponent.exact h)
    rw [hv, hw] at heq
    exact Subtype.ext heq
  · intro component
    induction component using SimpleGraph.ConnectedComponent.ind with
    | h v =>
      exact ⟨⟨f v, (hconst v (f v) (hreach v)).symm⟩,
        SimpleGraph.ConnectedComponent.sound (hreach v).symm⟩

/-! ## The forest -/

/-- The first vertex is the second one, or a parent of it, or a parent of that, and so on. -/
def Above (parent : V → Option V) : V → V → Prop :=
  Relation.ReflTransGen fun p v => parent v = some p

/-- A forest in the graph; the ranks are the numbers of the vertices in the order in which they are
found. -/
structure IsForest (G : SimpleGraph V) (parent : V → Option V) (rank : V → ℕ) : Prop where
  adj : ∀ {v p}, parent v = some p → G.Adj p v
  rank_lt : ∀ {v p}, parent v = some p → rank p < rank v
  comparable : ∀ {v w}, G.Adj v w → Above parent v w ∨ Above parent w v

variable {G : SimpleGraph V} {parent : V → Option V} {rank : V → ℕ} {v w x y : V}

theorem Above.trans (h : Above parent x y) (h' : Above parent y v) : Above parent x v :=
  Relation.ReflTransGen.trans h h'

theorem above_of_parent {p : V} (h : parent v = some p) : Above parent p v := .single h

theorem Above.comparable (h : Above parent x v) (h' : Above parent y v) :
    Above parent x y ∨ Above parent y x := by
  have hunique : Relator.RightUnique fun v p => parent v = some p :=
    fun _ _ _ h h' => Option.some.inj (h.symm.trans h')
  have htotal := Relation.ReflTransGen.total_of_right_unique hunique
    (Relation.reflTransGen_swap.mpr h) (Relation.reflTransGen_swap.mpr h')
  exact htotal.symm.imp Relation.reflTransGen_swap.mp Relation.reflTransGen_swap.mp

/-- A vertex above another one is the vertex itself or above its parent. -/
theorem above_iff : Above parent x v ↔ x = v ∨ ∃ p, parent v = some p ∧ Above parent x p := by
  rw [Above, Relation.ReflTransGen.cases_tail_iff]
  simp only [eq_comm, and_comm]

theorem Above.of_parent_eq_some {p : V} (h : Above parent x v) (hne : x ≠ v)
    (hp : parent v = some p) : Above parent x p := by
  rcases above_iff.mp h with heq | ⟨q, hq, habove⟩
  · exact absurd heq hne
  · rwa [Option.some.inj (hp.symm.trans hq)]

namespace IsForest

variable (hf : IsForest G parent rank)

include hf

theorem rank_le (h : Above parent x v) : rank x ≤ rank v := by
  induction h with
  | refl => exact Nat.le_refl _
  | tail _ hparent ih => exact ih.trans (hf.rank_lt hparent).le

theorem rank_lt_of_ne (h : Above parent x v) (hne : x ≠ v) : rank x < rank v := by
  rcases above_iff.mp h with heq | ⟨p, hp, habove⟩
  · exact absurd heq hne
  · exact (hf.rank_le habove).trans_lt (hf.rank_lt hp)

theorem eq_of_above (h : Above parent x v) (h' : Above parent v x) : x = v := by
  by_contra hne
  exact absurd (hf.rank_lt_of_ne h hne) (Nat.not_lt.mpr (hf.rank_le h'))

theorem exists_root (v : V) : ∃ r, parent r = none ∧ Above parent r v := by
  induction hrank : rank v using Nat.strong_induction_on generalizing v with
  | _ n ih =>
    cases hparent : parent v with
    | none => exact ⟨v, hparent, .refl⟩
    | some p =>
      obtain ⟨r, hr, habove⟩ := ih (rank p) (hrank ▸ hf.rank_lt hparent) p rfl
      exact ⟨r, hr, habove.tail hparent⟩

/-- The root above a vertex. -/
noncomputable def root (v : V) : V := (hf.exists_root v).choose

theorem parent_root (v : V) : parent (hf.root v) = none := (hf.exists_root v).choose_spec.1

theorem root_above (v : V) : Above parent (hf.root v) v := (hf.exists_root v).choose_spec.2

theorem eq_of_parent_eq_none (hx : parent x = none) (h : Above parent v x) : v = x := by
  rcases above_iff.mp h with heq | ⟨p, hp, -⟩
  · exact heq
  · exact absurd (hx.symm.trans hp) (Option.some_ne_none p).symm

/-- Vertices that stand above each other have the same root. -/
theorem root_eq_of_above (h : Above parent x v) : hf.root x = hf.root v := by
  rcases (Above.trans (hf.root_above x) h).comparable (hf.root_above v) with habove | habove
  · exact hf.eq_of_parent_eq_none (hf.parent_root v) habove
  · exact (hf.eq_of_parent_eq_none (hf.parent_root x) habove).symm

theorem root_eq_self_iff : hf.root v = v ↔ parent v = none := by
  constructor
  · intro h
    rw [← h]
    exact hf.parent_root v
  · exact fun h => hf.eq_of_parent_eq_none h (hf.root_above v)

/-! ### Deleting no vertex -/

theorem reachable_of_above (h : Above parent x v) : G.Reachable x v := by
  induction h with
  | refl => exact SimpleGraph.Reachable.rfl
  | tail _ hparent ih => exact ih.trans (hf.adj hparent).reachable

/-- There is one component for each root. -/
theorem card_components :
    Nat.card G.ConnectedComponent = { v | parent v = none }.ncard := by
  rw [card_connectedComponent (f := hf.root)]
  · simp only [hf.root_eq_self_iff]
    rfl
  · intro v w hedge
    rcases hf.comparable hedge with habove | habove
    · exact hf.root_eq_of_above habove
    · exact (hf.root_eq_of_above habove).symm
  · exact fun v => (hf.reachable_of_above (hf.root_above v)).symm

end IsForest

/-! ### Deleting a vertex -/

/-- A child of the vertex, from which and from below which no edge leads past the vertex. -/
def CutChild (G : SimpleGraph V) (parent : V → Option V) (rank : V → ℕ) (v u : V) : Prop :=
  parent u = some v ∧ ∀ x, Above parent u x → ∀ y, G.Adj x y → rank v ≤ rank y

namespace IsForest

variable (hf : IsForest G parent rank)

include hf

theorem child_unique {u u' : V} (hu : parent u = some v) (hu' : parent u' = some v)
    (h : Above parent u x) (h' : Above parent u' x) : u = u' := by
  have hnot : ∀ {u u' : V}, parent u = some v → parent u' = some v → Above parent u u' →
      u = u' := by
    intro u u' hu hu' habove
    by_contra hne
    exact absurd (hf.rank_le (habove.of_parent_eq_some hne hu'))
      (Nat.not_le.mpr (hf.rank_lt hu))
  rcases h.comparable h' with habove | habove
  · exact hnot hu hu' habove
  · exact (hnot hu' hu habove).symm

open Classical in
/-- The vertex that stands for the component when `v` is deleted. -/
noncomputable def label (v x : V) : V :=
  if h : ∃ u, CutChild G parent rank v u ∧ Above parent u x then h.choose else hf.root x

theorem label_of_cutChild {u : V} (hu : CutChild G parent rank v u) (h : Above parent u x) :
    hf.label v x = u := by
  have hex : ∃ u, CutChild G parent rank v u ∧ Above parent u x := ⟨u, hu, h⟩
  rw [label, dif_pos hex]
  exact hf.child_unique hex.choose_spec.1.1 hu.1 hex.choose_spec.2 h

theorem label_of_not (h : ¬∃ u, CutChild G parent rank v u ∧ Above parent u x) :
    hf.label v x = hf.root x := by
  rw [label, dif_neg h]

/-- The child of `v` on the way down to a vertex. -/
theorem exists_child (h : Above parent v x) (hne : v ≠ x) :
    ∃ u, parent u = some v ∧ Above parent u x := by
  rw [Above, Relation.ReflTransGen.cases_head_iff] at h
  exact h.resolve_left hne

/-- An edge that leads past a vertex leads to a vertex above it. -/
theorem above_of_rank_lt (hx : Above parent v x) (hedge : G.Adj x y) (hlt : rank y < rank v) :
    Above parent y v := by
  have hyx : Above parent y x := by
    rcases hf.comparable hedge with habove | habove
    · exact absurd (hf.rank_le (hx.trans habove)) (Nat.not_le.mpr hlt)
    · exact habove
  rcases hyx.comparable hx with habove | habove
  · exact habove
  · exact absurd (hf.rank_le habove) (Nat.not_le.mpr hlt)

theorem label_eq_of_above (hx : x ≠ v) (hedge : G.Adj x y) (h : Above parent x y) :
    hf.label v x = hf.label v y := by
  by_cases hcut : ∃ u, CutChild G parent rank v u ∧ Above parent u x
  · obtain ⟨u, hu, habove⟩ := hcut
    rw [hf.label_of_cutChild hu habove, hf.label_of_cutChild hu (habove.trans h)]
  · have hcut' : ¬∃ u, CutChild G parent rank v u ∧ Above parent u y := by
      rintro ⟨u, hu, habove⟩
      -- the first vertex would stand above `v`, where no edge leads
      rcases h.comparable habove with habove' | habove'
      · by_cases heq : x = u
        · exact hcut ⟨u, hu, heq ▸ .refl⟩
        · have hlt := hf.rank_lt_of_ne (habove'.of_parent_eq_some heq hu.1) hx
          exact absurd (hu.2 y habove x hedge.symm) (Nat.not_le.mpr hlt)
      · exact hcut ⟨u, hu, habove'⟩
    rw [hf.label_of_not hcut, hf.label_of_not hcut', hf.root_eq_of_above h]

theorem label_eq_of_adj (hx : x ≠ v) (hy : y ≠ v) (hedge : G.Adj x y) :
    hf.label v x = hf.label v y := by
  rcases hf.comparable hedge with habove | habove
  · exact hf.label_eq_of_above hx hedge habove
  · exact (hf.label_eq_of_above hy hedge.symm habove).symm

/-- Going down without meeting `v`. -/
theorem reachable_below (h : Above parent x y) (hx : x ≠ v) (hy : y ≠ v)
    (hnot : ∀ z, Above parent x z → Above parent z y → z ≠ v) :
    (G.induce {v}ᶜ).Reachable ⟨x, hx⟩ ⟨y, hy⟩ := by
  induction h with
  | refl => exact SimpleGraph.Reachable.rfl
  | @tail z y hz hparent ih =>
    have hzv : z ≠ v := hnot z hz (above_of_parent hparent)
    refine (ih hzv fun w hw hwz => hnot w hw (hwz.trans (above_of_parent hparent))).trans ?_
    have hedge : (G.induce {v}ᶜ).Adj ⟨z, hzv⟩ ⟨y, hy⟩ := hf.adj hparent
    exact hedge.reachable

theorem reachable_below_child {u : V} (hu : parent u = some v) (h : Above parent u x)
    (hux : u ≠ v) (hx : x ≠ v) : (G.induce {v}ᶜ).Reachable ⟨u, hux⟩ ⟨x, hx⟩ := by
  refine hf.reachable_below h hux hx fun z hz _ heq => ?_
  rw [heq] at hz
  exact absurd (hf.rank_le hz) (Nat.not_le.mpr (hf.rank_lt hu))

theorem reachable_root (h : ¬Above parent v x) (hroot : hf.root x ≠ v) (hx : x ≠ v) :
    (G.induce {v}ᶜ).Reachable ⟨hf.root x, hroot⟩ ⟨x, hx⟩ :=
  hf.reachable_below (hf.root_above x) hroot hx fun _ _ hz heq => h (heq ▸ hz)

/-- A vertex is joined to its label without `v`. -/
theorem reachable_label (hx : x ≠ v) :
    ∃ hlabel : hf.label v x ≠ v, (G.induce {v}ᶜ).Reachable ⟨x, hx⟩ ⟨hf.label v x, hlabel⟩ := by
  have hchild : ∀ {u}, parent u = some v → u ≠ v := fun hu heq => by
    have hlt := hf.rank_lt hu
    rw [heq] at hlt
    exact Nat.lt_irrefl _ hlt
  by_cases hcut : ∃ u, CutChild G parent rank v u ∧ Above parent u x
  · obtain ⟨u, hu, habove⟩ := hcut
    simp only [hf.label_of_cutChild hu habove]
    exact ⟨hchild hu.1, (hf.reachable_below_child hu.1 habove (hchild hu.1) hx).symm⟩
  · simp only [hf.label_of_not hcut]
    by_cases habove : Above parent v x
    · obtain ⟨u, hu, hux⟩ := hf.exists_child habove hx.symm
      -- an edge leads past `v`, and from there the root is reached
      obtain ⟨z, hz, y, hedge, hlt⟩ : ∃ z, Above parent u z ∧ ∃ y, G.Adj z y ∧ rank y < rank v := by
        by_contra hnone
        push Not at hnone
        exact hcut ⟨u, ⟨hu, hnone⟩, hux⟩
      have hyv := hf.above_of_rank_lt ((above_of_parent hu).trans hz) hedge hlt
      have hyne : y ≠ v := fun heq => by
        rw [heq] at hlt
        exact Nat.lt_irrefl _ hlt
      have hzne : z ≠ v := fun heq => by
        rw [heq] at hz
        exact absurd (hf.rank_le hz) (Nat.not_le.mpr (hf.rank_lt hu))
      have hnotAbove : ¬Above parent v y := fun h => hyne (hf.eq_of_above hyv h)
      have hrootEq : hf.root x = hf.root y :=
        (hf.root_eq_of_above (hyv.trans habove)).symm
      have hrootne : hf.root y ≠ v := fun heq => hyne (by
        have hparent := hf.parent_root y
        rw [heq] at hparent
        exact hf.eq_of_parent_eq_none hparent hyv)
      simp only [hrootEq]
      refine ⟨hrootne, ?_⟩
      have hadj : (G.induce {v}ᶜ).Adj ⟨z, hzne⟩ ⟨y, hyne⟩ := hedge
      exact ((hf.reachable_below_child hu hux (hchild hu) hx).symm.trans
        (hf.reachable_below_child hu hz (hchild hu) hzne)).trans
          (hadj.reachable.trans (hf.reachable_root hnotAbove hrootne hyne).symm)
    · have hrootne : hf.root x ≠ v := fun heq => habove (heq ▸ hf.root_above x)
      exact ⟨hrootne, (hf.reachable_root habove hrootne hx).symm⟩

theorem label_eq_self_iff (hx : x ≠ v) :
    hf.label v x = x ↔ CutChild G parent rank v x ∨ parent x = none := by
  constructor
  · intro h
    by_cases hcut : ∃ u, CutChild G parent rank v u ∧ Above parent u x
    · obtain ⟨u, hu, habove⟩ := hcut
      rw [hf.label_of_cutChild hu habove] at h
      exact Or.inl (h ▸ hu)
    · rw [hf.label_of_not hcut] at h
      exact Or.inr (hf.root_eq_self_iff.mp h)
  · rintro (hu | hnone)
    · exact hf.label_of_cutChild hu .refl
    · rw [hf.label_of_not, hf.root_eq_self_iff.mpr hnone]
      rintro ⟨u, hu, habove⟩
      obtain rfl := hf.eq_of_parent_eq_none hnone habove
      exact Option.some_ne_none v (hu.1.symm.trans hnone)

/-- When a vertex is deleted, there is one component for each other root and one for each child
that is cut off. -/
theorem card_components_deleted [Finite V] (v : V) :
    Nat.card (G.induce {v}ᶜ).ConnectedComponent =
      { u | CutChild G parent rank v u }.ncard + { u | u ≠ v ∧ parent u = none }.ncard := by
  let f : ({v}ᶜ : Set V) → ({v}ᶜ : Set V) := fun x =>
    ⟨hf.label v x, (hf.reachable_label x.2).choose⟩
  have hchild : ∀ {u}, CutChild G parent rank v u → u ≠ v := fun hu heq => by
    have hlt := hf.rank_lt hu.1
    rw [heq] at hlt
    exact Nat.lt_irrefl _ hlt
  rw [card_connectedComponent (f := f) (fun x y hedge =>
    Subtype.ext (hf.label_eq_of_adj x.2 y.2 hedge)) fun x =>
      (hf.reachable_label x.2).choose_spec]
  have hdisjoint : Disjoint { u | CutChild G parent rank v u } { u | u ≠ v ∧ parent u = none } := by
    rw [Set.disjoint_left]
    exact fun u hu hu' => Option.some_ne_none v (hu.1.symm.trans hu'.2)
  rw [← Set.ncard_union_eq hdisjoint]
  refine Nat.card_congr ⟨fun x => ⟨x.1, ?_⟩, fun x => ⟨⟨x.1, ?_⟩, ?_⟩, ?_, ?_⟩
  · have hfixed := (hf.label_eq_self_iff x.1.2).mp (congrArg Subtype.val x.2)
    exact hfixed.imp_right fun hnone => ⟨x.1.2, hnone⟩
  · exact x.2.elim hchild fun h => h.1
  · refine Subtype.ext ((hf.label_eq_self_iff ?_).mpr ?_)
    · exact x.2.elim hchild fun h => h.1
    · exact x.2.imp_right fun h => h.2
  · exact fun x => rfl
  · exact fun x => rfl

end IsForest

end SearchForest
end Bitloops
