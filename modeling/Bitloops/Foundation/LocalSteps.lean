import Mathlib.Data.List.Pairwise

/-!
# Steps that keep to their own part

A step on a family of values is local when it changes only the values at its own indices, and what
it does there depends on the values there alone.  Local steps on disjoint parts, one after the
other, do what each of them does at the beginning, `runSteps_apply` and `snd_runSteps`.
-/

namespace Bitloops
namespace LocalSteps

variable {ι α β γ : Type*}

structure Local (part : β → List ι) (step : (ι → α) → β → (ι → α) × γ) : Prop where
  frame : ∀ values b i, i ∉ part b → (step values b).1 i = values i
  congr : ∀ values values' b, (∀ i ∈ part b, values i = values' i) →
    (∀ i ∈ part b, (step values b).1 i = (step values' b).1 i) ∧
      (step values b).2 = (step values' b).2

/-- The steps in their order, with what each of them returns. -/
def runSteps (step : (ι → α) → β → (ι → α) × γ) (start : (ι → α) × List γ) (items : List β) :
    (ι → α) × List γ :=
  items.foldl (fun state item => ((step state.1 item).1, state.2 ++ [(step state.1 item).2])) start

variable {part : β → List ι} {step : (ι → α) → β → (ι → α) × γ} {items : List β}

theorem runSteps_cons (start : (ι → α) × List γ) (item : β) (items : List β) :
    runSteps step start (item :: items) =
      runSteps step ((step start.1 item).1, start.2 ++ [(step start.1 item).2]) items :=
  rfl

/-- What belongs to no step stays. -/
theorem runSteps_of_notMem (h : Local part step) (start : (ι → α) × List γ) {i : ι}
    (hi : ∀ item ∈ items, i ∉ part item) : (runSteps step start items).1 i = start.1 i := by
  induction items generalizing start with
  | nil => rfl
  | cons item items ih =>
    obtain ⟨hitem, hitems⟩ := List.forall_mem_cons.mp hi
    rw [runSteps_cons, ih _ hitems]
    exact h.frame _ _ _ hitem

/-- The later steps find their own parts as they were. -/
theorem step_eq_of_disjoint (h : Local part step) {values : ι → α} {item : β}
    (hdisjoint : ∀ later ∈ items, (part item).Disjoint (part later)) :
    ∀ later ∈ items, ∀ i ∈ part later, (step values item).1 i = values i :=
  fun later hlater _ hi => h.frame _ _ _ fun hmem => hdisjoint later hlater hmem hi

/-- Each step does to its part what it does at the beginning. -/
theorem runSteps_apply (h : Local part step)
    (hdisjoint : items.Pairwise fun a b => (part a).Disjoint (part b)) (start : (ι → α) × List γ)
    {item : β} (hitem : item ∈ items) {i : ι} (hi : i ∈ part item) :
    (runSteps step start items).1 i = (step start.1 item).1 i := by
  induction items generalizing start with
  | nil => exact absurd hitem List.not_mem_nil
  | cons first items ih =>
    obtain ⟨hfirst, hdisjoint⟩ := List.pairwise_cons.mp hdisjoint
    rw [runSteps_cons]
    rcases List.mem_cons.mp hitem with rfl | hitem
    · exact runSteps_of_notMem h _ fun later hlater hmem => hfirst later hlater hi hmem
    · rw [ih hdisjoint _ hitem]
      exact (h.congr _ _ _ (step_eq_of_disjoint h hfirst item hitem)).1 i hi

theorem snd_runSteps (h : Local part step)
    (hdisjoint : items.Pairwise fun a b => (part a).Disjoint (part b))
    (start : (ι → α) × List γ) :
    (runSteps step start items).2 = start.2 ++ items.map fun item => (step start.1 item).2 := by
  induction items generalizing start with
  | nil => exact (List.append_nil _).symm
  | cons first items ih =>
    obtain ⟨hfirst, hdisjoint⟩ := List.pairwise_cons.mp hdisjoint
    have hlater : ∀ item ∈ items,
        (step (step start.1 first).1 item).2 = (step start.1 item).2 := fun item hitem =>
      (h.congr _ _ _ (step_eq_of_disjoint h hfirst item hitem)).2
    rw [runSteps_cons, ih hdisjoint, List.map_cons, List.map_congr_left hlater,
      List.append_assoc]
    rfl

end LocalSteps
end Bitloops
