import Mathlib.Order.Defs.Unbundled

/-!
# Runs of a partial step function

A system is given by a partial step function `step : σ → α → Option σ`: the
operation `a`, issued in the state `s`, is either not enabled (`none`) or leads
to exactly one state.  Every choice that the environment makes --- a clock value,
the outcome of a call, which of several tasks moves next --- is part of the
operation, so an interleaving is a list of operations.

* `exec` runs a list of operations;
* `Meets` says that each operation of a run is issued in a state satisfying a
  given condition, which is how assumptions on the environment are written;
* `exec_invariant` and `exec_invariant_of_meets` carry an invariant along a run;
* `exec_monotone` and `exec_monotone_of_meets` carry a preorder along a run;
* `forall_prefix_iff_meets` turns a condition that each operation needs, and that is enough,
  to keep a property into the condition under which a whole run keeps it;
* `EachStep` says that each step of a run satisfies a relation between the state before it, the
  operation and the state after it, and `eachStep_iff_meets` is the same for such a relation.
-/

namespace Bitloops
namespace Run

variable {σ α : Type*} {step : σ → α → Option σ} {ok : σ → α → Prop}

/-- Execute the operations in order; `none` as soon as one of them is not enabled. -/
def exec (step : σ → α → Option σ) : σ → List α → Option σ
  | s, [] => some s
  | s, a :: as => (step s a).bind fun s' => exec step s' as

/-- Every operation of the run is issued in a state that meets `ok`. -/
def Meets (step : σ → α → Option σ) (ok : σ → α → Prop) : σ → List α → Prop
  | _, [] => True
  | s, a :: as => ok s a ∧ ∀ s', step s a = some s' → Meets step ok s' as

instance Meets.decidable (step : σ → α → Option σ) (ok : σ → α → Prop)
    [∀ s a, Decidable (ok s a)] : ∀ (s : σ) (as : List α), Decidable (Meets step ok s as)
  | _, [] => isTrue trivial
  | s, a :: as =>
    match h : step s a with
    | none => decidable_of_iff (ok s a) (by simp [Meets, h])
    | some s' =>
      have := Meets.decidable step ok s' as
      decidable_of_iff (ok s a ∧ Meets step ok s' as) (by simp [Meets, h])

@[simp] theorem exec_nil (s : σ) : exec step s [] = some s := rfl

@[simp] theorem meets_nil (s : σ) : Meets step ok s [] := trivial

theorem exec_cons {s t : σ} {a : α} {as : List α} :
    exec step s (a :: as) = some t ↔ ∃ s', step s a = some s' ∧ exec step s' as = some t := by
  simp [exec, Option.bind_eq_some_iff]

theorem exec_append {s t : σ} {as bs : List α} :
    exec step s (as ++ bs) = some t ↔ ∃ m, exec step s as = some m ∧ exec step m bs = some t := by
  induction as generalizing s with
  | nil => simp
  | cons a as ih =>
    simp only [List.cons_append, exec_cons, ih]
    constructor
    · rintro ⟨s', hs, m, hm, ht⟩
      exact ⟨m, ⟨s', hs, hm⟩, ht⟩
    · rintro ⟨m, ⟨s', hs, hm⟩, ht⟩
      exact ⟨s', hs, m, hm, ht⟩

/-- A condition that a weaker one follows from may be replaced by it. -/
theorem Meets.mono {ok' : σ → α → Prop} (h : ∀ s a, ok s a → ok' s a) :
    ∀ {s : σ} {as : List α}, Meets step ok s as → Meets step ok' s as
  | _, [], _ => trivial
  | _, _ :: _, ⟨ha, hs⟩ => ⟨h _ _ ha, fun s' hs' => Meets.mono h (hs s' hs')⟩

theorem meets_of_forall (h : ∀ s a, ok s a) : ∀ (s : σ) (as : List α), Meets step ok s as
  | _, [] => trivial
  | s, a :: as => ⟨h s a, fun s' _ => meets_of_forall h s' as⟩

/-- A condition on the operations alone. -/
theorem meets_of_forall_mem {as : List α} (h : ∀ a ∈ as, ∀ s, ok s a) (s : σ) :
    Meets step ok s as := by
  induction as generalizing s with
  | nil => trivial
  | cons a as ih =>
    exact ⟨h a List.mem_cons_self s, fun s' _ => ih (fun b hb => h b (List.mem_cons_of_mem a hb)) s'⟩

theorem Meets.and {ok' : σ → α → Prop} :
    ∀ {s : σ} {as : List α}, Meets step ok s as → Meets step ok' s as →
      Meets step (fun s a => ok s a ∧ ok' s a) s as
  | _, [], _, _ => trivial
  | _, _ :: _, ⟨ha, hs⟩, ⟨ha', hs'⟩ =>
    ⟨⟨ha, ha'⟩, fun s' h => (hs s' h).and (hs' s' h)⟩

theorem meets_append {s : σ} {as bs : List α} :
    Meets step ok s (as ++ bs) ↔
      Meets step ok s as ∧ ∀ m, exec step s as = some m → Meets step ok m bs := by
  induction as generalizing s with
  | nil => simp
  | cons a as ih =>
    simp only [List.cons_append, Meets, ih, exec_cons]
    constructor
    · rintro ⟨ha, hs⟩
      refine ⟨⟨ha, fun s' h => (hs s' h).1⟩, ?_⟩
      rintro m ⟨s', h, hm⟩
      exact (hs s' h).2 m hm
    · rintro ⟨⟨ha, hs⟩, hm⟩
      exact ⟨ha, fun s' h => ⟨hs s' h, fun m hsm => hm m ⟨s', h, hsm⟩⟩⟩

/-- **Invariants along a conditioned run.**  An invariant that every operation meeting
`ok` preserves holds at the end of every run whose operations all meet `ok`. -/
theorem exec_invariant_of_meets (Inv : σ → Prop)
    (hstep : ∀ s a s', Inv s → ok s a → step s a = some s' → Inv s') :
    ∀ {s t : σ} {as : List α}, Inv s → Meets step ok s as → exec step s as = some t → Inv t := by
  intro s t as hs hm ht
  induction as generalizing s with
  | nil =>
    cases ht
    exact hs
  | cons a as ih =>
    obtain ⟨s', hs', hrest⟩ := exec_cons.mp ht
    exact ih (hstep s a s' hs hm.1 hs') (hm.2 s' hs') hrest

/-- **Invariants along a run.** -/
theorem exec_invariant (Inv : σ → Prop)
    (hstep : ∀ s a s', Inv s → step s a = some s' → Inv s')
    {s t : σ} {as : List α} (hs : Inv s) (ht : exec step s as = some t) : Inv t :=
  exec_invariant_of_meets Inv (fun s a s' h _ => hstep s a s' h) hs
    (meets_of_forall (fun _ _ => trivial) s as) ht

/-- **Preorders along a conditioned run.**  The invariant `Inv` is carried along, because
a step may respect the preorder only in the states that satisfy it. -/
theorem exec_monotone_of_meets (Inv : σ → Prop) (R : σ → σ → Prop) [Std.Refl R] [IsTrans σ R]
    (hInv : ∀ s a s', Inv s → ok s a → step s a = some s' → Inv s')
    (hR : ∀ s a s', Inv s → ok s a → step s a = some s' → R s s')
    {s t : σ} {as : List α} (hs : Inv s) (hm : Meets step ok s as)
    (ht : exec step s as = some t) : R s t := by
  induction as generalizing s with
  | nil =>
    cases ht
    exact refl_of R _
  | cons a as ih =>
    obtain ⟨s', hs', hrest⟩ := exec_cons.mp ht
    have hhead : R s s' := hR s a s' hs hm.1 hs'
    have htail : R s' t := ih (hInv s a s' hs hm.1 hs') (hm.2 s' hs') hrest
    exact trans_of R hhead htail

/-- **Preorders along a run.** -/
theorem exec_monotone (Inv : σ → Prop) (R : σ → σ → Prop) [Std.Refl R] [IsTrans σ R]
    (hInv : ∀ s a s', Inv s → step s a = some s' → Inv s')
    (hR : ∀ s a s', Inv s → step s a = some s' → R s s')
    {s t : σ} {as : List α} (hs : Inv s) (ht : exec step s as = some t) : R s t :=
  exec_monotone_of_meets Inv R (fun s a s' h _ => hInv s a s' h) (fun s a s' h _ => hR s a s' h)
    hs (meets_of_forall (fun _ _ => trivial) s as) ht

/-- **The exact condition.**  If an operation keeps the property `P` when it meets `ok`, and
breaks it when it does not, then `P` holds in every state of a run exactly when all operations
of the run meet `ok`. -/
theorem forall_prefix_iff_meets (Inv P : σ → Prop)
    (hInv : ∀ s a s', Inv s → step s a = some s' → Inv s') {s t : σ} {as : List α}
    (hkeep : ∀ a ∈ as, ∀ s s', Inv s → P s → ok s a → step s a = some s' → P s')
    (hbreak : ∀ s a s', Inv s → ¬ ok s a → step s a = some s' → ¬ P s')
    (hs : Inv s) (hP : P s) (ht : exec step s as = some t) :
    (∀ pre m, pre <+: as → exec step s pre = some m → P m) ↔ Meets step ok s as := by
  induction as generalizing s with
  | nil =>
    refine ⟨fun _ => trivial, fun _ pre m hpre hm => ?_⟩
    rw [List.prefix_nil.mp hpre] at hm
    cases hm
    exact hP
  | cons a as ih =>
    obtain ⟨s', hs', hrest⟩ := exec_cons.mp ht
    have hkeep' := fun b hb => hkeep b (List.mem_cons_of_mem a hb)
    constructor
    · intro h
      have hP' : P s' := h [a] s' ⟨as, rfl⟩ (exec_cons.mpr ⟨s', hs', rfl⟩)
      have hok : ok s a := Classical.byContradiction fun hnot => hbreak s a s' hs hnot hs' hP'
      refine ⟨hok, fun s'' hs'' => ?_⟩
      obtain rfl := Option.some.inj (hs'.symm.trans hs'')
      refine (ih hkeep' (hInv s a s' hs hs') hP' hrest).mp fun pre m hpre hm => ?_
      exact h (a :: pre) m (List.cons_prefix_cons.mpr ⟨rfl, hpre⟩) (exec_cons.mpr ⟨s', hs', hm⟩)
    · rintro ⟨hok, hmeets⟩ pre m hpre hm
      cases pre with
      | nil =>
        cases hm
        exact hP
      | cons b pre =>
        obtain ⟨rfl, hpre'⟩ := List.cons_prefix_cons.mp hpre
        obtain ⟨s'', hs'', hm⟩ := exec_cons.mp hm
        obtain rfl := Option.some.inj (hs'.symm.trans hs'')
        have hP' := hkeep b List.mem_cons_self s s' hs hP hok hs'
        exact (ih hkeep' (hInv s b s' hs hs') hP' hrest).mpr (hmeets s' hs') pre m hpre' hm

/-- Every step of the run satisfies `Q`. -/
def EachStep (step : σ → α → Option σ) (Q : σ → α → σ → Prop) : σ → List α → Prop :=
  Meets step fun s a => ∀ s' ∈ step s a, Q s a s'

instance EachStep.decidable (step : σ → α → Option σ) (Q : σ → α → σ → Prop)
    [∀ s a s', Decidable (Q s a s')] (s : σ) (as : List α) : Decidable (EachStep step Q s as) :=
  inferInstanceAs (Decidable (Meets step (fun s a => ∀ s' ∈ step s a, Q s a s') s as))

/-- **Relations along a conditioned run.**  Under an invariant that every operation meeting `ok`
preserves, the steps of a run whose operations meet `ok` satisfy what one such step satisfies. -/
theorem eachStep_of_meets (Inv : σ → Prop) {Q : σ → α → σ → Prop}
    (hInv : ∀ s a s', Inv s → ok s a → step s a = some s' → Inv s')
    (hQ : ∀ s a s', Inv s → ok s a → step s a = some s' → Q s a s') :
    ∀ {s : σ} {as : List α}, Inv s → Meets step ok s as → EachStep step Q s as
  | _, [], _, _ => trivial
  | s, a :: _, hs, ⟨ha, hrest⟩ =>
    ⟨fun s' hs' => hQ s a s' hs ha hs',
      fun s' hs' => eachStep_of_meets Inv hInv hQ (hInv s a s' hs ha hs') (hrest s' hs')⟩

/-- **The exact condition on the steps.**  If a step from a state that satisfies `P` satisfies
`Q` exactly when its operation meets `ok`, and `Q` carries `P` on, then every step of a run
satisfies `Q` exactly when all operations of the run meet `ok`. -/
theorem eachStep_iff_meets (Inv P : σ → Prop) {Q : σ → α → σ → Prop}
    (hInv : ∀ s a s', Inv s → step s a = some s' → Inv s')
    (hcarry : ∀ s a s', Q s a s' → P s')
    (hiff : ∀ s a s', Inv s → P s → step s a = some s' → (Q s a s' ↔ ok s a)) {s t : σ}
    {as : List α} (hs : Inv s) (hP : P s) (ht : exec step s as = some t) :
    EachStep step Q s as ↔ Meets step ok s as := by
  induction as generalizing s with
  | nil => exact ⟨fun _ => trivial, fun _ => trivial⟩
  | cons a as ih =>
    obtain ⟨s', hs', hrest⟩ := exec_cons.mp ht
    have hhead : (∀ s' ∈ step s a, Q s a s') ↔ ok s a := by
      rw [← hiff s a s' hs hP hs', hs']
      exact ⟨fun h => h s' rfl, fun h s'' hs'' => Option.some.inj hs'' ▸ h⟩
    rw [EachStep, Meets, Meets, hhead]
    refine and_congr_right fun hok => forall₂_congr fun s'' hs'' => ?_
    obtain rfl := Option.some.inj (hs'.symm.trans hs'')
    have hQ : Q s a s' := (hiff s a s' hs hP hs').mpr hok
    exact ih (hInv s a s' hs hs') (hcarry s a s' hQ) hrest

end Run
end Bitloops
