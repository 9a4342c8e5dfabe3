import Mathlib.Data.List.Basic
import Mathlib.Order.Defs.Unbundled

/-!
# A replica behind a queue

A store applies each change to its own tables at once and appends it to a queue; the queue is
delivered to a replica later, oldest change first.  The replica may refuse a change, and a change
leaves the queue only after the replica has taken it, so that a change whose deletion fails is
delivered again.

* `replay` is the replica once it has taken the whole queue, and `drain` delivers as much of the
  queue as the environment lets through: `replay_drain` says that it does not alter where the
  replica is going;
* `Along` says that every change of the queue, taken in its turn, respects a relation;
* `replay_related` and `along_related` follow two replicas through one queue.
-/

namespace Bitloops
namespace WriteBehind

variable {μ ρ : Type*} {effect : μ → ρ → ρ} {apply : μ → ρ → Option ρ} {queue : List μ} {m : μ}
  {r r' : ρ}

/-- The replica after the whole queue. -/
def replay (effect : μ → ρ → ρ) : List μ → ρ → ρ
  | [], r => r
  | m :: queue, r => replay effect queue (effect m r)

/-- What the environment makes of one delivery. -/
inductive Delivery where
  | done
  | failed
  | unacknowledged
  deriving DecidableEq, Repr

/-- Deliver the queued changes, oldest first, until one is refused, fails, is taken without being
deleted, or the deliveries end. -/
def drain (apply : μ → ρ → Option ρ) : List Delivery → List μ → ρ → List μ × ρ
  | .done :: deliveries, m :: queue, r =>
    match apply m r with
    | some r' => drain apply deliveries queue r'
    | none => (m :: queue, r)
  | .unacknowledged :: _, m :: queue, r => (m :: queue, (apply m r).getD r)
  | _, queue, r => (queue, r)

/-- Each queued change, taken in its turn, leads to a related replica. -/
def Along (effect : μ → ρ → ρ) (R : ρ → ρ → Prop) : List μ → ρ → Prop
  | [], _ => True
  | m :: queue, r => R r (effect m r) ∧ Along effect R queue (effect m r)

/-- A change that the replica takes has its effect, and has it only once. -/
structure Faithful (apply : μ → ρ → Option ρ) (effect : μ → ρ → ρ) : Prop where
  eq_effect : ∀ {m r r'}, apply m r = some r' → r' = effect m r
  idempotent : ∀ m r, effect m (effect m r) = effect m r

@[simp] theorem replay_nil : replay effect [] r = r := rfl

theorem replay_append : replay effect (queue ++ [m]) r = effect m (replay effect queue r) := by
  induction queue generalizing r with
  | nil => rfl
  | cons head queue ih => exact ih

theorem Along.append {R : ρ → ρ → Prop} (h : Along effect R queue r)
    (hm : R (replay effect queue r) (effect m (replay effect queue r))) :
    Along effect R (queue ++ [m]) r := by
  induction queue generalizing r with
  | nil => exact ⟨hm, trivial⟩
  | cons head queue ih => exact ⟨h.1, ih h.2 hm⟩

/-! ## Draining the queue -/

/-- What is left in the queue was in it. -/
theorem mem_drain {deliveries : List Delivery} (h : m ∈ (drain apply deliveries queue r).1) :
    m ∈ queue := by
  induction deliveries generalizing queue r with
  | nil => exact h
  | cons delivery deliveries ih =>
    cases queue with
    | nil => cases delivery <;> exact h
    | cons head queue =>
      cases delivery with
      | failed => exact h
      | unacknowledged => exact h
      | done =>
        simp only [drain] at h
        cases happly : apply head r with
        | none =>
          rw [happly] at h
          exact h
        | some r' =>
          rw [happly] at h
          exact List.mem_cons_of_mem _ (ih h)

/-- What every queued change keeps is kept by the deliveries. -/
theorem drain_invariant (P : ρ → Prop) {deliveries : List Delivery}
    (h : ∀ m ∈ queue, ∀ r r', P r → apply m r = some r' → P r') (hr : P r) :
    P (drain apply deliveries queue r).2 := by
  induction deliveries generalizing queue r with
  | nil => exact hr
  | cons delivery deliveries ih =>
    cases queue with
    | nil => cases delivery <;> exact hr
    | cons head queue =>
      have hhead := h head List.mem_cons_self
      cases delivery with
      | failed => exact hr
      | unacknowledged =>
        show P ((apply head r).getD r)
        cases happly : apply head r with
        | none => exact hr
        | some r' => exact hhead r r' hr happly
      | done =>
        simp only [drain]
        cases happly : apply head r with
        | none => exact hr
        | some r' =>
          exact ih (fun m hm => h m (List.mem_cons_of_mem _ hm)) (hhead r r' hr happly)

/-- **Where a drained replica is going**, wherever the delivery stops. -/
theorem replay_drain (hfaithful : Faithful apply effect) (deliveries : List Delivery) :
    replay effect (drain apply deliveries queue r).1 (drain apply deliveries queue r).2 =
      replay effect queue r := by
  induction deliveries generalizing queue r with
  | nil => rfl
  | cons delivery deliveries ih =>
    cases queue with
    | nil => cases delivery <;> rfl
    | cons m queue =>
      cases happly : apply m r with
      | none => cases delivery <;> simp only [drain, happly, Option.getD_none]
      | some r' =>
        obtain rfl := hfaithful.eq_effect happly
        cases delivery with
        | failed => rfl
        | unacknowledged =>
          simp only [drain, happly, Option.getD_some, replay]
          rw [hfaithful.idempotent]
        | done =>
          simp only [drain, happly, replay]
          exact ih

theorem Along.drain {R : ρ → ρ → Prop} [Std.Refl R] (hfaithful : Faithful apply effect)
    (deliveries : List Delivery) (h : Along effect R queue r) :
    Along effect R (drain apply deliveries queue r).1 (drain apply deliveries queue r).2 := by
  induction deliveries generalizing queue r with
  | nil => exact h
  | cons delivery deliveries ih =>
    cases queue with
    | nil => cases delivery <;> exact h
    | cons m queue =>
      cases happly : apply m r with
      | none => cases delivery <;> simpa only [WriteBehind.drain, happly, Option.getD_none] using h
      | some r' =>
        obtain rfl := hfaithful.eq_effect happly
        cases delivery with
        | failed => exact h
        | unacknowledged =>
          simp only [WriteBehind.drain, happly, Option.getD_some]
          refine ⟨?_, ?_⟩
          · rw [hfaithful.idempotent]
            exact refl_of R _
          · rw [hfaithful.idempotent]
            exact h.2
        | done =>
          simp only [WriteBehind.drain, happly]
          exact ih h.2

/-- Draining leads to a replica that is related to the one before it. -/
theorem Along.related_drain {R : ρ → ρ → Prop} [Std.Refl R] [IsTrans ρ R]
    (hfaithful : Faithful apply effect) (deliveries : List Delivery)
    (h : Along effect R queue r) : R r (WriteBehind.drain apply deliveries queue r).2 := by
  induction deliveries generalizing queue r with
  | nil => exact refl_of R r
  | cons delivery deliveries ih =>
    cases queue with
    | nil => cases delivery <;> exact refl_of R r
    | cons m queue =>
      cases happly : apply m r with
      | none =>
        cases delivery <;> simpa only [WriteBehind.drain, happly, Option.getD_none] using refl_of R r
      | some r' =>
        obtain rfl := hfaithful.eq_effect happly
        cases delivery with
        | failed => exact refl_of R r
        | unacknowledged =>
          simp only [WriteBehind.drain, happly, Option.getD_some]
          exact h.1
        | done =>
          simp only [WriteBehind.drain, happly]
          exact trans_of R h.1 (ih h.2)

/-! ## Two replicas and one queue -/

section Related

variable {Sim : ρ → ρ → Prop} {a b : ρ}

/-- Related replicas stay related through a queue whose changes respect the relation. -/
theorem replay_related
    (hsim : ∀ m ∈ queue, ∀ a b, Sim a b → Sim (effect m a) (effect m b)) (hab : Sim a b) :
    Sim (replay effect queue a) (replay effect queue b) := by
  induction queue generalizing a b with
  | nil => exact hab
  | cons m queue ih =>
    exact ih (fun m hm => hsim m (List.mem_cons_of_mem _ hm)) (hsim m List.mem_cons_self a b hab)

theorem along_related {R : ρ → ρ → Prop}
    (hsim : ∀ m ∈ queue, ∀ a b, Sim a b → Sim (effect m a) (effect m b))
    (hR : ∀ a b a' b', Sim a b → Sim a' b' → R b b' → R a a')
    (hab : Sim a b) (hb : Along effect R queue b) : Along effect R queue a := by
  induction queue generalizing a b with
  | nil => trivial
  | cons m queue ih =>
    have hnext := hsim m List.mem_cons_self a b hab
    exact ⟨hR a b _ _ hab hnext hb.1,
      ih (fun m hm => hsim m (List.mem_cons_of_mem _ hm)) hnext hb.2⟩

/-- What no queued change alters is the same after the whole queue. -/
theorem replay_unchanged {β : Type*} {f : ρ → β}
    (hf : ∀ m ∈ queue, ∀ r, f (effect m r) = f r) : f (replay effect queue r) = f r := by
  induction queue generalizing r with
  | nil => rfl
  | cons m queue ih =>
    rw [replay, ih fun m hm => hf m (List.mem_cons_of_mem _ hm), hf m List.mem_cons_self r]

end Related

end WriteBehind
end Bitloops
