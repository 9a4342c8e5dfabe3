import Mathlib.Data.List.Basic

/-!
# Requests, pending work and executions

Work is pending until an execution of it starts, and the executions are kept in the order in
which they started.  A request remembers how many executions had started when it was
accepted.  It is *discharged* if an execution that started later covers it, or if pending
work still does.

`Discharged.advance` is the step rule: the request stays discharged if whatever pending work
covered is covered by the new pending work or by the executions that have just started.
-/

namespace Bitloops

variable {ω ρ : Type*} {covers : ω → ρ → Prop}

/-- A request, with the number of executions started before it was accepted. -/
structure Accepted (ρ : Type*) where
  request : ρ
  startedBefore : ℕ
  deriving DecidableEq, Repr

/-- Covered by pending work, or by an execution that started after the acceptance. -/
def Discharged (covers : ω → ρ → Prop) (pending started : List ω) (accepted : Accepted ρ) : Prop :=
  (∃ e ∈ started.drop accepted.startedBefore, covers e accepted.request) ∨
    ∃ p ∈ pending, covers p accepted.request

namespace Discharged

variable {pending pending' started batch : List ω} {accepted : Accepted ρ}

instance [DecidableRel covers] : Decidable (Discharged covers pending started accepted) :=
  inferInstanceAs (Decidable (_ ∨ _))

/-- **The step rule.**  `batch` are the executions that start in the step. -/
theorem advance (h : Discharged covers pending started accepted)
    (hlen : accepted.startedBefore ≤ started.length)
    (hpending : ∀ p ∈ pending, covers p accepted.request →
      (∃ p' ∈ pending', covers p' accepted.request) ∨ ∃ e ∈ batch, covers e accepted.request) :
    Discharged covers pending' (started ++ batch) accepted := by
  unfold Discharged
  rw [List.drop_append_of_le_length hlen]
  rcases h with ⟨e, he, hcovers⟩ | ⟨p, hp, hcovers⟩
  · exact .inl ⟨e, List.mem_append_left _ he, hcovers⟩
  · rcases hpending p hp hcovers with h | ⟨e, he, hcovers'⟩
    · exact .inr h
    · exact .inl ⟨e, List.mem_append_right _ he, hcovers'⟩

/-- Only the pending work changes. -/
theorem replace (h : Discharged covers pending started accepted)
    (hpending : ∀ p ∈ pending, covers p accepted.request →
      ∃ p' ∈ pending', covers p' accepted.request) :
    Discharged covers pending' started accepted := by
  rcases h with h | ⟨p, hp, hcovers⟩
  · exact .inl h
  · exact .inr (hpending p hp hcovers)

/-- A request that has just been accepted is discharged by pending work only. -/
theorem iff_pending_of_accepted {r : ρ} :
    Discharged covers pending started ⟨r, started.length⟩ ↔ ∃ p ∈ pending, covers p r := by
  simp [Discharged]

end Discharged
end Bitloops
