import Mathlib.Data.List.Chain
import Bitloops.Foundation.Run

/-!
# What a run shows on its way

An operation of a system may pass through several states that can be observed, of which the one
after it is the last.  `runTrace` lists what a run shows, and `pairwise_runTrace_iff_meets` turns
the condition under which each operation keeps a preorder into the condition under which no two
states of a whole run break it.
-/

namespace Bitloops
namespace Run

variable {σ α τ : Type*}

/-- The last entry of a trace that starts at `t`. -/
def lastShown (t : τ) : List τ → τ
  | [] => t
  | t' :: shown => lastShown t' shown

/-- What the operations show, one after the other. -/
def runTrace (step : σ → α → σ) (shown : σ → α → List τ) : σ → List α → List τ
  | _, [] => []
  | s, a :: as => shown s a ++ runTrace step shown (step s a) as

variable {R : τ → τ → Prop} {t : τ} {l l' : List τ}

theorem isChain_cons_append_iff : (t :: (l ++ l')).IsChain R ↔
    (t :: l).IsChain R ∧ (lastShown t l :: l').IsChain R := by
  induction l generalizing t with
  | nil => exact ⟨fun h => ⟨List.isChain_singleton t, h⟩, fun h => h.2⟩
  | cons t' l ih =>
    rw [List.cons_append, List.isChain_cons_cons, List.isChain_cons_cons, ih, and_assoc]
    rfl

/-- A relation that refines a preorder along a trace may be checked step by step. -/
theorem pairwise_cons_of_isChain [IsTrans τ R] (h : (t :: l).IsChain R) :
    (t :: l).Pairwise R := by
  have : Trans R R R := ⟨fun h h' => trans_of R h h'⟩
  exact List.isChain_iff_pairwise.mp h

variable {step : σ → α → σ} {shown : σ → α → List τ} {observe : σ → τ} {ok : σ → α → Prop}

/-- **No two states of a run break a preorder** exactly when all its operations meet the
condition under which an operation keeps it. -/
theorem pairwise_runTrace_iff_meets [IsTrans τ R]
    (hlast : ∀ s a, lastShown (observe s) (shown s a) = observe (step s a))
    (hiff : ∀ s a, (observe s :: shown s a).IsChain R ↔ ok s a) (s : σ) (as : List α) :
    (observe s :: runTrace step shown s as).Pairwise R ↔
      Meets (fun s a => some (step s a)) ok s as := by
  have hchain : (observe s :: runTrace step shown s as).IsChain R ↔
      Meets (fun s a => some (step s a)) ok s as := by
    induction as generalizing s with
    | nil => exact ⟨fun _ => trivial, fun _ => List.isChain_singleton _⟩
    | cons a as ih =>
      rw [runTrace, isChain_cons_append_iff, hlast, hiff, Meets]
      refine and_congr_right fun _ => (ih (step s a)).trans ⟨?_, fun h => h _ rfl⟩
      rintro h s' hs'
      obtain rfl := Option.some.inj hs'
      exact h
  exact ⟨fun h => hchain.mp h.isChain, fun h => pairwise_cons_of_isChain (hchain.mpr h)⟩

end Run
end Bitloops
