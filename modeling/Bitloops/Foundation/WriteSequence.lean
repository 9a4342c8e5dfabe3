import Mathlib.Data.List.Basic

/-!
# Writes that may stop anywhere

An operation that is not one transaction is a sequence of writes.  It stops at the first write
that fails, and the environment may stop it before any other: `runWrites stop` lets `stop`
writes through, or all of them.

* `runWrites_invariant`: what every write keeps is kept wherever the sequence stops;
* `runWrites_append`: a sequence of two parts stops in the first or enters the second;
* `runWrites_cons`: the first write is made unless nothing is let through;
* `runWrites_of_reached`: what a write that is reached establishes and the later ones keep;
* `runWrites_some`: a sequence that is stopped has made its first writes;
* `runWrites_within`: a sequence that stops in its first part makes no write after it;
* `runWrites_map`: writes of a part of the state are made in the whole.
-/

namespace Bitloops

variable {σ : Type*}

/-- Make the writes one after the other; the result says whether all of them were made. -/
def runWrites : Option ℕ → List (σ → Option σ) → σ → σ × Bool
  | _, [], s => (s, true)
  | some 0, _ :: _, s => (s, false)
  | stop, write :: writes, s =>
    match write s with
    | some s' => runWrites (stop.map (· - 1)) writes s'
    | none => (s, false)

variable {stop : Option ℕ} {write : σ → Option σ} {writes first second : List (σ → Option σ)}
  {s s' t : σ}

@[simp] theorem runWrites_nil : runWrites stop [] s = (s, true) := by
  cases stop with
  | none => rfl
  | some n => cases n <;> rfl

@[simp] theorem runWrites_stopped : runWrites (some 0) (write :: writes) s = (s, false) := rfl

theorem runWrites_cons (hstop : stop ≠ some 0) (hwrite : write s = some s') :
    runWrites stop (write :: writes) s = runWrites (stop.map (· - 1)) writes s' := by
  cases stop with
  | none => simp [runWrites, hwrite]
  | some n =>
    cases n with
    | zero => exact absurd rfl hstop
    | succ n => simp [runWrites, hwrite]

theorem runWrites_none_cons (hwrite : write s = some s') :
    runWrites none (write :: writes) s = runWrites none writes s' :=
  runWrites_cons (Option.some_ne_none 0).symm hwrite

theorem runWrites_failed (hwrite : write s = none) :
    runWrites stop (write :: writes) s = (s, false) := by
  cases stop with
  | none => simp [runWrites, hwrite]
  | some n => cases n <;> simp [runWrites, hwrite]

/-- **What every write keeps** is kept by the sequence, also where it stops. -/
theorem runWrites_invariant (P : σ → Prop)
    (h : ∀ write ∈ writes, ∀ s s', P s → write s = some s' → P s') (hs : P s) :
    P (runWrites stop writes s).1 := by
  induction writes generalizing stop s with
  | nil => rwa [runWrites_nil]
  | cons write writes ih =>
    by_cases hstop : stop = some 0
    · rwa [hstop, runWrites_stopped]
    · cases hwrite : write s with
      | none => rwa [runWrites_failed hwrite]
      | some s' =>
        rw [runWrites_cons hstop hwrite]
        exact ih (fun write hmem => h write (List.mem_cons_of_mem _ hmem))
          (h write List.mem_cons_self s s' hs hwrite)

/-- A sequence of two parts stops in the first, or has made it and goes on with the second. -/
theorem runWrites_append :
    runWrites stop (first ++ second) s =
      if (runWrites stop first s).2 then
        runWrites (stop.map (· - first.length)) second (runWrites stop first s).1
      else runWrites stop first s := by
  induction first generalizing stop s with
  | nil => cases stop <;> simp
  | cons write first ih =>
    rw [List.cons_append]
    by_cases hstop : stop = some 0
    · rw [hstop, runWrites_stopped, runWrites_stopped, if_neg Bool.false_ne_true]
    · cases hwrite : write s with
      | none =>
        rw [runWrites_failed hwrite, runWrites_failed hwrite, if_neg Bool.false_ne_true]
      | some s' =>
        rw [runWrites_cons hstop hwrite, runWrites_cons hstop hwrite, ih, Option.map_map]
        have hlength : ((· - first.length) ∘ (· - 1) : ℕ → ℕ) =
            (· - (write :: first).length) := by
          funext n
          simp only [Function.comp_apply, List.length_cons]
          omega
        rw [hlength]

/-- **What one write establishes** and the writes after it keep holds of every sequence that was
let through as far, when no write before it fails. -/
theorem runWrites_of_reached (first : List (σ → Option σ)) {back : List (σ → Option σ)}
    (Q : σ → Prop)
    (hfirst : ∀ write ∈ first, ∀ s, (write s).isSome)
    (hreached : ∀ n, stop = some n → first.length < n)
    (hwrite : ∀ s, ∃ s', write s = some s' ∧ Q s')
    (hback : ∀ write ∈ back, ∀ s s', Q s → write s = some s' → Q s') :
    Q (runWrites stop (first ++ write :: back) s).1 := by
  induction first generalizing stop s with
  | nil =>
    have hstop : stop ≠ some 0 := fun h => absurd (hreached 0 h) (Nat.lt_irrefl 0)
    obtain ⟨s', hs', hQ⟩ := hwrite s
    rw [List.nil_append, runWrites_cons hstop hs']
    exact runWrites_invariant Q hback hQ
  | cons head first ih =>
    have hstop : stop ≠ some 0 := fun h => absurd (hreached 0 h) (Nat.not_lt_zero _)
    obtain ⟨s', hs'⟩ := Option.isSome_iff_exists.mp (hfirst head List.mem_cons_self s)
    rw [List.cons_append, runWrites_cons hstop hs']
    refine ih (fun write hmem => hfirst write (List.mem_cons_of_mem _ hmem)) ?_
    intro n hn
    obtain ⟨m, rfl, rfl⟩ := Option.map_eq_some_iff.mp hn
    have hlength := hreached m rfl
    rw [List.length_cons] at hlength
    omega

/-- A sequence that was made to its end was let through as far. -/
theorem length_le_of_runWrites (h : (runWrites (some n) writes s).2 = true) :
    writes.length ≤ n := by
  induction writes generalizing n s with
  | nil => exact Nat.zero_le n
  | cons write writes ih =>
    cases n with
    | zero => exact absurd h Bool.false_ne_true
    | succ n =>
      cases hwrite : write s with
      | none =>
        rw [runWrites_failed hwrite] at h
        exact absurd h Bool.false_ne_true
      | some s' =>
        rw [runWrites_cons (by simp) hwrite] at h
        exact Nat.succ_le_succ (ih h)

/-- **A sequence that is stopped** has made its first writes. -/
theorem runWrites_some {n : ℕ} :
    (runWrites (some n) writes s).1 = (runWrites none (writes.take n) s).1 := by
  induction writes generalizing n s with
  | nil => rw [List.take_nil, runWrites_nil, runWrites_nil]
  | cons write writes ih =>
    cases n with
    | zero => rw [runWrites_stopped, List.take_zero, runWrites_nil]
    | succ n =>
      rw [List.take_succ_cons]
      cases hwrite : write s with
      | none => rw [runWrites_failed hwrite, runWrites_failed hwrite]
      | some s' =>
        have hstop : some (n + 1) ≠ some 0 := by simp
        rw [runWrites_cons hstop hwrite, runWrites_none_cons hwrite]
        exact ih

/-- A sequence that is let through to its end is not stopped. -/
theorem runWrites_of_length_le {n : ℕ} (h : writes.length ≤ n) :
    runWrites (some n) writes s = runWrites none writes s := by
  induction writes generalizing n s with
  | nil => rw [runWrites_nil, runWrites_nil]
  | cons write writes ih =>
    cases n with
    | zero => exact absurd h (Nat.not_succ_le_zero _)
    | succ n =>
      cases hwrite : write s with
      | none => rw [runWrites_failed hwrite, runWrites_failed hwrite]
      | some s' =>
        have hstop : some (n + 1) ≠ some 0 := by simp
        rw [runWrites_cons hstop hwrite, runWrites_none_cons hwrite]
        exact ih (Nat.le_of_succ_le_succ h)

/-- A sequence that is let through no further than its first part makes no write after it. -/
theorem runWrites_within {n : ℕ} (h : n ≤ first.length) :
    (runWrites (some n) (first ++ second) s).1 = (runWrites (some n) first s).1 := by
  rw [runWrites_append]
  split_ifs
  · have hstop : (some n).map (· - first.length) = some 0 :=
      congrArg some (Nat.sub_eq_zero_of_le h)
    rw [hstop]
    cases second with
    | nil => rfl
    | cons write second => rfl
  · rfl

/-- **Writes of a part of the state**, `put` into the whole, do there what they do in the part. -/
theorem runWrites_map {τ : Type*} {lift : (σ → Option σ) → τ → Option τ} {put : σ → τ}
    (hlift : ∀ write s, lift write (put s) = (write s).map put) :
    runWrites stop (writes.map lift) (put s) = (runWrites stop writes s).map put id := by
  induction writes generalizing stop s with
  | nil => rw [List.map_nil, runWrites_nil, runWrites_nil, Prod.map_apply, id]
  | cons write writes ih =>
    rw [List.map_cons]
    by_cases hstop : stop = some 0
    · rw [hstop, runWrites_stopped, runWrites_stopped, Prod.map_apply, id]
    · cases hwrite : write s with
      | none =>
        have hfail : lift write (put s) = none := by rw [hlift, hwrite, Option.map_none]
        rw [runWrites_failed hfail, runWrites_failed hwrite, Prod.map_apply, id]
      | some s' =>
        have hmade : lift write (put s) = some (put s') := by
          rw [hlift, hwrite, Option.map_some]
        rw [runWrites_cons hstop hmade, runWrites_cons hstop hwrite, ih]

/-- Writes that do not fail are all made, if nothing stops them. -/
theorem runWrites_of_isSome (h : ∀ write ∈ writes, ∀ s, (write s).isSome) :
    (runWrites none writes s).2 = true := by
  induction writes generalizing s with
  | nil => rfl
  | cons write writes ih =>
    obtain ⟨s', hs'⟩ := Option.isSome_iff_exists.mp (h write List.mem_cons_self s)
    rw [runWrites_cons (by simp) hs']
    exact ih fun write hmem => h write (List.mem_cons_of_mem _ hmem)

end Bitloops
