import Mathlib.Algebra.BigOperators.Group.List.Basic

/-!
# Token usage

A token usage has five counters and, if subagents ran, the usage of these, which may have
subagents again.  Usages are added level by level: `level n` is what a usage counts at the depth
`n`, and `depth` is the number of its levels.  The two determine the usage.
-/

namespace Bitloops
namespace Checkpoints

structure TokenCounters where
  inputTokens : UInt64 := 0
  cacheCreationTokens : UInt64 := 0
  cacheReadTokens : UInt64 := 0
  outputTokens : UInt64 := 0
  apiCallCount : UInt64 := 0
  deriving DecidableEq, Repr

namespace TokenCounters

instance : Zero TokenCounters := ⟨{}⟩

instance : Add TokenCounters where
  add a b :=
    { inputTokens := a.inputTokens + b.inputTokens
      cacheCreationTokens := a.cacheCreationTokens + b.cacheCreationTokens
      cacheReadTokens := a.cacheReadTokens + b.cacheReadTokens
      outputTokens := a.outputTokens + b.outputTokens
      apiCallCount := a.apiCallCount + b.apiCallCount }

theorem add_def (a b : TokenCounters) : a + b =
    { inputTokens := a.inputTokens + b.inputTokens
      cacheCreationTokens := a.cacheCreationTokens + b.cacheCreationTokens
      cacheReadTokens := a.cacheReadTokens + b.cacheReadTokens
      outputTokens := a.outputTokens + b.outputTokens
      apiCallCount := a.apiCallCount + b.apiCallCount } := rfl

instance : AddCommMonoid TokenCounters where
  add_assoc a b c := by simp only [add_def, UInt64.add_assoc]
  zero_add a := by
    show ({} : TokenCounters) + a = a
    simp only [add_def, UInt64.zero_add]
  add_zero a := by
    show a + ({} : TokenCounters) = a
    simp only [add_def, UInt64.add_zero]
  add_comm a b := by simp only [add_def, UInt64.add_comm]
  nsmul := nsmulRec

end TokenCounters

/-- The counters, with or without the usage of subagents. -/
inductive TokenUsageMetadata where
  | flat (own : TokenCounters)
  | nested (own : TokenCounters) (subagentTokens : TokenUsageMetadata)
  deriving DecidableEq, Repr

namespace TokenUsageMetadata

def own : TokenUsageMetadata → TokenCounters
  | .flat own => own
  | .nested own _ => own

def subagentTokens : TokenUsageMetadata → Option TokenUsageMetadata
  | .flat _ => none
  | .nested _ subagentTokens => some subagentTokens

/-- Add the counters, and the subagents of both. -/
def add : TokenUsageMetadata → TokenUsageMetadata → TokenUsageMetadata
  | .flat a, .flat b => .flat (a + b)
  | .flat a, .nested b subagents => .nested (a + b) subagents
  | .nested a subagents, .flat b => .nested (a + b) subagents
  | .nested a subagents, .nested b subagents' => .nested (a + b) (add subagents subagents')

def depth : TokenUsageMetadata → ℕ
  | .flat _ => 1
  | .nested _ subagents => subagents.depth + 1

def level : ℕ → TokenUsageMetadata → TokenCounters
  | 0, usage => usage.own
  | _ + 1, .flat _ => 0
  | n + 1, .nested _ subagents => level n subagents

theorem depth_add (a b : TokenUsageMetadata) : (a.add b).depth = max a.depth b.depth := by
  induction a generalizing b with
  | flat own =>
    cases b with
    | flat own' => rfl
    | nested own' subagents => simp [add, depth]
  | nested own subagents ih =>
    cases b with
    | flat own' => simp [add, depth]
    | nested own' subagents' => simp [add, depth, ih]

theorem level_add (a b : TokenUsageMetadata) (n : ℕ) :
    (a.add b).level n = a.level n + b.level n := by
  induction a generalizing b n with
  | flat own =>
    cases b <;> cases n <;> simp [add, level, TokenUsageMetadata.own]
  | nested own subagents ih =>
    cases b with
    | flat own' => cases n <;> simp [add, level, TokenUsageMetadata.own]
    | nested own' subagents' =>
      cases n with
      | zero => rfl
      | succ n => exact ih subagents' n

/-- A usage is determined by its levels and their number. -/
theorem eq_of_level {a b : TokenUsageMetadata} (hdepth : a.depth = b.depth)
    (hlevel : ∀ n, a.level n = b.level n) : a = b := by
  induction a generalizing b with
  | flat own =>
    cases b with
    | flat own' => exact congrArg _ (hlevel 0)
    | nested own' subagents => cases subagents <;> simp [depth] at hdepth
  | nested own subagents ih =>
    cases b with
    | flat own' => cases subagents <;> simp [depth] at hdepth
    | nested own' subagents' =>
      have hown : own = own' := hlevel 0
      have hsubagents : subagents = subagents' :=
        ih (Nat.succ.inj hdepth) fun n => hlevel (n + 1)
      rw [hown, hsubagents]

end TokenUsageMetadata

/-! ## Aggregation -/

def aggregateTokenUsage (existing incoming : Option TokenUsageMetadata) :
    Option TokenUsageMetadata :=
  match existing, incoming with
  | none, none => none
  | some tokens, none => some tokens
  | none, some tokens => some tokens
  | some left, some right => some (left.add right)

/-- The number of levels of a usage that may be missing. -/
def usageDepth (usage : Option TokenUsageMetadata) : ℕ := (usage.map (·.depth)).getD 0

/-- What a usage that may be missing counts at a depth. -/
def usageLevel (n : ℕ) (usage : Option TokenUsageMetadata) : TokenCounters :=
  (usage.map (·.level n)).getD 0

theorem usageDepth_aggregate (a b : Option TokenUsageMetadata) :
    usageDepth (aggregateTokenUsage a b) = max (usageDepth a) (usageDepth b) := by
  cases a <;> cases b <;> simp [aggregateTokenUsage, usageDepth, TokenUsageMetadata.depth_add]

theorem usageLevel_aggregate (a b : Option TokenUsageMetadata) (n : ℕ) :
    usageLevel n (aggregateTokenUsage a b) = usageLevel n a + usageLevel n b := by
  cases a <;> cases b <;> simp [aggregateTokenUsage, usageLevel, TokenUsageMetadata.level_add]

theorem depth_pos (usage : TokenUsageMetadata) : 0 < usage.depth := by
  cases usage <;> simp [TokenUsageMetadata.depth]

/-- A usage that may be missing is determined by its levels and their number. -/
theorem eq_of_usageLevel {a b : Option TokenUsageMetadata} (hdepth : usageDepth a = usageDepth b)
    (hlevel : ∀ n, usageLevel n a = usageLevel n b) : a = b := by
  cases a with
  | none =>
    cases b with
    | none => rfl
    | some usage => exact absurd hdepth (Nat.ne_of_lt (depth_pos usage))
  | some usage =>
    cases b with
    | none => exact absurd hdepth (Nat.ne_of_gt (depth_pos usage))
    | some usage' => rw [TokenUsageMetadata.eq_of_level hdepth hlevel]

/-! ## Totals -/

/-- The total of usages that may be missing: level by level, and as deep as the deepest. -/
structure IsUsageTotal (usages : List (Option TokenUsageMetadata))
    (total : Option TokenUsageMetadata) : Prop where
  depth : usageDepth total = (usages.map usageDepth).foldr max 0
  level : ∀ n, usageLevel n total = (usages.map (usageLevel n)).sum

/-- Usages have one total. -/
theorem IsUsageTotal.unique {usages : List (Option TokenUsageMetadata)}
    {total total' : Option TokenUsageMetadata} (h : IsUsageTotal usages total)
    (h' : IsUsageTotal usages total') : total = total' :=
  eq_of_usageLevel (h.depth.trans h'.depth.symm) fun n => (h.level n).trans (h'.level n).symm

/-- The total does not depend on the order of the usages. -/
theorem IsUsageTotal.perm {usages usages' : List (Option TokenUsageMetadata)}
    {total : Option TokenUsageMetadata} (h : IsUsageTotal usages total)
    (hperm : usages.Perm usages') : IsUsageTotal usages' total where
  depth := by
    rw [h.depth]
    exact (hperm.map usageDepth).foldr_eq 0
  level n := by
    rw [h.level n]
    exact (hperm.map (usageLevel n)).sum_eq

theorem usageDepth_foldl (usages : List (Option TokenUsageMetadata))
    (start : Option TokenUsageMetadata) :
    usageDepth (usages.foldl aggregateTokenUsage start) =
      max (usageDepth start) ((usages.map usageDepth).foldr max 0) := by
  induction usages generalizing start with
  | nil => simp
  | cons usage usages ih =>
    rw [List.foldl_cons, ih, usageDepth_aggregate, List.map_cons, List.foldr_cons, Nat.max_assoc]

theorem usageLevel_foldl (usages : List (Option TokenUsageMetadata))
    (start : Option TokenUsageMetadata) (n : ℕ) :
    usageLevel n (usages.foldl aggregateTokenUsage start) =
      usageLevel n start + (usages.map (usageLevel n)).sum := by
  induction usages generalizing start with
  | nil => simp
  | cons usage usages ih =>
    rw [List.foldl_cons, ih, usageLevel_aggregate, List.map_cons, List.sum_cons, add_assoc]

/-- Aggregating usages one after the other gives their total. -/
theorem isUsageTotal_foldl (usages : List (Option TokenUsageMetadata)) :
    IsUsageTotal usages (usages.foldl aggregateTokenUsage none) where
  depth := by
    rw [usageDepth_foldl]
    exact Nat.zero_max _
  level n := by
    rw [usageLevel_foldl]
    exact zero_add _

end Checkpoints
end Bitloops
