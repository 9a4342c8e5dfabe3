import Bitloops.ArchitectureRoles.ProposalEffects
import Bitloops.ArchitectureRoles.RoleMigration

/-!
# Applying a proposal again after a failure

A call of `apply_proposal` may fail after any of its writes and is made again until it succeeds.
Each call reads the tables as the calls before it left them.  `RepeatsItself` says, for each kind
of proposal, when what is read again leads to the same rows as one call that does not fail.
-/

namespace Bitloops
namespace ArchitectureRoles

/-! ## Retries -/

/-- The tables hold the same rows. -/
structure RoleTables.Agree (t t' : RoleTables) : Prop where
  roles : t.roles.SameRows t'.roles
  aliases : t.aliases.SameRows t'.aliases
  rules : t.rules.SameRows t'.rules
  assignments : t.assignments.SameRows t'.assignments
  migrations : t.migrations.SameRows t'.migrations

theorem RoleTables.Agree.refl {t : RoleTables} : t.Agree t :=
  ⟨.refl, .refl, .refl, .refl, .refl⟩

theorem RoleTables.Agree.trans {t t' t'' : RoleTables} (h : t.Agree t') (h' : t'.Agree t'') :
    t.Agree t'' :=
  ⟨h.roles.trans h'.roles, h.aliases.trans h'.aliases, h.rules.trans h'.rules,
    h.assignments.trans h'.assignments, h.migrations.trans h'.migrations⟩

variable {Body : Type} (services : RoleServices Body) (proposalId : String)

/-- Calls that stop after the given numbers of writes. -/
def interrupted (stops : List ℕ) (s : RoleStore Body) : RoleStore Body :=
  stops.foldl (fun s stop => (applyProposal services (some stop) proposalId s).1) s

/-- Calls that fail and are made again until one succeeds leave what one successful call leaves,
and a further call changes nothing. -/
structure Retryable (s : RoleStore Body) : Prop where
  agrees : ∀ stops once t, applyProposal services none proposalId s = (once, true) →
    applyProposal services none proposalId (interrupted services proposalId stops s) = (t, true) →
      once.tables.Agree t.tables
  settled : ∀ stops t,
    applyProposal services none proposalId (interrupted services proposalId stops s) = (t, true) →
      ∀ stop, applyProposal services stop proposalId t = (t, true)

/-- Recording the alias leaves the aliases as they are. -/
def AliasSettled (record : ArchitectureRoleAliasRecord) (t : RoleTables) : Prop :=
  (createRoleAliasIfFree record t).aliases.SameRows t.aliases

/-- The migration of every active assignment of the source role is on record. -/
def MigrationsRecorded (migrationKind sourceRoleId targetRoleId : String) (t : RoleTables) :
    Prop :=
  ∀ a ∈ listActiveCurrentAssignmentsForRole t sourceRoleId,
    assignmentMigrationRecord services proposalId targetRoleId migrationKind a ∈ t.migrations.rows

/-- What a failed call leaves does not mislead the next one. -/
def RepeatsItself (request : ProposalRequest Body) (t : RoleTables) : Prop :=
  match request with
  | .renameRole roleId newDisplayName =>
    ∀ role ∈ loadRoleById t roleId,
      newDisplayName = role.displayName ∨
        (AliasSettled (proposalAlias roleId role.displayName "rename_role") t ∧
          AliasSettled (proposalAlias roleId newDisplayName "rename_role") t)
  | .deprecateRole roleId replacementRoleId =>
    ∀ targetRoleId ∈ replacementRoleId,
      MigrationsRecorded services proposalId "deprecated" roleId targetRoleId t
  | .removeRole roleId replacementRoleId =>
    ∀ targetRoleId ∈ replacementRoleId,
      MigrationsRecorded services proposalId "removed" roleId targetRoleId t
  | .mergeRoles sourceRoleId targetRoleId =>
    MigrationsRecorded services proposalId "merge_roles" sourceRoleId targetRoleId t
  | .splitRole sourceRoleId _ => listActiveCurrentAssignmentsForRole t sourceRoleId = []
  | .createRoleAlias _ _ => True
  | .draftRule _ _ => False
  | .editRule _ _ _ => False
  | .activateRule _ => True
  | .disableRule _ => True

/-! ## From calls to tables -/

/-- The plan made of the tables succeeds and leaves `u`. -/
def Completes (request : ProposalRequest Body) (t u : RoleTables) : Prop :=
  ∃ plan, proposalPlan services proposalId request t = .ok plan ∧
    runWrites none plan.writes t = (u, true)

/-- The tables after the first writes of the plan. -/
def stoppedTables (plan : ProposalPlan) (n : ℕ) (t : RoleTables) : RoleTables :=
  (runWrites none (plan.writes.take n) t).1

section Calls

variable {services proposalId} {s s' : RoleStore Body} {stop : Option ℕ} {n : ℕ}
  {proposal : ArchitectureRoleProposalRecord Body} {plan : ProposalPlan} {t u : RoleTables}

def IsApplied (proposalId : String) (s : RoleStore Body) : Prop :=
  ∃ proposal, findRow (·.proposalId) proposalId s.proposals.rows = some proposal ∧
    proposal.status = "applied"

def IsDraft (proposalId : String) (request : ProposalRequest Body) (s : RoleStore Body) : Prop :=
  ∃ proposal, findRow (·.proposalId) proposalId s.proposals.rows = some proposal ∧
    proposal.status ≠ "applied" ∧ proposal.request = request

theorem isApplied_mark {result : JsonValue} (h : findRow (·.proposalId) proposalId
    s.proposals.rows = some proposal) :
    IsApplied proposalId (markRoleProposalApplied proposalId result s) := by
  obtain ⟨-, hid⟩ := UniqueTable.findRow_eq_some.mp h
  refine ⟨{ proposal with status := "applied", resultPayload := result }, ?_, rfl⟩
  rw [markRoleProposalApplied, UniqueTable.findRow_modify, h, Option.map_some,
    if_pos (decide_eq_true hid)]

/-- A draft that a successful call applies is applied from then on. -/
theorem IsDraft.applied {request : ProposalRequest Body} (hs : IsDraft proposalId request s)
    (h : applyProposal services none proposalId s = (s', true)) :
    IsApplied proposalId s' ∧ Completes services proposalId request s.tables s'.tables := by
  obtain ⟨proposal, hp, hdraft, rfl⟩ := hs
  obtain ⟨plan, hplan, hrun, hs'⟩ := (applyProposal_eq_true hp hdraft).mp h
  refine ⟨?_, plan, hplan, hrun⟩
  rw [hs']
  exact isApplied_mark hp

theorem IsDraft.completes {request : ProposalRequest Body} (hs : IsDraft proposalId request s)
    (h : Completes services proposalId request s.tables u) :
    ∃ s', applyProposal services none proposalId s = (s', true) ∧ s'.tables = u := by
  obtain ⟨proposal, hp, hdraft, rfl⟩ := hs
  obtain ⟨plan, hplan, hrun⟩ := h
  exact ⟨markRoleProposalApplied proposalId plan.result { s with tables := u },
    (applyProposal_eq_true hp hdraft).mpr ⟨plan, hplan, hrun, rfl⟩, rfl⟩

theorem IsApplied.call (hs : IsApplied proposalId s) :
    applyProposal services stop proposalId s = (s, true) := by
  obtain ⟨proposal, hp, happlied⟩ := hs
  exact applyProposal_applied hp happlied

variable (services) in
/-- **A call that may stop** refuses the draft, leaves the tables after its first writes, or
applies the draft. -/
theorem IsDraft.call {request : ProposalRequest Body} (hs : IsDraft proposalId request s)
    (n : ℕ) :
    (applyProposal services (some n) proposalId s).1 = s ∨
      (∃ plan, proposalPlan services proposalId request s.tables = .ok plan ∧
        (applyProposal services (some n) proposalId s).1 =
          { s with tables := stoppedTables plan n s.tables }) ∨
      (IsApplied proposalId (applyProposal services (some n) proposalId s).1 ∧
        Completes services proposalId request s.tables
          (applyProposal services (some n) proposalId s).1.tables) := by
  obtain ⟨proposal, hp, hdraft, rfl⟩ := hs
  cases hplan : proposalPlan services proposalId proposal.request s.tables with
  | error e =>
    refine .inl ?_
    rw [applyProposal, hp]
    dsimp only
    rw [if_neg hdraft, hplan]
  | ok plan =>
    rw [applyProposal_draft hp hdraft hplan]
    by_cases hn : n ≤ plan.writes.length
    · refine .inr (.inl ⟨plan, rfl, ?_⟩)
      rw [runWrites_within (by rwa [List.length_map]), runWrites_tableWrite]
      exact congrArg (fun tables => ({ s with tables } : RoleStore Body)) runWrites_some
    · have hlength : (plan.writes.map tableWrite ++
          [fun s' : RoleStore Body => some (markRoleProposalApplied proposalId plan.result s')]
          ).length ≤ n := by
        simp only [List.length_append, List.length_map, List.length_singleton]
        omega
      rw [runWrites_of_length_le hlength, runWrites_append, runWrites_tableWrite]
      cases hrun : runWrites none plan.writes s.tables with
      | mk u made =>
        cases made with
        | false =>
          refine .inr (.inl ⟨plan, rfl, ?_⟩)
          have htake : plan.writes.take n = plan.writes :=
            List.take_of_length_le (Nat.le_of_not_le hn)
          rw [if_neg Bool.false_ne_true, stoppedTables, htake, hrun]
        | true =>
          refine .inr (.inr ?_)
          rw [if_pos rfl]
          exact ⟨isApplied_mark (s := { s with tables := u }) hp, plan, hplan, hrun⟩

end Calls

/-! ## What carries over a failed call -/

section Carrying

variable {services proposalId} {request : ProposalRequest Body}

/-- A failed call leaves tables from which a successful call leads to the same rows. -/
def Resumes (services : RoleServices Body) (proposalId : String) (request : ProposalRequest Body)
    (t : RoleTables) : Prop :=
  ∀ plan u n, proposalPlan services proposalId request t = .ok plan →
    runWrites none plan.writes t = (u, true) →
      (stoppedTables plan n t).WellFormed services.toRoleIdentity ∧
        RepeatsItself services proposalId request (stoppedTables plan n t) ∧
        ∃ u', Completes services proposalId request (stoppedTables plan n t) u' ∧ u.Agree u'

/-- Where a proposal stands after failed calls, when one successful call leaves `u`. -/
def Underway (services : RoleServices Body) (proposalId : String)
    (request : ProposalRequest Body) (u : RoleTables) (s : RoleStore Body) : Prop :=
  (IsDraft proposalId request s ∧ s.tables.WellFormed services.toRoleIdentity ∧
      RepeatsItself services proposalId request s.tables ∧
      ∃ u', Completes services proposalId request s.tables u' ∧ u.Agree u') ∨
    (IsApplied proposalId s ∧ u.Agree s.tables)

theorem completes_unique {t u u' : RoleTables} (h : Completes services proposalId request t u)
    (h' : Completes services proposalId request t u') : u = u' := by
  obtain ⟨plan, hplan, hrun⟩ := h
  obtain ⟨plan', hplan', hrun'⟩ := h'
  cases hplan.symm.trans hplan'
  exact congrArg Prod.fst (hrun.symm.trans hrun')

/-- **The step lemma**: a call that stops anywhere keeps the proposal underway. -/
theorem Underway.call {u : RoleTables} {s : RoleStore Body}
    (hresumes : ∀ t : RoleTables, t.WellFormed services.toRoleIdentity →
      RepeatsItself services proposalId request t → Resumes services proposalId request t)
    (h : Underway services proposalId request u s) (n : ℕ) :
    Underway services proposalId request u (applyProposal services (some n) proposalId s).1 := by
  rcases h with ⟨hdraft, hwell, hrepeats, u', hu', hagree⟩ | ⟨happlied, hagree⟩
  · rcases hdraft.call services n with hcall | ⟨plan, hplan, hcall⟩ | ⟨happlied, hu⟩
    · rw [hcall]
      exact .inl ⟨hdraft, hwell, hrepeats, u', hu', hagree⟩
    · obtain ⟨plan', hplan', hrun⟩ := hu'
      cases hplan.symm.trans hplan'
      obtain ⟨hwell', hrepeats', u'', hu'', hagree'⟩ :=
        hresumes s.tables hwell hrepeats plan u' n hplan hrun
      rw [hcall]
      exact .inl ⟨hdraft, hwell', hrepeats', u'', hu'', hagree.trans hagree'⟩
    · exact .inr ⟨happlied, completes_unique hu' hu ▸ hagree⟩
  · rw [happlied.call]
    exact .inr ⟨happlied, hagree⟩

/-- **The run lemma**: after any failed calls, a successful call leaves the rows of one. -/
theorem Underway.interrupted {u : RoleTables} {s : RoleStore Body}
    (hresumes : ∀ t : RoleTables, t.WellFormed services.toRoleIdentity →
      RepeatsItself services proposalId request t → Resumes services proposalId request t)
    (h : Underway services proposalId request u s) (stops : List ℕ) :
    Underway services proposalId request u (interrupted services proposalId stops s) := by
  induction stops generalizing s with
  | nil => exact h
  | cons n stops ih => exact ih (h.call hresumes n)

/-- After failed calls the proposal is a draft, or applied. -/
theorem isDraft_or_isApplied_interrupted (services : RoleServices Body) {s : RoleStore Body}
    (hs : IsDraft proposalId request s ∨ IsApplied proposalId s) (stops : List ℕ) :
    IsDraft proposalId request (interrupted services proposalId stops s) ∨
      IsApplied proposalId (interrupted services proposalId stops s) := by
  induction stops generalizing s with
  | nil => exact hs
  | cons n stops ih =>
    refine ih ?_
    show IsDraft proposalId request (applyProposal services (some n) proposalId s).1 ∨
      IsApplied proposalId (applyProposal services (some n) proposalId s).1
    rcases hs with hs | hs
    · rcases hs.call services n with hcall | ⟨plan, -, hcall⟩ | ⟨happlied, -⟩
      · rw [hcall]
        exact .inl hs
      · rw [hcall]
        exact .inl hs
      · exact .inr happlied
    · rw [hs.call]
      exact .inr hs

/-- A proposal that a call applied is not applied again. -/
theorem settled_of_isDraft {s t : RoleStore Body} (hs : IsDraft proposalId request s)
    (stops : List ℕ) (ht : applyProposal services none proposalId
      (interrupted services proposalId stops s) = (t, true)) (stop : Option ℕ) :
    applyProposal services stop proposalId t = (t, true) := by
  rcases isDraft_or_isApplied_interrupted services (.inl hs) stops with h | h
  · exact (h.applied ht).1.call
  · rw [h.call] at ht
    cases ht
    exact h.call

theorem retryable_of_repeatsItself {s : RoleStore Body}
    (hresumes : ∀ t : RoleTables, t.WellFormed services.toRoleIdentity →
      RepeatsItself services proposalId request t → Resumes services proposalId request t)
    (hs : IsDraft proposalId request s) (hwell : s.tables.WellFormed services.toRoleIdentity)
    (hrepeats : RepeatsItself services proposalId request s.tables) :
    Retryable services proposalId s := by
  refine ⟨fun stops once t honce ht => ?_, fun stops t => settled_of_isDraft hs stops⟩
  have hunderway : Underway services proposalId request once.tables s :=
    .inl ⟨hs, hwell, hrepeats, once.tables, (hs.applied honce).2, .refl⟩
  rcases hunderway.interrupted hresumes stops with
    ⟨hdraft, -, -, u, hu, hagree⟩ | ⟨happlied, hagree⟩
  · exact completes_unique hu (hdraft.applied ht).2 ▸ hagree
  · rw [happlied.call] at ht
    cases ht
    exact hagree

/-- A call that fails after some of its writes leaves tables from which a successful call leads to
other rows. -/
def Misleads (services : RoleServices Body) (proposalId : String)
    (request : ProposalRequest Body) (t : RoleTables) : Prop :=
  ∀ plan u, proposalPlan services proposalId request t = .ok plan →
    runWrites none plan.writes t = (u, true) →
      ∃ n ≤ plan.writes.length, ∃ u',
        Completes services proposalId request (stoppedTables plan n t) u' ∧ ¬ u.Agree u'

/-- One failed call that misleads the next one is enough. -/
theorem not_retryable_of_misleads {s once : RoleStore Body} (hs : IsDraft proposalId request s)
    (hmisleads : Misleads services proposalId request s.tables)
    (honce : applyProposal services none proposalId s = (once, true)) :
    ¬ Retryable services proposalId s := by
  intro h
  obtain ⟨plan, hplan, hrun⟩ := (hs.applied honce).2
  obtain ⟨n, hn, u', hu', hdiffer⟩ := hmisleads plan once.tables hplan hrun
  have hstopped : interrupted services proposalId [n] s =
      { s with tables := stoppedTables plan n s.tables } := by
    obtain ⟨proposal, hp, hdraft, rfl⟩ := hs
    show (applyProposal services (some n) proposalId s).1 = _
    rw [applyProposal_draft hp hdraft hplan, runWrites_within (by rwa [List.length_map]),
      runWrites_tableWrite]
    exact congrArg (fun tables => ({ s with tables } : RoleStore Body)) runWrites_some
  have hdraft : IsDraft proposalId request
      ({ s with tables := stoppedTables plan n s.tables } : RoleStore Body) := hs
  obtain ⟨t, ht, rfl⟩ := hdraft.completes hu'
  exact hdiffer (h.agrees [n] once t honce (hstopped ▸ ht))

end Carrying

end ArchitectureRoles
end Bitloops
