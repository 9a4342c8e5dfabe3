import Bitloops.ArchitectureRoles.Application

/-!
# The writes of a proposal

What each write leaves alone, and what the writes of a whole plan do: `runWrites_migrateAssignments`
and `runWrites_updateStatus` for the loops over assignments, and `applyProposal_eq_true` for a
call that succeeds.
-/

namespace Bitloops
namespace ArchitectureRoles

variable {Body : Type} {services : RoleServices Body} {stop : Option ℕ}
  {writes first second : List (RoleTables → Option RoleTables)} {t t' u : RoleTables}

/-! ## Sequences that succeed -/

theorem runWrites_cons_eq_true {write : RoleTables → Option RoleTables} :
    runWrites none (write :: writes) t = (u, true) ↔
      ∃ t', write t = some t' ∧ runWrites none writes t' = (u, true) := by
  cases hwrite : write t with
  | none => simp [runWrites_failed hwrite]
  | some t' => simp [runWrites_none_cons hwrite]

theorem runWrites_append_eq_true :
    runWrites none (first ++ second) t = (u, true) ↔
      ∃ t', runWrites none first t = (t', true) ∧ runWrites none second t' = (u, true) := by
  rw [runWrites_append]
  cases hfirst : runWrites none first t with
  | mk t' made =>
    cases made with
    | false => simp
    | true => simp

/-! ## What single writes leave alone -/

section Frame

variable {role : ArchitectureRoleRecord} {record : ArchitectureRoleAliasRecord}

theorem upsertRole_eq (h : upsertRole role t = some t') :
    t' = { t with roles := t'.roles } := by
  unfold upsertRole at h
  split at h
  · split at h
    · cases h
    · cases h
      rfl
  · obtain ⟨roles, -, rfl⟩ := Option.map_eq_some_iff.mp h
    rfl

theorem createRoleAlias_eq (h : createRoleAlias record t = .ok t') :
    t' = { t with aliases := t'.aliases } := by
  unfold createRoleAlias at h
  dsimp only at h
  split at h
  · split at h
    · cases h
      rfl
    · cases h
  · cases h
    rfl

theorem createRoleAliasIfFree_eq :
    createRoleAliasIfFree record t =
      { t with aliases := (createRoleAliasIfFree record t).aliases } := by
  unfold createRoleAliasIfFree
  cases h : createRoleAlias record t with
  | error e => rfl
  | ok t' => exact createRoleAlias_eq h

end Frame

/-! ## The loops over assignments -/

section Loops

variable {proposalId targetRoleId migrationKind : String}

/-- The transactions of all assignments, one after the other. -/
def migrateAll (ident : RoleIdentity) (targetRoleId migrationKind : String)
    (migrationId : ArchitectureRoleAssignment → String) (moved : List ArchitectureRoleAssignment)
    (assignments : AssignmentTable) : AssignmentTable :=
  moved.foldl
    (fun assignments a =>
      migrateCurrentAssignmentToRole ident a targetRoleId (migrationId a) migrationKind
        assignments)
    assignments

/-- The loop over the assignments moves them and records each move. -/
theorem runWrites_migrateAssignments (moved : List ArchitectureRoleAssignment) :
    runWrites none
        (moved.flatMap (migrateAssignmentToRole services proposalId targetRoleId migrationKind))
        t =
      ({ t with
          assignments :=
            migrateAll services.toRoleIdentity targetRoleId migrationKind
              (assignmentMigrationId services proposalId migrationKind) moved t.assignments
          migrations :=
            moved.foldl
              (fun migrations a =>
                migrations.upsert
                  (assignmentMigrationRecord services proposalId targetRoleId migrationKind a))
              t.migrations }, true) := by
  induction moved generalizing t with
  | nil => rfl
  | cons a rest ih => exact ih

/-- The loop over the assignments gives each the status. -/
theorem runWrites_updateStatus {status : AssignmentStatus} {reason : String}
    {migrationId : Option String} (invalidated : List ArchitectureRoleAssignment) :
    runWrites none (invalidated.map (updateStatusWrite status reason migrationId)) t =
      ({ t with
          assignments :=
            invalidated.foldl
              (fun assignments a =>
                updateCurrentAssignmentStatus a.assignmentId status reason migrationId
                  assignments)
              t.assignments }, true) := by
  induction invalidated generalizing t with
  | nil => rfl
  | cons a rest ih => exact ih

end Loops

/-! ## Calls -/

variable {proposalId : String} {s s' : RoleStore Body}
  {proposal : ArchitectureRoleProposalRecord Body} {plan : ProposalPlan}

/-- The writes of the tables, made in the store. -/
theorem runWrites_tableWrite :
    runWrites stop (writes.map tableWrite) s =
      ({ s with tables := (runWrites stop writes s.tables).1 },
        (runWrites stop writes s.tables).2) := by
  let put (tables : RoleTables) : RoleStore Body := { s with tables }
  have hput : ∀ write t, tableWrite write (put t) = (write t).map put := fun _ _ => rfl
  exact runWrites_map hput

theorem applyProposal_applied (hp : findRow (·.proposalId) proposalId s.proposals.rows =
      some proposal) (happlied : proposal.status = "applied") :
    applyProposal services stop proposalId s = (s, true) := by
  rw [applyProposal, hp]
  exact if_pos happlied

theorem applyProposal_draft (hp : findRow (·.proposalId) proposalId s.proposals.rows =
      some proposal) (hdraft : proposal.status ≠ "applied")
    (hplan : proposalPlan services proposalId proposal.request s.tables = .ok plan) :
    applyProposal services stop proposalId s =
      runWrites stop
        (plan.writes.map tableWrite ++
          [fun s' => some (markRoleProposalApplied proposalId plan.result s')]) s := by
  rw [applyProposal, hp]
  dsimp only
  rw [if_neg hdraft, hplan]

/-- **A call that succeeds** on a draft makes all writes of the plan. -/
theorem applyProposal_eq_true (hp : findRow (·.proposalId) proposalId s.proposals.rows =
      some proposal) (hdraft : proposal.status ≠ "applied") :
    applyProposal services none proposalId s = (s', true) ↔
      ∃ plan, proposalPlan services proposalId proposal.request s.tables = .ok plan ∧
        runWrites none plan.writes s.tables = (s'.tables, true) ∧
        s' = markRoleProposalApplied proposalId plan.result { s with tables := s'.tables } := by
  cases hplan : proposalPlan services proposalId proposal.request s.tables with
  | error e =>
    rw [applyProposal, hp]
    dsimp only
    rw [if_neg hdraft, hplan]
    simp
  | ok plan =>
    rw [applyProposal_draft hp hdraft hplan, runWrites_append, runWrites_tableWrite]
    cases hrun : runWrites none plan.writes s.tables with
    | mk tables made =>
      cases made with
      | false =>
        rw [if_neg Bool.false_ne_true]
        constructor
        · intro h
          cases h
        · rintro ⟨plan', hplan', hrun', -⟩
          cases hplan'
          rw [hrun] at hrun'
          cases hrun'
      | true =>
        have hmark (s : RoleStore Body) :
            runWrites none [fun s' => some (markRoleProposalApplied proposalId plan.result s')]
              s = (markRoleProposalApplied proposalId plan.result s, true) := rfl
        rw [if_pos rfl, Option.map_none, hmark]
        constructor
        · intro h
          cases h
          exact ⟨plan, rfl, hrun, rfl⟩
        · rintro ⟨plan', hplan', hrun', hs'⟩
          cases hplan'
          rw [hrun] at hrun'
          cases hrun'
          exact congrArg (·, true) hs'.symm

end ArchitectureRoles
end Bitloops
