import Bitloops.ArchitectureRoles.ProposalRetry

/-!
# Which proposals may be applied again

Renames read back the name that they wrote, migrations no longer list an assignment that they
moved before its record was written, splits count again, and drafts take the next version again.
The other proposals repeat what they did.
-/

namespace Bitloops
namespace ArchitectureRoles

variable {Body : Type} {services : RoleServices Body} {proposalId : String}
  {t u : RoleTables} {plan : ProposalPlan} {n : ℕ}

/-! ## Roles that are put again -/

/-- The tables with the role put. -/
def withRole (role : ArchitectureRoleRecord) (t : RoleTables) : RoleTables :=
  { t with roles := t.roles.upsert role.toRow }

section Roles

variable {role changed : ArchitectureRoleRecord} {roleId : String}

theorem loadRoleById_withRole (role : ArchitectureRoleRecord) (t : RoleTables) :
    loadRoleById (withRole role t) role.roleId = some role.toRow := by
  rw [loadRoleById, withRole, UniqueTable.findRow_upsert, toRow_roleId, if_pos rfl]

theorem loadRoleById_withRole_of_ne (h : roleId ≠ role.roleId) :
    loadRoleById (withRole role t) roleId = loadRoleById t roleId := by
  rw [loadRoleById, withRole, UniqueTable.findRow_upsert, toRow_roleId, if_neg h]
  rfl

/-- Putting the role again, as it was read back, changes nothing. -/
theorem withRole_again {t' : RoleTables} (h : t'.roles = (withRole role t).roles) :
    withRole role.toRow t' = t' := by
  have hroles : t'.roles.upsert role.toRow.toRow = t'.roles := by
    rw [h, withRole, toRow_toRow, UniqueTable.upsert_upsert]
  exact RoleTables.ext hroles rfl rfl rfl rfl

end Roles

/-! ## Assignments that are given a status -/

section Statuses

variable {status : AssignmentStatus} {reason : String} {migrationId : Option String}
  {roleId : String} {selected : ArchitectureRoleAssignment → Bool}

/-- The assignments after the loop over the listed ones. -/
def giveStatus (status : AssignmentStatus) (reason : String) (migrationId : Option String)
    (listed : List ArchitectureRoleAssignment) (assignments : AssignmentTable) :
    AssignmentTable :=
  assignments.modify (fun a => a.assignmentId ∈ listed.map (·.assignmentId))
    (fun a => a.withStatus status reason migrationId) withStatus_assignmentId

theorem mem_giveStatus {listed : List ArchitectureRoleAssignment} {assignments : AssignmentTable}
    {b : ArchitectureRoleAssignment} :
    b ∈ (giveStatus status reason migrationId listed assignments).rows ↔
      (b ∈ assignments.rows ∧ b.assignmentId ∉ listed.map (·.assignmentId)) ∨
        ∃ a ∈ assignments.rows, a.assignmentId ∈ listed.map (·.assignmentId) ∧
          b = a.withStatus status reason migrationId := by
  rw [giveStatus, UniqueTable.mem_modify]
  simp only [decide_eq_true_eq, decide_eq_false_iff_not]

def withStatuses (status : AssignmentStatus) (reason : String) (migrationId : Option String)
    (listed : List ArchitectureRoleAssignment) (t : RoleTables) : RoleTables :=
  { t with assignments := giveStatus status reason migrationId listed t.assignments }

theorem runWrites_withStatuses {listed : List ArchitectureRoleAssignment}
    (hnodup : (listed.map (·.assignmentId)).Nodup) :
    runWrites none (listed.map (updateStatusWrite status reason migrationId)) t =
      (withStatuses status reason migrationId listed t, true) := by
  rw [runWrites_updateStatus, foldl_updateStatus hnodup, withStatuses, giveStatus]

/-- The assignments that a loop goes over. -/
def selectedActive (selected : ArchitectureRoleAssignment → Bool) (roleId : String)
    (t : RoleTables) : List ArchitectureRoleAssignment :=
  (listActiveCurrentAssignmentsForRole t roleId).filter selected

theorem nodup_selectedActive :
    ((selectedActive selected roleId t).map (·.assignmentId)).Nodup :=
  nodup_listActive.sublist (List.filter_sublist.map _)

/-- A row is listed when its identifier is. -/
theorem mem_ids_selectedActive {a : ArchitectureRoleAssignment} (ha : a ∈ t.assignments.rows) :
    a.assignmentId ∈ (selectedActive selected roleId t).map (·.assignmentId) ↔
      a.roleId = roleId ∧ a.status = .active ∧ selected a = true := by
  rw [List.mem_map]
  constructor
  · rintro ⟨b, hb, hid⟩
    obtain ⟨hb, hselected⟩ := List.mem_filter.mp hb
    obtain ⟨hbt, hrole, hactive⟩ := mem_listActive.mp hb
    obtain rfl := UniqueTable.eq_of_key_eq hbt ha hid
    exact ⟨hrole, hactive, hselected⟩
  · rintro ⟨hrole, hactive, hselected⟩
    exact ⟨a, List.mem_filter.mpr ⟨mem_listActive.mpr ⟨ha, hrole, hactive⟩, hselected⟩, rfl⟩

variable (reason migrationId roleId selected t) in
/-- **The loop made again** after a part of it: the assignments that have the status are not
listed any more, and the others are given it. -/
theorem withStatuses_again (hstatus : status ≠ .active) (n : ℕ) :
    withStatuses status reason migrationId
        (selectedActive selected roleId
          (withStatuses status reason migrationId ((selectedActive selected roleId t).take n) t))
        (withStatuses status reason migrationId ((selectedActive selected roleId t).take n) t) =
      withStatuses status reason migrationId (selectedActive selected roleId t) t := by
  let part := withStatuses status reason migrationId ((selectedActive selected roleId t).take n) t
  have htables : giveStatus status reason migrationId (selectedActive selected roleId part)
      (giveStatus status reason migrationId ((selectedActive selected roleId t).take n)
        t.assignments) =
      giveStatus status reason migrationId (selectedActive selected roleId t) t.assignments := by
    unfold giveStatus
    refine UniqueTable.modify_modify_eq fun a ha => ?_
    by_cases htaken :
        a.assignmentId ∈ ((selectedActive selected roleId t).take n).map (·.assignmentId)
    · have hlisted : a.assignmentId ∈ (selectedActive selected roleId t).map (·.assignmentId) :=
        List.map_subset _ (List.take_subset _ _) htaken
      have hgiven : a.withStatus status reason migrationId ∈ part.assignments.rows :=
        mem_giveStatus.mpr (.inr ⟨a, ha, htaken, rfl⟩)
      have hdone : (a.withStatus status reason migrationId).assignmentId ∉
          (selectedActive selected roleId part).map (·.assignmentId) :=
        fun h => hstatus ((mem_ids_selectedActive hgiven).mp h).2.1
      simp only [decide_eq_true htaken, decide_eq_true hlisted, decide_eq_false hdone, if_true,
        Bool.false_eq_true, if_false]
    · have hkept : a ∈ part.assignments.rows :=
        mem_giveStatus.mpr (.inl ⟨ha, htaken⟩)
      have hsame : a.assignmentId ∈ (selectedActive selected roleId part).map (·.assignmentId) ↔
          a.assignmentId ∈ (selectedActive selected roleId t).map (·.assignmentId) := by
        rw [mem_ids_selectedActive hkept, mem_ids_selectedActive ha]
      simp only [decide_eq_false htaken, Bool.false_eq_true, if_false, hsame]
  exact congrArg (fun assignments => { t with assignments }) htables

theorem wellFormed_withStatuses {listed : List ArchitectureRoleAssignment} {ident : RoleIdentity}
    (ht : t.WellFormed ident) :
    (withStatuses status reason migrationId listed t).WellFormed ident := by
  refine ⟨ht.normalized, ht.roleIds, fun a ha => ?_⟩
  rcases mem_giveStatus.mp ha with ⟨ha, -⟩ | ⟨b, hb, -, rfl⟩
  · exact ht.assignmentIds a ha
  · exact ht.assignmentIds b hb

theorem listActive_withRole {role : ArchitectureRoleRecord} :
    listActiveCurrentAssignmentsForRole (withRole role t) roleId =
      listActiveCurrentAssignmentsForRole t roleId := rfl

theorem selectedActive_true :
    selectedActive (fun _ => true) roleId t = listActiveCurrentAssignmentsForRole t roleId :=
  List.filter_eq_self.mpr fun _ _ => rfl

/-- A write of another table and the loop over the assignments, stopped after `n` writes. -/
theorem stoppedTables_loop {write : RoleTables → Option RoleTables} {t₁ : RoleTables}
    {listed : List ArchitectureRoleAssignment}
    (hwrites : plan.writes =
      write :: listed.map (updateStatusWrite status reason migrationId))
    (hwrite : write t = some t₁) (hnodup : (listed.map (·.assignmentId)).Nodup) (n : ℕ) :
    stoppedTables plan (n + 1) t = withStatuses status reason migrationId (listed.take n) t₁ := by
  have htake : ((listed.take n).map (·.assignmentId)).Nodup :=
    hnodup.sublist ((List.take_sublist _ _).map _)
  rw [stoppedTables, hwrites, List.take_succ_cons, runWrites_none_cons hwrite, ← List.map_take,
    runWrites_withStatuses htake]

end Statuses

/-! ## Deprecations and removals without a replacement -/

section Lifecycle

variable {lifecycleStatus : String} {invalidatedStatus : AssignmentStatus} {roleId : String}
  {role : ArchitectureRoleRecord}

/-- The role with its new status. -/
def withLifecycle (lifecycleStatus : String) (role : ArchitectureRoleRecord) :
    ArchitectureRoleRecord :=
  { role with lifecycleStatus }

@[simp] theorem withLifecycle_roleId :
    (withLifecycle lifecycleStatus role).roleId = role.roleId := rfl

theorem identified_withLifecycle (ht : t.WellFormed services.toRoleIdentity)
    (hrole : loadRoleById t roleId = some role) :
    (withLifecycle lifecycleStatus role).Identified services.toRoleIdentity :=
  (identified_of_loadRoleById ht hrole).2

theorem withLifecycle_toRow :
    withLifecycle lifecycleStatus (withLifecycle lifecycleStatus role).toRow =
      (withLifecycle lifecycleStatus role).toRow := by
  rw [withLifecycle, withLifecycle, ArchitectureRoleRecord.toRow]

/-- The tables after the whole plan. -/
def lifecycleResult (lifecycleStatus : String) (invalidatedStatus : AssignmentStatus)
    (role : ArchitectureRoleRecord) (t : RoleTables) : RoleTables :=
  withStatuses invalidatedStatus ("proposal applied: " ++ lifecycleStatus) none
    (listActiveCurrentAssignmentsForRole t role.roleId)
    (withRole (withLifecycle lifecycleStatus role) t)

theorem lifecycle_plan
    (hplan : applyLifecycleRoleProposal services proposalId t roleId none lifecycleStatus
      invalidatedStatus = .ok plan) :
    ∃ role, loadRoleById t roleId = some role ∧
      plan.writes =
        upsertRole (withLifecycle lifecycleStatus role) ::
          (listActiveCurrentAssignmentsForRole t role.roleId).map
            (updateStatusWrite invalidatedStatus ("proposal applied: " ++ lifecycleStatus)
              none) := by
  unfold applyLifecycleRoleProposal loadReplacementRole at hplan
  cases hrole : loadRoleById t roleId with
  | none => simp [hrole] at hplan
  | some role =>
    simp only [hrole, Except.ok.injEq] at hplan
    exact ⟨role, rfl, hplan ▸ rfl⟩

theorem lifecycle_completes (proposalId lifecycleStatus : String)
    (invalidatedStatus : AssignmentStatus)
    (huuid : Function.Injective services.deterministicUuid)
    (ht : t.WellFormed services.toRoleIdentity) (hrole : loadRoleById t roleId = some role) :
    ∃ plan, applyLifecycleRoleProposal services proposalId t roleId none lifecycleStatus
        invalidatedStatus = .ok plan ∧
      runWrites none plan.writes t =
        (lifecycleResult lifecycleStatus invalidatedStatus role t, true) := by
  have hidentified : (withLifecycle lifecycleStatus role).Identified services.toRoleIdentity :=
    identified_withLifecycle ht hrole
  unfold applyLifecycleRoleProposal loadReplacementRole
  rw [hrole]
  refine ⟨_, rfl, ?_⟩
  dsimp only
  rw [← withLifecycle, runWrites_none_cons (upsertRole_eq_upsert ht huuid hidentified),
    runWrites_withStatuses nodup_listActive]
  rfl

/-- The plan made again after a part of it leaves the same tables. -/
theorem lifecycleResult_again (hstatus : invalidatedStatus ≠ .active) (n : ℕ) :
    lifecycleResult lifecycleStatus invalidatedStatus
        (withLifecycle lifecycleStatus role).toRow
        (withStatuses invalidatedStatus ("proposal applied: " ++ lifecycleStatus) none
          ((listActiveCurrentAssignmentsForRole t role.roleId).take n)
          (withRole (withLifecycle lifecycleStatus role) t)) =
      lifecycleResult lifecycleStatus invalidatedStatus role t := by
  have hagain := withStatuses_again (withRole (withLifecycle lifecycleStatus role) t)
    ("proposal applied: " ++ lifecycleStatus) none role.roleId (fun _ => true) hstatus n
  rw [selectedActive_true, selectedActive_true, listActive_withRole] at hagain
  have hput : withRole (withLifecycle lifecycleStatus role).toRow
      (withStatuses invalidatedStatus ("proposal applied: " ++ lifecycleStatus) none
        ((listActiveCurrentAssignmentsForRole t role.roleId).take n)
        (withRole (withLifecycle lifecycleStatus role) t)) = _ := withRole_again (t := t) rfl
  rw [lifecycleResult, lifecycleResult, withLifecycle_toRow, toRow_roleId, withLifecycle_roleId,
    hput]
  exact hagain

/-- **A stopped deprecation or removal** is completed by the next call. -/
theorem lifecycle_again (huuid : Function.Injective services.deterministicUuid)
    (hstatus : invalidatedStatus ≠ .active) (ht : t.WellFormed services.toRoleIdentity)
    (hplan : applyLifecycleRoleProposal services proposalId t roleId none lifecycleStatus
      invalidatedStatus = .ok plan)
    (hrun : runWrites none plan.writes t = (u, true)) (n : ℕ) :
    (stoppedTables plan n t).WellFormed services.toRoleIdentity ∧
      ∃ plan', applyLifecycleRoleProposal services proposalId (stoppedTables plan n t) roleId none
          lifecycleStatus invalidatedStatus = .ok plan' ∧
        runWrites none plan'.writes (stoppedTables plan n t) = (u, true) := by
  cases n with
  | zero => exact ⟨ht, plan, hplan, hrun⟩
  | succ n =>
    obtain ⟨role, hrole, hwrites⟩ := lifecycle_plan hplan
    have hidentified : (withLifecycle lifecycleStatus role).Identified services.toRoleIdentity :=
      identified_withLifecycle ht hrole
    obtain ⟨plan', hplan', hrun'⟩ :=
      lifecycle_completes proposalId lifecycleStatus invalidatedStatus huuid ht hrole
    cases hplan.symm.trans hplan'
    cases hrun.symm.trans hrun'
    rw [stoppedTables_loop hwrites (upsertRole_eq_upsert ht huuid hidentified) nodup_listActive]
    obtain rfl : role.roleId = roleId := (loadRoleById_eq_some hrole).2
    have hwell : (withStatuses invalidatedStatus ("proposal applied: " ++ lifecycleStatus) none
        ((listActiveCurrentAssignmentsForRole t role.roleId).take n)
        (withRole (withLifecycle lifecycleStatus role) t)).WellFormed services.toRoleIdentity :=
      wellFormed_withStatuses (wellFormed_upsert_role ht hidentified)
    obtain ⟨plan', hplan', hrun'⟩ :=
      lifecycle_completes proposalId lifecycleStatus invalidatedStatus huuid hwell
        (loadRoleById_withRole (withLifecycle lifecycleStatus role) t)
    rw [lifecycleResult_again hstatus] at hrun'
    exact ⟨hwell, plan', hplan', hrun'⟩

end Lifecycle

/-! ## Rules that change their lifecycle -/

section RuleLifecycle

variable {ruleId lifecycleStatus : String} {rule : ArchitectureRoleRuleRecord}

theorem loadRoleRuleById_update (lifecycleStatus : String)
    (h : loadRoleRuleById t ruleId = some rule) :
    loadRoleRuleById (updateRoleRuleLifecycle ruleId lifecycleStatus t) ruleId =
      some { rule with lifecycleStatus } := by
  obtain ⟨-, hid⟩ := mem_of_findRow h
  have hkey : ∀ rule : ArchitectureRoleRuleRecord,
      (if decide (rule.ruleId = ruleId) then { rule with lifecycleStatus } else rule).ruleId =
        rule.ruleId := by
    intro rule
    split_ifs
    · rfl
    · rfl
  rw [loadRoleRuleById] at h ⊢
  rw [updateRoleRuleLifecycle, UniqueTable.modify, findRow_map hkey, h, Option.map_some,
    if_pos (decide_eq_true hid)]

theorem updateRoleRuleLifecycle_again :
    updateRoleRuleLifecycle ruleId lifecycleStatus
        (updateRoleRuleLifecycle ruleId lifecycleStatus t) =
      updateRoleRuleLifecycle ruleId lifecycleStatus t := by
  let key (rule : ArchitectureRoleRuleRecord) : String × ℕ := (rule.ruleId, rule.version)
  have hkey : ∀ rule : ArchitectureRoleRuleRecord, key { rule with lifecycleStatus } = key rule :=
    fun _ => rfl
  let changed (rules : UniqueTable ArchitectureRoleRuleRecord key) :=
    rules.modify (fun rule => rule.ruleId = ruleId) (fun rule => { rule with lifecycleStatus })
      hkey
  have hagain : changed (changed t.rules) = changed t.rules :=
    UniqueTable.modify_modify (fun _ h => h) fun _ => rfl
  exact RoleTables.ext rfl rfl hagain rfl rfl

/-- The tables after the whole plan. -/
def ruleLifecycleResult (ruleId lifecycleStatus roleId : String) (t : RoleTables) : RoleTables :=
  withStatuses .needsReview ("rule lifecycle changed to " ++ lifecycleStatus) none
    (selectedActive (fun a => assignmentReferencesRule a ruleId) roleId t)
    (updateRoleRuleLifecycle ruleId lifecycleStatus t)

theorem ruleLifecycle_plan
    (hplan : applyRuleLifecycleProposal t ruleId lifecycleStatus = .ok plan) :
    ∃ rule, loadRoleRuleById t ruleId = some rule ∧
      plan.writes =
        (fun t' => some (updateRoleRuleLifecycle ruleId lifecycleStatus t')) ::
          (selectedActive (fun a => assignmentReferencesRule a ruleId) rule.roleId t).map
            (updateStatusWrite .needsReview ("rule lifecycle changed to " ++ lifecycleStatus)
              none) := by
  unfold applyRuleLifecycleProposal at hplan
  cases hrule : loadRoleRuleById t ruleId with
  | none => simp [hrule] at hplan
  | some rule =>
    simp only [hrule, Except.ok.injEq] at hplan
    exact ⟨rule, rfl, hplan ▸ rfl⟩

theorem ruleLifecycle_completes (lifecycleStatus : String)
    (hrule : loadRoleRuleById t ruleId = some rule) :
    ∃ plan, applyRuleLifecycleProposal t ruleId lifecycleStatus = .ok plan ∧
      runWrites none plan.writes t =
        (ruleLifecycleResult ruleId lifecycleStatus rule.roleId t, true) := by
  unfold applyRuleLifecycleProposal
  rw [hrule]
  refine ⟨_, rfl, ?_⟩
  exact (runWrites_none_cons rfl).trans (runWrites_withStatuses nodup_selectedActive)

/-- **A stopped activation or disabling** is completed by the next call. -/
theorem ruleLifecycle_again {ident : RoleIdentity} (ht : t.WellFormed ident)
    (hplan : applyRuleLifecycleProposal t ruleId lifecycleStatus = .ok plan)
    (hrun : runWrites none plan.writes t = (u, true)) (n : ℕ) :
    (stoppedTables plan n t).WellFormed ident ∧
      ∃ plan', applyRuleLifecycleProposal (stoppedTables plan n t) ruleId lifecycleStatus =
          .ok plan' ∧
        runWrites none plan'.writes (stoppedTables plan n t) = (u, true) := by
  cases n with
  | zero => exact ⟨ht, plan, hplan, hrun⟩
  | succ n =>
    obtain ⟨rule, hrule, hwrites⟩ := ruleLifecycle_plan hplan
    obtain ⟨plan', hplan', hrun'⟩ := ruleLifecycle_completes lifecycleStatus hrule
    cases hplan.symm.trans hplan'
    cases hrun.symm.trans hrun'
    rw [stoppedTables_loop hwrites rfl nodup_selectedActive]
    refine ⟨wellFormed_withStatuses ⟨ht.normalized, ht.roleIds, ht.assignmentIds⟩, ?_⟩
    obtain ⟨plan', hplan', hrun'⟩ :=
      ruleLifecycle_completes lifecycleStatus
        (t := withStatuses .needsReview ("rule lifecycle changed to " ++ lifecycleStatus) none
          ((selectedActive (fun a => assignmentReferencesRule a ruleId) rule.roleId t).take n)
          (updateRoleRuleLifecycle ruleId lifecycleStatus t))
        (loadRoleRuleById_update lifecycleStatus hrule)
    refine ⟨plan', hplan', hrun'.trans (congrArg (·, true) ?_)⟩
    have hagain := withStatuses_again (updateRoleRuleLifecycle ruleId lifecycleStatus t)
      ("rule lifecycle changed to " ++ lifecycleStatus) none rule.roleId
      (fun a => assignmentReferencesRule a ruleId) (AssignmentStatus.noConfusion :
        AssignmentStatus.needsReview ≠ .active) n
    refine Eq.trans ?_ hagain
    exact congrArg (withStatuses .needsReview ("rule lifecycle changed to " ++ lifecycleStatus)
      none _) (congrArg (withStatuses .needsReview _ none _) updateRoleRuleLifecycle_again)

end RuleLifecycle

end ArchitectureRoles
end Bitloops
