import Bitloops.ArchitectureRoles.ProposalWrites

/-!
# What a role migration does to the assignments

A merge, and a deprecation or a removal with a replacement role, move the active assignments of
the source role to the target role.  Each is made stale under its own identifier, and is created
under the identifier of the target role unless a row is there already.  The migration conserves
the assignments exactly when the rows that are there are active ones of the target role, and
source and target differ.
-/

namespace Bitloops
namespace ArchitectureRoles

/-! ## Active assignments -/

section Active

variable {t : RoleTables} {roleId : String} {a b : ArchitectureRoleAssignment}

theorem mem_listActive :
    a ∈ listActiveCurrentAssignmentsForRole t roleId ↔
      a ∈ t.assignments.rows ∧ a.roleId = roleId ∧ a.status = .active := by
  rw [listActiveCurrentAssignmentsForRole, List.mem_filter, mem_orderBy, List.mem_filter,
    decide_eq_true_iff, decide_eq_true_iff, and_assoc]

theorem nodup_listActive :
    ((listActiveCurrentAssignmentsForRole t roleId).map (·.assignmentId)).Nodup := by
  have hfilter : ((t.assignments.rows.filter (·.roleId = roleId)).map (·.assignmentId)).Nodup :=
    t.assignments.unique.sublist (List.filter_sublist.map _)
  have horder : ((orderBy (·.assignmentId)
      (t.assignments.rows.filter (·.roleId = roleId))).map (·.assignmentId)).Nodup :=
    ((perm_orderBy _ _).map _).nodup_iff.mpr hfilter
  exact horder.sublist (List.filter_sublist.map _)

end Active

/-! ## Moving assignments -/

section Moving

variable {ident : RoleIdentity} {targetRoleId migrationKind : String}
  {migrationId : ArchitectureRoleAssignment → String} {assignments : AssignmentTable}
  {a b : ArchitectureRoleAssignment} {moved : List ArchitectureRoleAssignment}

theorem mem_migrateCurrentAssignmentToRole {id : String} (ha : a ∈ assignments.rows) :
    b ∈ (migrateCurrentAssignmentToRole ident a targetRoleId id migrationKind
        assignments).rows ↔
      b = sourceNext ident a targetRoleId id ∨
        (b = targetNext ident a targetRoleId id migrationKind ∧
          ident.assignmentId targetRoleId a.target ∉
            assignments.rows.map (·.assignmentId)) ∨
        (b ∈ assignments.rows ∧ b.assignmentId ≠ a.assignmentId) := by
  have hsource : (sourceNext ident a targetRoleId id).assignmentId = a.assignmentId := rfl
  have htarget : (targetNext ident a targetRoleId id migrationKind).assignmentId =
      ident.assignmentId targetRoleId a.target := rfl
  rw [migrateCurrentAssignmentToRole]
  cases hfound : findRow (·.assignmentId) (ident.assignmentId targetRoleId a.target)
      assignments.rows with
  | some existing =>
    obtain ⟨hexisting, hid⟩ := UniqueTable.findRow_eq_some.mp hfound
    have hused : ident.assignmentId targetRoleId a.target ∈
        assignments.rows.map (·.assignmentId) := hid ▸ List.mem_map_of_mem hexisting
    simp only [UniqueTable.mem_upsert, hsource, hused, not_true_eq_false, and_false, false_or]
  | none =>
    have hunused : ident.assignmentId targetRoleId a.target ∉
        assignments.rows.map (·.assignmentId) := by
      intro h
      obtain ⟨x, hx, hid⟩ := List.mem_map.mp h
      exact UniqueTable.findRow_eq_none.mp hfound x hx hid
    have hne : ∀ x ∈ assignments.rows,
        x.assignmentId ≠ ident.assignmentId targetRoleId a.target :=
      UniqueTable.findRow_eq_none.mp hfound
    simp only [UniqueTable.mem_upsert, hsource, htarget, hunused, not_false_eq_true, and_true]
    constructor
    · rintro (rfl | ⟨rfl | ⟨hb, hba⟩, -⟩)
      · exact .inr (.inl rfl)
      · exact .inl rfl
      · exact .inr (.inr ⟨hb, hba⟩)
    · rintro (rfl | rfl | ⟨hb, hba⟩)
      · exact .inr ⟨.inl rfl, hne a ha⟩
      · exact .inl rfl
      · exact .inr ⟨.inr ⟨hb, hba⟩, hne b hb⟩

/-- **The moved assignments.**  Each is stale under its own identifier, and active under the
identifier of the target role where that was free; the other rows are as they were. -/
theorem mem_migrateAll (hmoved : ∀ a ∈ moved, a ∈ assignments.rows)
    (hnodup : (moved.map (·.assignmentId)).Nodup)
    (hinj : ∀ a ∈ moved, ∀ b ∈ moved,
      ident.assignmentId targetRoleId a.target = ident.assignmentId targetRoleId b.target →
        a.assignmentId = b.assignmentId) :
    b ∈ (migrateAll ident targetRoleId migrationKind migrationId moved assignments).rows ↔
      (∃ a ∈ moved, b = sourceNext ident a targetRoleId (migrationId a)) ∨
        (∃ a ∈ moved, b = targetNext ident a targetRoleId (migrationId a) migrationKind ∧
          ident.assignmentId targetRoleId a.target ∉
            assignments.rows.map (·.assignmentId)) ∨
        (b ∈ assignments.rows ∧ ∀ a ∈ moved, b.assignmentId ≠ a.assignmentId) := by
  induction moved generalizing assignments with
  | nil => simp [migrateAll]
  | cons first rest ih =>
    rw [List.map_cons, List.nodup_cons] at hnodup
    have hfirst := hmoved first List.mem_cons_self
    have hrest : ∀ a ∈ rest, a ∈ assignments.rows :=
      fun a ha => hmoved a (List.mem_cons_of_mem _ ha)
    have hne : ∀ a ∈ rest, a.assignmentId ≠ first.assignmentId :=
      fun a ha h => hnodup.1 (h ▸ List.mem_map_of_mem ha)
    let next := migrateCurrentAssignmentToRole ident first targetRoleId (migrationId first)
      migrationKind assignments
    have hmem {b : ArchitectureRoleAssignment} : b ∈ next.rows ↔ _ :=
      mem_migrateCurrentAssignmentToRole hfirst
    -- the first transaction takes no identifier that a later assignment needs
    have hfree : ∀ a ∈ rest, ident.assignmentId targetRoleId a.target ∉
        next.rows.map (·.assignmentId) ↔
          ident.assignmentId targetRoleId a.target ∉
            assignments.rows.map (·.assignmentId) := by
      intro a ha
      rw [not_iff_not, List.mem_map, List.mem_map]
      constructor
      · rintro ⟨x, hx, hid⟩
        rcases hmem.mp hx with rfl | ⟨rfl, -⟩ | ⟨hx, -⟩
        · exact ⟨first, hfirst, hid⟩
        · have hsame := hinj first List.mem_cons_self a (List.mem_cons_of_mem _ ha) hid
          exact absurd hsame.symm (hne a ha)
        · exact ⟨x, hx, hid⟩
      · rintro ⟨x, hx, hid⟩
        by_cases hxf : x.assignmentId = first.assignmentId
        · exact ⟨_, hmem.mpr (.inl rfl), hxf.symm.trans hid⟩
        · exact ⟨x, hmem.mpr (.inr (.inr ⟨hx, hxf⟩)), hid⟩
    have hstep : migrateAll ident targetRoleId migrationKind migrationId (first :: rest)
        assignments = migrateAll ident targetRoleId migrationKind migrationId rest next := rfl
    rw [hstep, ih (fun a ha => hmem.mpr (.inr (.inr ⟨hrest a ha, hne a ha⟩))) hnodup.2
      fun a ha b hb => hinj a (List.mem_cons_of_mem _ ha) b (List.mem_cons_of_mem _ hb)]
    constructor
    · rintro (⟨a, ha, rfl⟩ | ⟨a, ha, rfl, hunused⟩ | ⟨hb, hother⟩)
      · exact .inl ⟨a, List.mem_cons_of_mem _ ha, rfl⟩
      · exact .inr (.inl ⟨a, List.mem_cons_of_mem _ ha, rfl, (hfree a ha).mp hunused⟩)
      · rcases hmem.mp hb with rfl | ⟨rfl, hunused⟩ | ⟨hb, hbf⟩
        · exact .inl ⟨first, List.mem_cons_self, rfl⟩
        · exact .inr (.inl ⟨first, List.mem_cons_self, rfl, hunused⟩)
        · refine .inr (.inr ⟨hb, fun a ha => ?_⟩)
          rcases List.mem_cons.mp ha with rfl | ha
          · exact hbf
          · exact hother a ha
    · rintro (⟨a, ha, rfl⟩ | ⟨a, ha, rfl, hunused⟩ | ⟨hb, hother⟩)
      · rcases List.mem_cons.mp ha with rfl | ha
        · exact .inr (.inr ⟨hmem.mpr (.inl rfl), fun a' ha' h => hne a' ha' h.symm⟩)
        · exact .inl ⟨a, ha, rfl⟩
      · rcases List.mem_cons.mp ha with rfl | ha
        · refine .inr (.inr ⟨hmem.mpr (.inr (.inl ⟨rfl, hunused⟩)), fun a' ha' h => ?_⟩)
          exact hunused (List.mem_map.mpr ⟨a', hrest a' ha', h.symm⟩)
        · exact .inr (.inl ⟨a, ha, rfl, (hfree a ha).mpr hunused⟩)
      · refine .inr (.inr ⟨hmem.mpr (.inr (.inr ⟨hb, hother first List.mem_cons_self⟩)), ?_⟩)
        exact fun a ha => hother a (List.mem_cons_of_mem _ ha)

end Moving

/-! ## Conservation -/

/-- The source and the target role of a proposal that migrates assignments. -/
def ProposalRequest.migration {Body : Type} : ProposalRequest Body → Option (String × String)
  | mergeRoles sourceRoleId targetRoleId => some (sourceRoleId, targetRoleId)
  | deprecateRole roleId replacementRoleId => replacementRoleId.map (roleId, ·)
  | removeRole roleId replacementRoleId => replacementRoleId.map (roleId, ·)
  | _ => none

/-- Every target of an active assignment of the source role has an active assignment of the target
role, the source role has none left unless it is the target role, and the assignments of other
roles and of other targets are as they were. -/
structure Conserves (sourceRoleId targetRoleId : String) (t t' : RoleTables) : Prop where
  migrated : ∀ a ∈ listActiveCurrentAssignmentsForRole t sourceRoleId,
    ∃ b ∈ listActiveCurrentAssignmentsForRole t' targetRoleId, b.target = a.target
  released : sourceRoleId ≠ targetRoleId → listActiveCurrentAssignmentsForRole t' sourceRoleId = []
  unchanged : ∀ b : ArchitectureRoleAssignment,
    (b.roleId ≠ sourceRoleId ∧ b.roleId ≠ targetRoleId) ∨
        (∀ a ∈ listActiveCurrentAssignmentsForRole t sourceRoleId, b.target ≠ a.target) →
      (b ∈ t.assignments.rows ↔ b ∈ t'.assignments.rows)

/-- A row that is stored where the target role's assignment of `a` belongs is an active one. -/
def ActiveIfPresent (ident : RoleIdentity) (targetRoleId : String) (t : RoleTables)
    (a : ArchitectureRoleAssignment) : Prop :=
  ∀ b ∈ t.assignments.rows, b.assignmentId = ident.assignmentId targetRoleId a.target →
    b.status = .active ∧ b.roleId = targetRoleId ∧ b.target = a.target

/-- Source and target are different roles, and no assignment of the source role meets a row of the
target role that is not active; or the source role has no active assignment. -/
def Migratable (ident : RoleIdentity) (sourceRoleId targetRoleId : String) (t : RoleTables) :
    Prop :=
  (sourceRoleId = targetRoleId → listActiveCurrentAssignmentsForRole t sourceRoleId = []) ∧
    ∀ a ∈ listActiveCurrentAssignmentsForRole t sourceRoleId,
      ActiveIfPresent ident targetRoleId t a

section Conservation

variable {ident : RoleIdentity} {sourceRoleId targetRoleId migrationKind : String}
  {migrationId : ArchitectureRoleAssignment → String} {t t' : RoleTables}

/-- Active assignments of one role whose targets meet under another role are the same one. -/
theorem RoleTables.WellFormed.assignmentId_eq (ht : t.WellFormed ident)
    (huuid : Function.Injective ident.deterministicUuid) {a b : ArchitectureRoleAssignment}
    (ha : a ∈ listActiveCurrentAssignmentsForRole t sourceRoleId)
    (hb : b ∈ listActiveCurrentAssignmentsForRole t sourceRoleId)
    (h : ident.assignmentId targetRoleId a.target = ident.assignmentId targetRoleId b.target) :
    a.assignmentId = b.assignmentId := by
  obtain ⟨ha, harole, -⟩ := mem_listActive.mp ha
  obtain ⟨hb, hbrole, -⟩ := mem_listActive.mp hb
  rw [ht.assignmentIds a ha, ht.assignmentIds b hb, harole, hbrole]
  exact RoleIdentity.assignmentId_congr huuid h

/-- The assignments after the move of all active ones. -/
theorem mem_migrateAll_listActive (ht : t.WellFormed ident)
    (huuid : Function.Injective ident.deterministicUuid) {b : ArchitectureRoleAssignment} :
    b ∈ (migrateAll ident targetRoleId migrationKind migrationId
        (listActiveCurrentAssignmentsForRole t sourceRoleId) t.assignments).rows ↔
      (∃ a ∈ listActiveCurrentAssignmentsForRole t sourceRoleId,
          b = sourceNext ident a targetRoleId (migrationId a)) ∨
        (∃ a ∈ listActiveCurrentAssignmentsForRole t sourceRoleId,
          b = targetNext ident a targetRoleId (migrationId a) migrationKind ∧
            ident.assignmentId targetRoleId a.target ∉
              t.assignments.rows.map (·.assignmentId)) ∨
        (b ∈ t.assignments.rows ∧ ∀ a ∈ listActiveCurrentAssignmentsForRole t sourceRoleId,
          b.assignmentId ≠ a.assignmentId) :=
  mem_migrateAll (fun _ ha => (mem_listActive.mp ha).1) nodup_listActive
    fun _ ha _ hb => ht.assignmentId_eq huuid ha hb

/-- **Moving all active assignments** conserves them exactly when each can be moved. -/
theorem conserves_migrateAll_iff (ht : t.WellFormed ident)
    (huuid : Function.Injective ident.deterministicUuid)
    (ht' : t'.assignments = migrateAll ident targetRoleId migrationKind migrationId
      (listActiveCurrentAssignmentsForRole t sourceRoleId) t.assignments) :
    Conserves sourceRoleId targetRoleId t t' ↔ Migratable ident sourceRoleId targetRoleId t := by
  have hmem {b : ArchitectureRoleAssignment} : b ∈ t'.assignments.rows ↔ _ :=
    ht' ▸ mem_migrateAll_listActive ht huuid
  constructor
  · intro h
    -- the active assignment of the target role is one that was there, or one that was created
    have hkept : ∀ a ∈ listActiveCurrentAssignmentsForRole t sourceRoleId,
        ident.assignmentId targetRoleId a.target ∈ t.assignments.rows.map (·.assignmentId) →
          ∃ c ∈ t.assignments.rows, c.roleId = targetRoleId ∧ c.status = .active ∧
            c.target = a.target ∧
            ∀ a' ∈ listActiveCurrentAssignmentsForRole t sourceRoleId,
              c.assignmentId ≠ a'.assignmentId := by
      intro a ha hused
      obtain ⟨c, hc, htarget⟩ := h.migrated a ha
      obtain ⟨hc, hrole, hactive⟩ := mem_listActive.mp hc
      rcases hmem.mp hc with ⟨a', -, rfl⟩ | ⟨a', -, rfl, hunused⟩ | ⟨hc, hother⟩
      · exact absurd hactive AssignmentStatus.noConfusion
      · have hsame : a'.target = a.target := htarget
        exact absurd (hsame ▸ hused) hunused
      · exact ⟨c, hc, hrole, hactive, htarget, hother⟩
    constructor
    · rintro rfl
      refine List.eq_nil_iff_forall_not_mem.mpr fun a ha => ?_
      obtain ⟨hat, harole, -⟩ := mem_listActive.mp ha
      have hid : ident.assignmentId sourceRoleId a.target = a.assignmentId := by
        rw [ht.assignmentIds a hat, harole]
      obtain ⟨c, hc, hrole, -, htarget, hother⟩ :=
        hkept a ha (hid ▸ List.mem_map_of_mem hat)
      refine hother a ha ?_
      rw [ht.assignmentIds c hc, hrole, htarget, hid]
    · intro a ha b hb hid
      obtain ⟨c, hc, hrole, hactive, htarget, -⟩ := hkept a ha (hid ▸ List.mem_map_of_mem hb)
      have hcid : c.assignmentId = b.assignmentId := by
        rw [ht.assignmentIds c hc, hrole, htarget, hid]
      obtain rfl := UniqueTable.eq_of_key_eq hc hb hcid
      exact ⟨hactive, hrole, htarget⟩
  · rintro ⟨hdiffer, hpresent⟩
    have hne : ∀ a ∈ listActiveCurrentAssignmentsForRole t sourceRoleId,
        sourceRoleId ≠ targetRoleId := by
      intro a ha hsame
      rw [hdiffer hsame] at ha
      exact absurd ha List.not_mem_nil
    constructor
    · intro a ha
      by_cases hused :
          ident.assignmentId targetRoleId a.target ∈ t.assignments.rows.map (·.assignmentId)
      · obtain ⟨b, hb, hid⟩ := List.mem_map.mp hused
        obtain ⟨hactive, hrole, htarget⟩ := hpresent a ha b hb hid
        refine ⟨b, mem_listActive.mpr ⟨hmem.mpr (.inr (.inr ⟨hb, fun a' ha' h => ?_⟩)), hrole,
          hactive⟩, htarget⟩
        obtain ⟨hat', harole, -⟩ := mem_listActive.mp ha'
        obtain rfl := UniqueTable.eq_of_key_eq hb hat' h
        exact hne b ha' (harole.symm.trans hrole)
      · exact ⟨_, mem_listActive.mpr ⟨hmem.mpr (.inr (.inl ⟨a, ha, rfl, hused⟩)), rfl, rfl⟩, rfl⟩
    · intro hsource
      refine List.eq_nil_iff_forall_not_mem.mpr fun b hb => ?_
      obtain ⟨hb, hrole, hactive⟩ := mem_listActive.mp hb
      rcases hmem.mp hb with ⟨a, -, rfl⟩ | ⟨a, -, rfl, -⟩ | ⟨hb, hother⟩
      · exact absurd hactive AssignmentStatus.noConfusion
      · exact hsource hrole.symm
      · exact hother b (mem_listActive.mpr ⟨hb, hrole, hactive⟩) rfl
    · intro b hb
      have hsource : ∀ a ∈ listActiveCurrentAssignmentsForRole t sourceRoleId,
          ¬ (b.roleId = sourceRoleId ∧ b.target = a.target) := by
        rintro a ha ⟨hrole, htarget⟩
        rcases hb with ⟨hb, -⟩ | hb
        · exact hb hrole
        · exact hb a ha htarget
      have htarget : ∀ a ∈ listActiveCurrentAssignmentsForRole t sourceRoleId,
          ¬ (b.roleId = targetRoleId ∧ b.target = a.target) := by
        rintro a ha ⟨hrole, htarget⟩
        rcases hb with ⟨-, hb⟩ | hb
        · exact hb hrole
        · exact hb a ha htarget
      constructor
      · intro hbt
        refine hmem.mpr (.inr (.inr ⟨hbt, fun a ha h => ?_⟩))
        obtain ⟨hat, harole, -⟩ := mem_listActive.mp ha
        obtain rfl := UniqueTable.eq_of_key_eq hbt hat h
        exact hsource b ha ⟨harole, rfl⟩
      · intro hbt'
        rcases hmem.mp hbt' with ⟨a, ha, rfl⟩ | ⟨a, ha, rfl, -⟩ | ⟨hbt, -⟩
        · exact absurd ⟨(mem_listActive.mp ha).2.1, rfl⟩ (hsource a ha)
        · exact absurd ⟨rfl, rfl⟩ (htarget a ha)
        · exact hbt

/-- A call that changes nothing conserves the assignments of a role without active ones, and those
of a role that is its own target. -/
theorem conserves_self_iff :
    Conserves sourceRoleId targetRoleId t t ↔
      (sourceRoleId ≠ targetRoleId → listActiveCurrentAssignmentsForRole t sourceRoleId = []) := by
  constructor
  · exact fun h => h.released
  · intro h
    refine ⟨fun a ha => ?_, h, fun _ _ => Iff.rfl⟩
    by_cases hsame : sourceRoleId = targetRoleId
    · exact ⟨a, hsame ▸ ha, rfl⟩
    · rw [h hsame] at ha
      exact absurd ha List.not_mem_nil

end Conservation

/-! ## Proposals that migrate assignments -/

section Proposals

variable {Body : Type} {services : RoleServices Body} {proposalId sourceRoleId targetRoleId : String}
  {t t' : RoleTables} {plan : ProposalPlan} {request : ProposalRequest Body}

theorem loadRoleById_eq_some {roleId : String} {role : ArchitectureRoleRecord}
    (h : loadRoleById t roleId = some role) : role ∈ t.roles.rows ∧ role.roleId = roleId :=
  UniqueTable.findRow_eq_some.mp h

/-- Every plan that migrates assignments moves all active ones of the source role. -/
theorem assignments_of_migration (hrequest : request.migration = some (sourceRoleId, targetRoleId))
    (hplan : proposalPlan services proposalId request t = .ok plan)
    (hrun : runWrites none plan.writes t = (t', true)) :
    ∃ migrationKind, t'.assignments =
      migrateAll services.toRoleIdentity targetRoleId migrationKind
        (assignmentMigrationId services proposalId migrationKind)
        (listActiveCurrentAssignmentsForRole t sourceRoleId) t.assignments := by
  have hlifecycle : ∀ roleId replacementRoleId lifecycleStatus invalidatedStatus,
      replacementRoleId.map (roleId, ·) = some (sourceRoleId, targetRoleId) →
      applyLifecycleRoleProposal services proposalId t roleId replacementRoleId lifecycleStatus
          invalidatedStatus = .ok plan →
        t'.assignments =
          migrateAll services.toRoleIdentity targetRoleId lifecycleStatus
            (assignmentMigrationId services proposalId lifecycleStatus)
            (listActiveCurrentAssignmentsForRole t sourceRoleId) t.assignments := by
    intro roleId replacementRoleId lifecycleStatus invalidatedStatus hmap happly
    obtain ⟨replacement, rfl, hpair⟩ := Option.map_eq_some_iff.mp hmap
    cases hpair
    unfold applyLifecycleRoleProposal loadReplacementRole at happly
    cases hrole : loadRoleById t sourceRoleId with
    | none => simp [hrole] at happly
    | some role =>
      cases hreplacement : loadRoleById t targetRoleId with
      | none => simp [hrole, hreplacement] at happly
      | some replacement =>
        simp only [hrole, hreplacement, Except.ok.injEq] at happly
        obtain rfl := happly
        obtain ⟨t₁, hupsert, hloop⟩ := runWrites_cons_eq_true.mp hrun
        rw [runWrites_migrateAssignments] at hloop
        cases hloop
        rw [upsertRole_eq hupsert, (loadRoleById_eq_some hrole).2,
          (loadRoleById_eq_some hreplacement).2]
  cases request with
  | mergeRoles source target =>
    cases hrequest
    rw [proposalPlan, applyMergeRoleProposal] at hplan
    cases hsource : loadRoleById t sourceRoleId with
    | none => simp [hsource] at hplan
    | some source =>
      cases htarget : loadRoleById t targetRoleId with
      | none => simp [hsource, htarget] at hplan
      | some target =>
        simp only [hsource, htarget, Except.ok.injEq] at hplan
        obtain rfl := hplan
        obtain ⟨t₁, hloop, hrest⟩ := runWrites_append_eq_true.mp hrun
        rw [runWrites_migrateAssignments] at hloop
        cases hloop
        obtain ⟨t₂, halias, hrest⟩ := runWrites_cons_eq_true.mp hrest
        obtain ⟨t₃, hupsert, hnil⟩ := runWrites_cons_eq_true.mp hrest
        cases hnil
        cases halias
        refine ⟨"merge_roles", ?_⟩
        rw [upsertRole_eq hupsert, createRoleAliasIfFree_eq, (loadRoleById_eq_some hsource).2,
          (loadRoleById_eq_some htarget).2]
  | deprecateRole roleId replacementRoleId =>
    exact ⟨_, hlifecycle roleId replacementRoleId _ _ hrequest hplan⟩
  | removeRole roleId replacementRoleId =>
    exact ⟨_, hlifecycle roleId replacementRoleId _ _ hrequest hplan⟩
  | renameRole => cases hrequest
  | splitRole => cases hrequest
  | createRoleAlias => cases hrequest
  | draftRule => cases hrequest
  | editRule => cases hrequest
  | activateRule => cases hrequest
  | disableRule => cases hrequest

end Proposals

/-- **Conservation of assignments.**  A merge, and a deprecation or a removal with a replacement
role, that `apply_proposal` applies conserve the assignments exactly when source and target differ
and no assignment of the source role meets one of the target role that is not active.  A proposal
that was applied before is not applied again. -/
theorem conserves_iff {Body : Type} {services : RoleServices Body} {s s' : RoleStore Body}
    {proposalId sourceRoleId targetRoleId : String}
    {proposal : ArchitectureRoleProposalRecord Body}
    (huuid : Function.Injective services.deterministicUuid)
    (hs : s.tables.WellFormed services.toRoleIdentity)
    (hp : findRow (·.proposalId) proposalId s.proposals.rows = some proposal)
    (hrequest : proposal.request.migration = some (sourceRoleId, targetRoleId))
    (happlied : applyProposal services none proposalId s = (s', true)) :
    Conserves sourceRoleId targetRoleId s.tables s'.tables ↔
      if proposal.status = "applied" then
        sourceRoleId ≠ targetRoleId →
          listActiveCurrentAssignmentsForRole s.tables sourceRoleId = []
      else Migratable services.toRoleIdentity sourceRoleId targetRoleId s.tables := by
  by_cases hstatus : proposal.status = "applied"
  · rw [applyProposal_applied hp hstatus] at happlied
    cases happlied
    rw [if_pos hstatus]
    exact conserves_self_iff
  · obtain ⟨plan, hplan, hrun, -⟩ := (applyProposal_eq_true hp hstatus).mp happlied
    obtain ⟨migrationKind, hassignments⟩ := assignments_of_migration hrequest hplan hrun
    rw [if_neg hstatus]
    exact conserves_migrateAll_iff hs huuid hassignments

/-! ## A merge into a role that had the target before -/

/-- Digests that keep the texts they would hash. -/
def plainServices : RoleServices Unit where
  deterministicUuid := id
  repoId := "repo"
  requestHash
    | .mergeRoles sourceRoleId targetRoleId => sourceRoleId ++ "|" ++ targetRoleId
    | request => request.proposalType
  ruleSpecStoragePayload _ :=
    some
      { candidateSelector := .object []
        positiveConditions := .array []
        negativeConditions := .array []
        score := .object [] }
  canonicalRuleHash _ := "hash"

def seededRole (canonicalKey displayName : String) : ArchitectureRoleRecord where
  roleId := plainServices.deterministicRoleId canonicalKey
  canonicalKey
  displayName
  description := ""
  family := some "application"
  lifecycleStatus := "active"
  provenance := .object []
  evidence := .array []
  metadata := .object []

def ruleAssignment (canonicalKey path : String) (status : AssignmentStatus) :
    ArchitectureRoleAssignment where
  assignmentId :=
    plainServices.assignmentId (plainServices.deterministicRoleId canonicalKey) (.file path)
  roleId := plainServices.deterministicRoleId canonicalKey
  target := .file path
  priority := .primary
  status
  source := .rule
  confidence := 1
  evidence := .array []
  provenance := .object []
  classifierVersion := "architecture_roles.deterministic.contract.v1"
  ruleVersion := none
  generationSeq := 1

def entrypointId : String := "architecture_roles|role|repo|entrypoint"

def cliId : String := "architecture_roles|role|repo|cli"

/-- `src/main.rs` has the role `entrypoint`; it had the role `cli` before, with the status. -/
def mergeTables (previous : List AssignmentStatus) : RoleTables where
  roles :=
    (UniqueTable.empty.upsert (seededRole "entrypoint" "Entrypoint")).upsert (seededRole "cli" "CLI")
  aliases := .empty
  rules := .empty
  assignments :=
    (previous.map (ruleAssignment "cli" "src/main.rs")).foldl UniqueTable.upsert
      (UniqueTable.empty.upsert (ruleAssignment "entrypoint" "src/main.rs" .active))
  migrations := .empty

/-- The merge of `entrypoint` into `cli` as a draft. -/
def mergeStore (previous : List AssignmentStatus) : RoleStore Unit :=
  let s : RoleStore Unit := { tables := mergeTables previous, proposals := .empty }
  ((createMergeRoleProposal plainServices "role:entrypoint" "cli" s).map (·.1)).toOption.getD s

def mergeProposalId : String :=
  "architecture_roles|proposal|repo|merge_roles|" ++ entrypointId ++ "|" ++ cliId

theorem mergeStore_wellFormed (previous : List AssignmentStatus)
    (hshort : previous = [] ∨ previous = [.stale]) :
    (mergeStore previous).tables.WellFormed plainServices.toRoleIdentity := by
  rcases hshort with rfl | rfl
  · exact ⟨by decide, by decide, by decide⟩
  · exact ⟨by decide, by decide, by decide⟩

/-- Without a row of the target role the merge conserves the assignment. -/
theorem freshMerge_conserves :
    Conserves entrypointId cliId (mergeStore []).tables
      (applyProposal plainServices none mergeProposalId (mergeStore [])).1.tables := by
  have happlied : applyProposal plainServices none mergeProposalId (mergeStore []) =
      ((applyProposal plainServices none mergeProposalId (mergeStore [])).1, true) :=
    Prod.ext rfl (by decide)
  refine (conserves_iff Function.injective_id (mergeStore_wellFormed [] (.inl rfl)) rfl rfl
    happlied).mpr ?_
  rw [if_neg (by decide)]
  refine ⟨fun h => absurd h (by decide), ?_⟩
  unfold ActiveIfPresent
  decide

/-- The target of a stale assignment of the role `cli` loses its role in the merge. -/
theorem staleTarget_not_conserved :
    (applyProposal plainServices none mergeProposalId (mergeStore [.stale])).2 = true ∧
      ¬ Conserves entrypointId cliId (mergeStore [.stale]).tables
        (applyProposal plainServices none mergeProposalId (mergeStore [.stale])).1.tables := by
  refine ⟨by decide, fun h => ?_⟩
  have hactive : ruleAssignment "entrypoint" "src/main.rs" .active ∈
      listActiveCurrentAssignmentsForRole (mergeStore [.stale]).tables entrypointId :=
    mem_listActive.mpr ⟨List.mem_cons_self, by decide, rfl⟩
  obtain ⟨b, hb, -⟩ := h.migrated _ hactive
  have hnone : listActiveCurrentAssignmentsForRole
      (applyProposal plainServices none mergeProposalId (mergeStore [.stale])).1.tables
      cliId = [] := List.isEmpty_iff.mp (by decide)
  rw [hnone] at hb
  exact absurd hb List.not_mem_nil

end ArchitectureRoles
end Bitloops
