import Bitloops.ArchitectureRoles.MigrationRetry

/-!
# Splits and rules that are written again

A split puts its roles and records their aliases, and gives the active assignments of the source
role a status; the record of it counts them.  A call that is made again finds none to count.  A
rule that is drafted again takes the next version.
-/

namespace Bitloops
namespace ArchitectureRoles

open Checkpoints

variable {Body : Type} {services : RoleServices Body} {ident : RoleIdentity}
  {proposalId sourceRoleId : String} {t t' u : RoleTables} {plan : ProposalPlan}

/-! ## Roles and aliases, in any order -/

/-- A write of a role or of an alias. -/
inductive RoleWrite where
  | putRole (role : ArchitectureRoleRecord)
  | recordAlias (record : ArchitectureRoleAliasRecord)

namespace RoleWrite

def write : RoleWrite → RoleTables → Option RoleTables
  | putRole role => upsertRole role
  | recordAlias record => fun t => some (createRoleAliasIfFree record t)

def row? : RoleWrite → Option ArchitectureRoleRecord
  | putRole role => some role.toRow
  | recordAlias _ => none

def record? : RoleWrite → Option ArchitectureRoleAliasRecord
  | putRole _ => none
  | recordAlias record => some record

/-- The role is identified by its key. -/
def Identified (ident : RoleIdentity) : RoleWrite → Prop
  | putRole role => role.Identified ident
  | recordAlias _ => True

end RoleWrite

/-- The tables with the roles put and the aliases recorded. -/
def putTables (writes : List RoleWrite) (t : RoleTables) : RoleTables :=
  { t with
    roles := (writes.filterMap RoleWrite.row?).foldl UniqueTable.upsert t.roles
    aliases := (recordAliases (writes.filterMap RoleWrite.record?) t).aliases }

section Put

variable {writes first : List RoleWrite}

theorem aliases_recordAliases {records : List ArchitectureRoleAliasRecord}
    (h : t'.aliases = t.aliases) :
    (recordAliases records t').aliases = (recordAliases records t).aliases := by
  induction records generalizing t t' with
  | nil => exact h
  | cons record rest ih => exact ih (aliases_createRoleAliasIfFree h)

theorem wellFormed_putTables (ht : t.WellFormed ident)
    (hidentified : ∀ write ∈ writes, write.Identified ident) :
    (putTables writes t).WellFormed ident := by
  have hrow : ∀ row ∈ writes.filterMap RoleWrite.row?,
      normalizeRoleKey row.canonicalKey = row.canonicalKey ∧ row.Identified ident := by
    intro row hrow
    obtain ⟨write, hwrite, hrow⟩ := List.mem_filterMap.mp hrow
    cases write with
    | recordAlias record => cases hrow
    | putRole role =>
      cases hrow
      refine ⟨?_, identified_toRow (hidentified _ hwrite)⟩
      rw [toRow_canonicalKey, normalizeRoleKey_normalizeRoleKey]
  refine ⟨fun row h => ?_, fun row h => ?_, ht.assignmentIds⟩
  · rcases UniqueTable.mem_of_mem_foldl_upsert h with h | h
    · exact ht.normalized row h
    · exact (hrow row h).1
  · rcases UniqueTable.mem_of_mem_foldl_upsert h with h | h
    · exact ht.roleIds row h
    · exact (hrow row h).2

/-- The writes of roles and aliases are made, whatever their order. -/
theorem runWrites_roleWrites (huuid : Function.Injective ident.deterministicUuid)
    (ht : t.WellFormed ident) (hidentified : ∀ write ∈ writes, write.Identified ident) :
    runWrites none (writes.map RoleWrite.write) t = (putTables writes t, true) := by
  induction writes generalizing t with
  | nil => rfl
  | cons write rest ih =>
    have hrest : ∀ write ∈ rest, write.Identified ident :=
      fun write h => hidentified write (List.mem_cons_of_mem _ h)
    cases write with
    | putRole role =>
      have hrole : role.Identified ident := hidentified _ List.mem_cons_self
      have hput : RoleWrite.write (.putRole role) t = some (withRole role t) :=
        upsertRole_eq_upsert ht huuid hrole
      have hwell : (withRole role t).WellFormed ident := wellFormed_upsert_role ht hrole
      rw [List.map_cons, runWrites_none_cons hput, ih hwell hrest]
      refine congrArg (·, true) (RoleTables.ext rfl ?_ rfl rfl rfl)
      exact aliases_recordAliases rfl
    | recordAlias record =>
      have hframe : (createRoleAliasIfFree record t).WellFormed ident := by
        rw [createRoleAliasIfFree_eq]
        exact ht.congr rfl rfl
      have hput : RoleWrite.write (.recordAlias record) t =
          some (createRoleAliasIfFree record t) := rfl
      rw [List.map_cons, runWrites_none_cons hput, ih hframe hrest]
      refine congrArg (·, true) (RoleTables.ext ?_ rfl ?_ ?_ ?_)
      · show _ = ((rest.filterMap RoleWrite.row?).foldl UniqueTable.upsert t.roles)
        rw [putTables, createRoleAliasIfFree_eq]
      · rw [putTables, createRoleAliasIfFree_eq]
        rfl
      · rw [putTables, createRoleAliasIfFree_eq]
        rfl
      · rw [putTables, createRoleAliasIfFree_eq]
        rfl

/-- **Writing roles and aliases again** after some of them were written changes no row. -/
theorem agree_putTables (hfirst : first <+: writes) :
    (putTables writes t).Agree (putTables writes (putTables first t)) := by
  refine ⟨UniqueTable.sameRows_foldl_upsert ?_, ?_, .refl, .refl, .refl⟩
  · exact (hfirst.filterMap RoleWrite.row?).subset
  · have hagain := sameRows_recordAliases (t := t) (hfirst.filterMap RoleWrite.record?)
    have hsame : (recordAliases (writes.filterMap RoleWrite.record?) (putTables first t)).aliases =
        (recordAliases (writes.filterMap RoleWrite.record?)
          (recordAliases (first.filterMap RoleWrite.record?) t)).aliases :=
      aliases_recordAliases rfl
    intro r
    show _ ↔ r ∈ (recordAliases _ (putTables first t)).aliases.rows
    rw [hsame]
    exact (hagain r).symm

/-- A role that was there is there. -/
theorem loadRoleById_putTables (writes : List RoleWrite) {role : ArchitectureRoleRecord} {roleId : String}
    (h : loadRoleById t roleId = some role) :
    ∃ role', loadRoleById (putTables writes t) roleId = some role' := by
  have hfound : ∀ (rows : List ArchitectureRoleRecord)
      (roles : UniqueTable ArchitectureRoleRecord (·.roleId)),
      (findRow (·.roleId) roleId roles.rows).isSome →
        (findRow (·.roleId) roleId (rows.foldl UniqueTable.upsert roles).rows).isSome := by
    intro rows
    induction rows with
    | nil => exact fun _ h => h
    | cons row rest ih =>
      intro roles h
      refine ih _ ?_
      rw [UniqueTable.findRow_upsert]
      split_ifs
      · rfl
      · exact h
  refine Option.isSome_iff_exists.mp (hfound _ _ ?_)
  rw [← loadRoleById, h]
  rfl

end Put

/-! ## Splits -/

section Split

variable {splitSpec : RoleSplitSpecFile} {source : ArchitectureRoleRecord} {n : ℕ}

/-- The roles and aliases of a split, under the identifiers made from their keys. -/
def splitRoleWrites (services : RoleServices Body) (splitSpec : RoleSplitSpecFile) :
    List RoleWrite :=
  splitSpec.targetRoles.flatMap fun target =>
    .putRole (splitTargetRole services target) ::
      target.aliasKeys.map fun aliasKey =>
        .recordAlias
          (proposalAlias (splitTargetRole services target).roleId aliasKey "split_role")

theorem identified_splitTargetRole (target : RoleSplitTargetRole) :
    (splitTargetRole services target).Identified services.toRoleIdentity :=
  (deterministicRoleId_normalizeRoleKey target.canonicalKey).symm

theorem identified_splitRoleWrites :
    ∀ write ∈ splitRoleWrites services splitSpec, write.Identified services.toRoleIdentity := by
  intro write hwrite
  obtain ⟨target, -, hwrite⟩ := List.mem_flatMap.mp hwrite
  rcases List.mem_cons.mp hwrite with rfl | hwrite
  · exact identified_splitTargetRole target
  · obtain ⟨aliasKey, -, rfl⟩ := List.mem_map.mp hwrite
    exact trivial

theorem splitTargetWrites_eq (ht : t.WellFormed services.toRoleIdentity) :
    splitSpec.targetRoles.flatMap (splitTargetWrites services t) =
      (splitRoleWrites services splitSpec).map RoleWrite.write := by
  rw [splitRoleWrites, List.map_flatMap]
  refine List.flatMap_congr fun target _ => ?_
  rw [splitTargetWrites, persistedRoleId_eq ht (identified_splitTargetRole target), List.map_cons,
    List.map_map]
  rfl

/-- The record of a split that gave a status to so many assignments. -/
def splitRecord (services : RoleServices Body) (proposalId sourceRoleId : String)
    (splitSpec : RoleSplitSpecFile) (invalidated : ℕ) :
    ArchitectureRoleAssignmentMigrationRecord :=
  splitMigrationRecord services proposalId sourceRoleId invalidated
    (splitSpec.targetRoles.map fun target => (splitTargetRole services target).roleId)
    splitSpec.note

theorem splitRecord_inj {invalidated invalidated' : ℕ}
    (h : splitRecord services proposalId sourceRoleId splitSpec invalidated =
      splitRecord services proposalId sourceRoleId splitSpec invalidated') :
    invalidated = invalidated' := by
  have hsummary := congrArg (·.summary.get "invalidated_assignments") h
  have hnumber : some (JsonValue.ofNat invalidated) = some (JsonValue.ofNat invalidated') :=
    hsummary
  rw [Option.some.injEq, JsonValue.ofNat, JsonValue.ofNat, JsonValue.number.injEq] at hnumber
  exact_mod_cast hnumber

/-- The status that a split gives to the assignments. -/
def withSplitStatus (services : RoleServices Body) (proposalId : String)
    (listed : List ArchitectureRoleAssignment) (t : RoleTables) : RoleTables :=
  withStatuses .needsReview "role split requires reclassification"
    (some (services.deterministicMigrationId proposalId "split_role")) listed t

/-- The tables after a split that did not stop. -/
def splitResult (services : RoleServices Body) (proposalId sourceRoleId : String)
    (splitSpec : RoleSplitSpecFile) (t : RoleTables) : RoleTables :=
  insertAssignmentMigrationRecord
    (splitRecord services proposalId sourceRoleId splitSpec
      (listActiveCurrentAssignmentsForRole t sourceRoleId).length)
    (withSplitStatus services proposalId (listActiveCurrentAssignmentsForRole t sourceRoleId)
      (putTables (splitRoleWrites services splitSpec) t))

theorem split_plan (proposalId : String) (splitSpec : RoleSplitSpecFile)
    (ht : t.WellFormed services.toRoleIdentity)
    (hsource : loadRoleById t sourceRoleId = some source) :
    ∃ plan, applySplitRoleProposal services proposalId t sourceRoleId splitSpec = .ok plan ∧
      plan.writes =
        (splitRoleWrites services splitSpec).map RoleWrite.write ++
          ((listActiveCurrentAssignmentsForRole t sourceRoleId).map
            (updateStatusWrite .needsReview "role split requires reclassification"
              (some (services.deterministicMigrationId proposalId "split_role"))) ++
          [fun t' => some (insertAssignmentMigrationRecord
            (splitRecord services proposalId sourceRoleId splitSpec
              (listActiveCurrentAssignmentsForRole t sourceRoleId).length) t')]) := by
  obtain rfl : source.roleId = sourceRoleId := (loadRoleById_eq_some hsource).2
  have hcreated : (splitSpec.targetRoles.map fun target =>
      persistedRoleId t (splitTargetRole services target)) =
        splitSpec.targetRoles.map fun target => (splitTargetRole services target).roleId :=
    List.map_congr_left fun target _ => persistedRoleId_eq ht (identified_splitTargetRole target)
  unfold applySplitRoleProposal
  rw [hsource]
  refine ⟨_, rfl, ?_⟩
  dsimp only
  rw [splitTargetWrites_eq ht, hcreated, List.append_assoc]
  rfl

theorem split_completes (proposalId : String) (splitSpec : RoleSplitSpecFile)
    (huuid : Function.Injective services.deterministicUuid)
    (ht : t.WellFormed services.toRoleIdentity)
    (hsource : loadRoleById t sourceRoleId = some source) :
    Completes services proposalId (.splitRole sourceRoleId splitSpec) t
      (splitResult services proposalId sourceRoleId splitSpec t) := by
  obtain ⟨plan, hplan, hwrites⟩ := split_plan proposalId splitSpec ht hsource
  refine ⟨plan, hplan, ?_⟩
  rw [hwrites, runWrites_append, runWrites_roleWrites huuid ht identified_splitRoleWrites,
    if_pos rfl, Option.map_none, runWrites_append, runWrites_withStatuses nodup_listActive,
    if_pos rfl, Option.map_none]
  rfl

theorem wellFormed_splitResult (ht : t.WellFormed services.toRoleIdentity) :
    (splitResult services proposalId sourceRoleId splitSpec t).WellFormed
      services.toRoleIdentity :=
  (wellFormed_withStatuses
    (wellFormed_putTables ht identified_splitRoleWrites)).congr rfl rfl

/-- **A split stopped before it was marked** counts no assignment when it is made again. -/
theorem split_misleads (huuid : Function.Injective services.deterministicUuid)
    (ht : t.WellFormed services.toRoleIdentity)
    (hactive : listActiveCurrentAssignmentsForRole t sourceRoleId ≠ []) :
    Misleads services proposalId (.splitRole sourceRoleId splitSpec) t := by
  intro plan u hplan hrun
  have happly : applySplitRoleProposal services proposalId t sourceRoleId splitSpec = .ok plan :=
    hplan
  cases hsource : loadRoleById t sourceRoleId with
  | none => simp [applySplitRoleProposal, hsource] at happly
  | some source =>
    obtain rfl := completes_unique (split_completes proposalId splitSpec huuid ht hsource)
      ⟨plan, hplan, hrun⟩
    have hstopped : stoppedTables plan plan.writes.length t =
        splitResult services proposalId sourceRoleId splitSpec t := by
      rw [stoppedTables, List.take_length, hrun]
    obtain ⟨source', hsource'⟩ :=
      loadRoleById_putTables (splitRoleWrites services splitSpec) hsource
    have hnone : listActiveCurrentAssignmentsForRole
        (splitResult services proposalId sourceRoleId splitSpec t) sourceRoleId = [] := by
      refine List.eq_nil_iff_forall_not_mem.mpr fun a ha => ?_
      obtain ⟨ha, hrole, hstatus⟩ := mem_listActive.mp ha
      rcases mem_giveStatus.mp ha with ⟨hat, hunlisted⟩ | ⟨b, -, -, rfl⟩
      · exact hunlisted (List.mem_map_of_mem (mem_listActive.mpr ⟨hat, hrole, hstatus⟩))
      · exact AssignmentStatus.noConfusion hstatus
    refine ⟨_, le_rfl, splitResult services proposalId sourceRoleId splitSpec
      (splitResult services proposalId sourceRoleId splitSpec t), ?_, fun hagree => ?_⟩
    · rw [hstopped]
      exact split_completes proposalId splitSpec huuid (wellFormed_splitResult ht) hsource'
    · have hmade : splitRecord services proposalId sourceRoleId splitSpec
          (listActiveCurrentAssignmentsForRole t sourceRoleId).length ∈
            (splitResult services proposalId sourceRoleId splitSpec t).migrations.rows :=
        UniqueTable.mem_upsert.mpr (.inl rfl)
      rcases UniqueTable.mem_upsert.mp ((hagree.migrations _).mp hmade) with hsame | ⟨-, hkey⟩
      · have hcount := splitRecord_inj hsame
        rw [hnone, List.length_nil, List.length_eq_zero_iff] at hcount
        exact hactive hcount
      · exact hkey rfl

/-- A split of a role without active assignments puts its roles and aliases, and makes its
record last. -/
theorem stopped_split (huuid : Function.Injective services.deterministicUuid)
    (ht : t.WellFormed services.toRoleIdentity)
    (hsource : loadRoleById t sourceRoleId = some source)
    (hnone : listActiveCurrentAssignmentsForRole t sourceRoleId = [])
    (hplan : applySplitRoleProposal services proposalId t sourceRoleId splitSpec = .ok plan)
    (n : ℕ) :
    ∃ records, records <+: [splitRecord services proposalId sourceRoleId splitSpec
        (listActiveCurrentAssignmentsForRole t sourceRoleId).length] ∧
      stoppedTables plan n t =
        { putTables ((splitRoleWrites services splitSpec).take n) t with
          migrations := records.foldl UniqueTable.upsert t.migrations } := by
  obtain ⟨plan', hplan', hwrites⟩ := split_plan proposalId splitSpec ht hsource
  cases hplan.symm.trans hplan'
  have hidentified : ∀ write ∈ (splitRoleWrites services splitSpec).take n,
      write.Identified services.toRoleIdentity :=
    fun write hwrite => identified_splitRoleWrites write (List.mem_of_mem_take hwrite)
  have hrun := runWrites_roleWrites huuid ht hidentified
  refine ⟨_, List.take_prefix (n - (splitRoleWrites services splitSpec).length) _, ?_⟩
  rw [stoppedTables, hwrites, hnone, List.map_nil, List.nil_append, List.take_append,
    ← List.map_take, List.length_map, runWrites_append, hrun, if_pos rfl, Option.map_none]
  cases n - (splitRoleWrites services splitSpec).length with
  | zero => rfl
  | succ k =>
    rw [List.take_succ_cons, List.take_nil, List.take_succ_cons, List.take_nil]
    rfl

/-- The split made again after a part of it leaves the same rows. -/
theorem agree_splitResult {records : List ArchitectureRoleAssignmentMigrationRecord}
    (hrecords : records <+: [splitRecord services proposalId sourceRoleId splitSpec
      (listActiveCurrentAssignmentsForRole t sourceRoleId).length])
    (ht' : t' =
      { putTables ((splitRoleWrites services splitSpec).take n) t with
        migrations := records.foldl UniqueTable.upsert t.migrations }) :
    (splitResult services proposalId sourceRoleId splitSpec t).Agree
      (splitResult services proposalId sourceRoleId splitSpec t') := by
  subst ht'
  have hput : (putTables (splitRoleWrites services splitSpec) t).Agree
      (putTables (splitRoleWrites services splitSpec)
        (putTables ((splitRoleWrites services splitSpec).take n) t)) :=
    agree_putTables (List.take_prefix _ _)
  refine ⟨hput.roles, ?_, .refl, .refl, ?_⟩
  · refine hput.aliases.trans fun r => ?_
    have hsame : (putTables (splitRoleWrites services splitSpec)
        (putTables ((splitRoleWrites services splitSpec).take n) t)).aliases = _ :=
      aliases_recordAliases (t := { putTables ((splitRoleWrites services splitSpec).take n) t with
        migrations := records.foldl UniqueTable.upsert t.migrations }) rfl
    rw [hsame]
    rfl
  · have hmigrations : [splitRecord services proposalId sourceRoleId splitSpec
        (listActiveCurrentAssignmentsForRole t sourceRoleId).length].foldl UniqueTable.upsert
          (records.foldl UniqueTable.upsert t.migrations) = _ := foldl_upsert_again hrecords
    show UniqueTable.SameRows (t.migrations.upsert _)
      ([splitRecord services proposalId sourceRoleId splitSpec
        (listActiveCurrentAssignmentsForRole t sourceRoleId).length].foldl UniqueTable.upsert
          (records.foldl UniqueTable.upsert t.migrations))
    rw [hmigrations]
    exact .refl

/-- **A stopped split of a role without active assignments** is completed by the next call. -/
theorem split_resumes (huuid : Function.Injective services.deterministicUuid)
    (ht : t.WellFormed services.toRoleIdentity)
    (hnone : listActiveCurrentAssignmentsForRole t sourceRoleId = []) :
    Resumes services proposalId (.splitRole sourceRoleId splitSpec) t := by
  intro plan u n hplan hrun
  have happly : applySplitRoleProposal services proposalId t sourceRoleId splitSpec = .ok plan :=
    hplan
  cases hsource : loadRoleById t sourceRoleId with
  | none => simp [applySplitRoleProposal, hsource] at happly
  | some source =>
    obtain rfl := completes_unique (split_completes proposalId splitSpec huuid ht hsource)
      ⟨plan, hplan, hrun⟩
    obtain ⟨records, hrecords, hstopped⟩ := stopped_split huuid ht hsource hnone hplan n
    have hwell : (stoppedTables plan n t).WellFormed services.toRoleIdentity := by
      rw [hstopped]
      refine (wellFormed_putTables ht fun write hwrite => ?_).congr rfl rfl
      exact identified_splitRoleWrites write (List.mem_of_mem_take hwrite)
    obtain ⟨source', hsource'⟩ :=
      loadRoleById_putTables ((splitRoleWrites services splitSpec).take n) hsource
    have hread : loadRoleById (stoppedTables plan n t) sourceRoleId = some source' :=
      hstopped ▸ hsource'
    have hlisted : listActiveCurrentAssignmentsForRole (stoppedTables plan n t) sourceRoleId =
        listActiveCurrentAssignmentsForRole t sourceRoleId := by
      rw [hstopped]
      rfl
    exact ⟨hwell, hlisted.trans hnone, _,
      split_completes proposalId splitSpec huuid hwell hread, agree_splitResult hrecords hstopped⟩

end Split

end ArchitectureRoles
end Bitloops
