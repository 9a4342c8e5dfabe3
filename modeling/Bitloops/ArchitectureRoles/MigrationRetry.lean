import Bitloops.ArchitectureRoles.AliasRetry

/-!
# Migrations that are made again

A call that stopped has moved the first of the active assignments; the next one lists the others
and moves these.  Both together move what one call moves.  The record of an assignment that was
moved but not recorded is not made by the next call.
-/

namespace Bitloops
namespace ArchitectureRoles

open Checkpoints

variable {Body : Type} {services : RoleServices Body}
  {proposalId sourceRoleId targetRoleId migrationKind : String} {t t' u : RoleTables}
  {moved : List ArchitectureRoleAssignment} {m m' n : ℕ}

/-! ## The loop, stopped -/

/-- The records of the moved assignments. -/
def recordMigrations (services : RoleServices Body)
    (proposalId targetRoleId migrationKind : String) (moved : List ArchitectureRoleAssignment)
    (migrations : UniqueTable ArchitectureRoleAssignmentMigrationRecord (·.migrationId)) :
    UniqueTable ArchitectureRoleAssignmentMigrationRecord (·.migrationId) :=
  (moved.map (assignmentMigrationRecord services proposalId targetRoleId migrationKind)).foldl
    UniqueTable.upsert migrations

/-- The tables after some roles were put, aliases recorded, assignments moved and moves
recorded. -/
def migratedTables (services : RoleServices Body)
    (proposalId targetRoleId migrationKind : String) (rows : List ArchitectureRoleRecord)
    (records : List ArchitectureRoleAliasRecord)
    (moved recorded : List ArchitectureRoleAssignment) (t : RoleTables) : RoleTables where
  roles := rows.foldl UniqueTable.upsert t.roles
  aliases := (recordAliases records t).aliases
  rules := t.rules
  assignments :=
    migrateAll services.toRoleIdentity targetRoleId migrationKind
      (assignmentMigrationId services proposalId migrationKind) moved t.assignments
  migrations :=
    recordMigrations services proposalId targetRoleId migrationKind recorded t.migrations

/-- Each assignment is moved by one write and recorded by the next. -/
theorem runWrites_take_migrateAssignments (moved : List ArchitectureRoleAssignment) (n : ℕ) :
    runWrites none
        ((moved.flatMap
          (migrateAssignmentToRole services proposalId targetRoleId migrationKind)).take n) t =
      (migratedTables services proposalId targetRoleId migrationKind [] []
        (moved.take ((n + 1) / 2)) (moved.take (n / 2)) t, true) := by
  induction moved generalizing t n with
  | nil => simp [migratedTables, migrateAll, recordMigrations, recordAliases]
  | cons a rest ih =>
    obtain _ | _ | n := n
    · rfl
    · rfl
    · have hmoved : (n + 2 + 1) / 2 = (n + 1) / 2 + 1 := by omega
      have hrecorded : (n + 2) / 2 = n / 2 + 1 := by omega
      rw [hmoved, hrecorded, List.take_succ_cons, List.take_succ_cons]
      exact ih n

theorem length_migrateAssignments (moved : List ArchitectureRoleAssignment) :
    (moved.flatMap
      (migrateAssignmentToRole services proposalId targetRoleId migrationKind)).length =
        2 * moved.length := by
  induction moved with
  | nil => rfl
  | cons a rest ih =>
    rw [List.flatMap_cons, List.length_append, ih, List.length_cons]
    show 2 + 2 * rest.length = 2 * (rest.length + 1)
    omega

theorem runWrites_moveAssignments (moved : List ArchitectureRoleAssignment) :
    runWrites none
        (moved.flatMap (migrateAssignmentToRole services proposalId targetRoleId migrationKind))
        t =
      (migratedTables services proposalId targetRoleId migrationKind [] [] moved moved t, true) := by
  have hrun : runWrites none
      ((moved.flatMap
        (migrateAssignmentToRole services proposalId targetRoleId migrationKind)).take
          (2 * moved.length)) t = _ :=
    runWrites_take_migrateAssignments moved (2 * moved.length)
  rwa [List.take_of_length_le (length_migrateAssignments moved).le,
    List.take_of_length_le (by omega), List.take_of_length_le (by omega)] at hrun

/-! ## What is listed again -/

section Listing

variable {ident : RoleIdentity} {migrationId : ArchitectureRoleAssignment → String}

theorem pairwise_listActive :
    (listActiveCurrentAssignmentsForRole t sourceRoleId).Pairwise
      fun a b => a.assignmentId ≤ b.assignmentId :=
  (pairwise_orderBy _ _).filter _

/-- The moved assignments, for a part of the active ones. -/
theorem mem_migrateAll_take (ht : t.WellFormed ident)
    (huuid : Function.Injective ident.deterministicUuid) {b : ArchitectureRoleAssignment} :
    b ∈ (migrateAll ident targetRoleId migrationKind migrationId
        ((listActiveCurrentAssignmentsForRole t sourceRoleId).take m) t.assignments).rows ↔
      (∃ a ∈ (listActiveCurrentAssignmentsForRole t sourceRoleId).take m,
          b = sourceNext ident a targetRoleId (migrationId a)) ∨
        (∃ a ∈ (listActiveCurrentAssignmentsForRole t sourceRoleId).take m,
          b = targetNext ident a targetRoleId (migrationId a) migrationKind ∧
            ident.assignmentId targetRoleId a.target ∉
              t.assignments.rows.map (·.assignmentId)) ∨
        (b ∈ t.assignments.rows ∧
          ∀ a ∈ (listActiveCurrentAssignmentsForRole t sourceRoleId).take m,
            b.assignmentId ≠ a.assignmentId) := by
  refine mem_migrateAll (fun a ha => ?_) ?_ fun a ha b hb => ?_
  · exact (mem_listActive.mp (List.mem_of_mem_take ha)).1
  · exact nodup_listActive.sublist ((List.take_sublist _ _).map _)
  · exact ht.assignmentId_eq huuid (List.mem_of_mem_take ha) (List.mem_of_mem_take hb)

/-- **The assignments that were not moved** are listed by the next call. -/
theorem listActive_of_migrateAll_take (ht : t.WellFormed ident)
    (huuid : Function.Injective ident.deterministicUuid)
    (hassignments : t'.assignments = migrateAll ident targetRoleId migrationKind migrationId
      ((listActiveCurrentAssignmentsForRole t sourceRoleId).take m) t.assignments) :
    listActiveCurrentAssignmentsForRole t' sourceRoleId =
      (listActiveCurrentAssignmentsForRole t sourceRoleId).drop m := by
  have hnodup : ((listActiveCurrentAssignmentsForRole t sourceRoleId).map
      (·.assignmentId)).Nodup := nodup_listActive
  refine eq_of_pairwise_key pairwise_listActive
    (pairwise_listActive.sublist (List.drop_sublist _ _)) nodup_listActive
    (hnodup.sublist ((List.drop_sublist _ _).map _)) fun b => ?_
  rw [mem_listActive, hassignments, mem_migrateAll_take ht huuid]
  constructor
  · rintro ⟨⟨a, -, rfl⟩ | ⟨a, ha, rfl, hunused⟩ | ⟨hb, hother⟩, hrole, hactive⟩
    · exact absurd hactive AssignmentStatus.noConfusion
    · obtain ⟨hat, harole, -⟩ := mem_listActive.mp (List.mem_of_mem_take ha)
      have hid : ident.assignmentId targetRoleId a.target = a.assignmentId := by
        rw [ht.assignmentIds a hat, harole]
        exact congrArg (fun role => ident.assignmentId role a.target) hrole
      exact absurd (hid ▸ List.mem_map_of_mem hat) hunused
    · have hlisted := mem_listActive.mpr ⟨hb, hrole, hactive⟩
      rw [← List.take_append_drop m (listActiveCurrentAssignmentsForRole t sourceRoleId)]
        at hlisted
      exact (List.mem_append.mp hlisted).resolve_left fun h => hother b h rfl
  · intro hb
    obtain ⟨hbt, hrole, hactive⟩ := mem_listActive.mp (List.mem_of_mem_drop hb)
    refine ⟨.inr (.inr ⟨hbt, fun a ha hid => ?_⟩), hrole, hactive⟩
    rw [← List.take_append_drop m (listActiveCurrentAssignmentsForRole t sourceRoleId),
      List.map_append, List.nodup_append] at hnodup
    exact hnodup.2.2 _ (List.mem_map_of_mem ha) _ (List.mem_map_of_mem hb) hid.symm

theorem migrateAll_append {first second : List ArchitectureRoleAssignment}
    {assignments : AssignmentTable} :
    migrateAll ident targetRoleId migrationKind migrationId second
        (migrateAll ident targetRoleId migrationKind migrationId first assignments) =
      migrateAll ident targetRoleId migrationKind migrationId (first ++ second) assignments :=
  List.foldl_append.symm

theorem assignmentIds_migrateAll_take (ht : t.WellFormed ident)
    (huuid : Function.Injective ident.deterministicUuid) :
    ∀ a ∈ (migrateAll ident targetRoleId migrationKind migrationId
        ((listActiveCurrentAssignmentsForRole t sourceRoleId).take m) t.assignments).rows,
      a.assignmentId = ident.assignmentId a.roleId a.target := by
  intro b hb
  rcases (mem_migrateAll_take ht huuid).mp hb with ⟨a, ha, rfl⟩ | ⟨a, ha, rfl, -⟩ | ⟨hb, -⟩
  · exact ht.assignmentIds a (mem_listActive.mp (List.mem_of_mem_take ha)).1
  · rfl
  · exact ht.assignmentIds b hb

end Listing

/-! ## Migrations that are recorded -/

section Recorded

theorem assignmentMigrationId_inj (huuid : Function.Injective services.deterministicUuid)
    {a b : ArchitectureRoleAssignment}
    (h : assignmentMigrationId services proposalId migrationKind a =
      assignmentMigrationId services proposalId migrationKind b) :
    a.assignmentId = b.assignmentId := by
  have htext := String.append_left_inj _ |>.mp (String.append_left_inj _ |>.mp (huuid h))
  exact String.append_right_inj _ |>.mp (String.append_right_inj _ |>.mp htext)

/-- Recording moves that are on record changes nothing. -/
theorem recordMigrations_of_mem
    {migrations : UniqueTable ArchitectureRoleAssignmentMigrationRecord (·.migrationId)}
    (h : ∀ a ∈ moved, assignmentMigrationRecord services proposalId targetRoleId migrationKind a ∈
      migrations.rows) :
    recordMigrations services proposalId targetRoleId migrationKind moved migrations =
      migrations := by
  refine UniqueTable.foldl_upsert_of_mem fun r hr => ?_
  obtain ⟨a, ha, rfl⟩ := List.mem_map.mp hr
  exact h a ha

theorem mem_recordMigrations (huuid : Function.Injective services.deterministicUuid)
    {migrations : UniqueTable ArchitectureRoleAssignmentMigrationRecord (·.migrationId)}
    (hnodup : (moved.map (·.assignmentId)).Nodup) {a : ArchitectureRoleAssignment}
    (ha : a ∈ moved) :
    assignmentMigrationRecord services proposalId targetRoleId migrationKind a ∈
      (recordMigrations services proposalId targetRoleId migrationKind moved migrations).rows := by
  refine UniqueTable.mem_foldl_upsert ?_ (List.mem_map_of_mem ha)
  rw [List.map_map]
  have hids : (moved.map (assignmentMigrationId services proposalId migrationKind)).Nodup :=
    List.Nodup.map_on
      (fun x hx y hy h => List.inj_on_of_nodup_map hnodup hx hy (assignmentMigrationId_inj huuid h))
      (List.Nodup.of_map _ hnodup)
  exact hids

/-- Only the recorded moves are on record. -/
theorem of_mem_recordMigrations (huuid : Function.Injective services.deterministicUuid)
    {migrations : UniqueTable ArchitectureRoleAssignmentMigrationRecord (·.migrationId)}
    {a : ArchitectureRoleAssignment}
    (h : assignmentMigrationRecord services proposalId targetRoleId migrationKind a ∈
      (recordMigrations services proposalId targetRoleId migrationKind moved migrations).rows) :
    assignmentMigrationRecord services proposalId targetRoleId migrationKind a ∈
        migrations.rows ∨
      a.assignmentId ∈ moved.map (·.assignmentId) := by
  rcases UniqueTable.mem_of_mem_foldl_upsert h with h | h
  · exact .inl h
  · obtain ⟨b, hb, hrecord⟩ := List.mem_map.mp h
    have hid := assignmentMigrationId_inj huuid (congrArg (·.migrationId) hrecord)
    exact .inr (List.mem_map.mpr ⟨b, hb, hid⟩)

end Recorded

/-! ## Proposals that migrate -/

/-- The tables where a migration of all active assignments of the source role stopped. -/
def StoppedMigration (services : RoleServices Body)
    (proposalId sourceRoleId targetRoleId migrationKind : String) (row : ArchitectureRoleRecord)
    (records : List ArchitectureRoleAliasRecord) (m m' : ℕ) (t t' : RoleTables) : Prop :=
  ∃ rows first, rows <+: [row] ∧ first <+: records ∧
    t' = migratedTables services proposalId targetRoleId migrationKind rows first
      ((listActiveCurrentAssignmentsForRole t sourceRoleId).take m)
      ((listActiveCurrentAssignmentsForRole t sourceRoleId).take m') t

/-- The tables after a migration that did not stop. -/
def completeMigration (services : RoleServices Body)
    (proposalId sourceRoleId targetRoleId migrationKind : String) (row : ArchitectureRoleRecord)
    (records : List ArchitectureRoleAliasRecord) (t : RoleTables) : RoleTables :=
  migratedTables services proposalId targetRoleId migrationKind [row] records
    (listActiveCurrentAssignmentsForRole t sourceRoleId)
    (listActiveCurrentAssignmentsForRole t sourceRoleId) t

/-- What the calls of a proposal that migrates leave, from the tables. -/
structure IsMigration (services : RoleServices Body) (proposalId : String)
    (request : ProposalRequest Body) (sourceRoleId targetRoleId migrationKind : String)
    (row : ArchitectureRoleRecord) (records : List ArchitectureRoleAliasRecord)
    (t : RoleTables) : Prop where
  completes : Completes services proposalId request t
    (completeMigration services proposalId sourceRoleId targetRoleId migrationKind row records t)
  stopped : ∀ plan n, proposalPlan services proposalId request t = .ok plan →
    ∃ m m', StoppedMigration services proposalId sourceRoleId targetRoleId migrationKind row
      records m m' t (stoppedTables plan n t)
  /-- The plan may stop between the move of an assignment and the record of it. -/
  between : ∀ plan, proposalPlan services proposalId request t = .ok plan →
    ∀ k < (listActiveCurrentAssignmentsForRole t sourceRoleId).length,
      ∃ n ≤ plan.writes.length,
        StoppedMigration services proposalId sourceRoleId targetRoleId migrationKind row records
          (k + 1) k t (stoppedTables plan n t)
  again : ∀ m m' t', StoppedMigration services proposalId sourceRoleId targetRoleId migrationKind
      row records m m' t t' →
    Completes services proposalId request t'
      (completeMigration services proposalId sourceRoleId targetRoleId migrationKind row records
        t')

section Migrates

variable {request : ProposalRequest Body} {row : ArchitectureRoleRecord}
  {records first : List ArchitectureRoleAliasRecord} {rows : List ArchitectureRoleRecord}

theorem eq_nil_or_eq_of_prefix {α : Type*} {l : List α} {a : α} (h : l <+: [a]) :
    l = [] ∨ l = [a] := by
  rcases List.prefix_cons_iff.mp h with rfl | ⟨rest, rfl, hrest⟩
  · exact .inl rfl
  · rw [List.prefix_nil.mp hrest]
    exact .inr rfl

theorem foldl_upsert_again {ρ κ : Type*} {key : ρ → κ} [DecidableEq κ] {r : ρ} {rows : List ρ}
    {table : UniqueTable ρ key} (h : rows <+: [r]) :
    [r].foldl UniqueTable.upsert (rows.foldl UniqueTable.upsert table) = table.upsert r := by
  rcases eq_nil_or_eq_of_prefix h with rfl | rfl
  · rfl
  · exact UniqueTable.upsert_upsert

/-- Recording aliases depends on the aliases alone. -/
theorem sameRows_recordAliases_congr (h : t.aliases.SameRows t'.aliases) :
    (recordAliases records t).aliases.SameRows (recordAliases records t').aliases := by
  refine UniqueTable.sameRows_iff_findRow.mpr fun k => ?_
  rw [findRow_recordAliases, findRow_recordAliases, UniqueTable.sameRows_iff_findRow.mp h k]

variable (ht : t.WellFormed services.toRoleIdentity)
  (huuid : Function.Injective services.deterministicUuid)

include ht huuid

theorem StoppedMigration.listActive
    (h : StoppedMigration services proposalId sourceRoleId targetRoleId migrationKind row records
      m m' t t') :
    listActiveCurrentAssignmentsForRole t' sourceRoleId =
      (listActiveCurrentAssignmentsForRole t sourceRoleId).drop m := by
  obtain ⟨rows, first, -, -, rfl⟩ := h
  exact listActive_of_migrateAll_take ht huuid rfl

theorem StoppedMigration.wellFormed (hrow : row.toRow = row)
    (hidentified : row.Identified services.toRoleIdentity)
    (h : StoppedMigration services proposalId sourceRoleId targetRoleId migrationKind row records
      m m' t t') :
    t'.WellFormed services.toRoleIdentity := by
  obtain ⟨rows, first, hrows, -, rfl⟩ := h
  have hids : ∀ a ∈ (migrateAll services.toRoleIdentity targetRoleId migrationKind
      (assignmentMigrationId services proposalId migrationKind)
      ((listActiveCurrentAssignmentsForRole t sourceRoleId).take m) t.assignments).rows,
      a.assignmentId = services.assignmentId a.roleId a.target :=
    assignmentIds_migrateAll_take ht huuid
  rcases eq_nil_or_eq_of_prefix hrows with rfl | rfl
  · exact ⟨ht.normalized, ht.roleIds, hids⟩
  · have hput := wellFormed_upsert_role ht hidentified
    rw [hrow] at hput
    exact ⟨hput.normalized, hput.roleIds, hids⟩

/-- **A stopped migration made again** leaves the rows of one call, apart from the records. -/
theorem StoppedMigration.complete
    (h : StoppedMigration services proposalId sourceRoleId targetRoleId migrationKind row records
      m m' t t') :
    let complete := completeMigration services proposalId sourceRoleId targetRoleId migrationKind
      row records t
    let again := completeMigration services proposalId sourceRoleId targetRoleId migrationKind
      row records t'
    complete.roles = again.roles ∧ complete.aliases.SameRows again.aliases ∧
      complete.rules = again.rules ∧ complete.assignments = again.assignments ∧
      again.migrations =
        recordMigrations services proposalId targetRoleId migrationKind
          ((listActiveCurrentAssignmentsForRole t sourceRoleId).drop m)
          (recordMigrations services proposalId targetRoleId migrationKind
            ((listActiveCurrentAssignmentsForRole t sourceRoleId).take m') t.migrations) := by
  intro complete again
  have hlisted := h.listActive ht huuid
  obtain ⟨rows, first, hrows, hfirst, rfl⟩ := h
  refine ⟨(foldl_upsert_again hrows).symm, ?_, rfl, ?_, ?_⟩
  · have hsame : complete.aliases.SameRows (recordAliases records
        (recordAliases first t)).aliases := fun r => (sameRows_recordAliases hfirst r).symm
    exact hsame.trans (sameRows_recordAliases_congr (.refl (t := (recordAliases first t).aliases)))
  · show _ = migrateAll _ _ _ _ (listActiveCurrentAssignmentsForRole _ sourceRoleId) _
    rw [hlisted]
    refine Eq.trans ?_ migrateAll_append.symm
    rw [List.take_append_drop]
    rfl
  · show recordMigrations _ _ _ _ (listActiveCurrentAssignmentsForRole _ sourceRoleId) _ = _
    rw [hlisted]
    rfl

/-- **A stopped migration** is completed by the next call when the moves are on record. -/
theorem IsMigration.resumes (hrow : row.toRow = row)
    (hidentified : row.Identified services.toRoleIdentity)
    (hmigration : IsMigration services proposalId request sourceRoleId targetRoleId migrationKind
      row records t)
    (hrequest : ∀ t, RepeatsItself services proposalId request t ↔
      MigrationsRecorded services proposalId migrationKind sourceRoleId targetRoleId t)
    (hrecorded : MigrationsRecorded services proposalId migrationKind sourceRoleId targetRoleId
      t) : Resumes services proposalId request t := by
  intro plan u n hplan hrun
  obtain rfl := completes_unique hmigration.completes ⟨plan, hplan, hrun⟩
  obtain ⟨m, m', hstopped⟩ := hmigration.stopped plan n hplan
  have hlisted := hstopped.listActive ht huuid
  obtain ⟨hroles, haliases, hrules, hassignments, hmigrations⟩ := hstopped.complete ht huuid
  have hall : recordMigrations services proposalId targetRoleId migrationKind
      (listActiveCurrentAssignmentsForRole t sourceRoleId) t.migrations = t.migrations :=
    recordMigrations_of_mem hrecorded
  have htaken : recordMigrations services proposalId targetRoleId migrationKind
      ((listActiveCurrentAssignmentsForRole t sourceRoleId).take m') t.migrations =
        t.migrations :=
    recordMigrations_of_mem fun a ha => hrecorded a (List.mem_of_mem_take ha)
  have hdropped : recordMigrations services proposalId targetRoleId migrationKind
      ((listActiveCurrentAssignmentsForRole t sourceRoleId).drop m) t.migrations =
        t.migrations :=
    recordMigrations_of_mem fun a ha => hrecorded a (List.mem_of_mem_drop ha)
  refine ⟨hstopped.wellFormed ht huuid hrow hidentified, (hrequest _).mpr fun a ha => ?_,
    _, hmigration.again m m' _ hstopped, ?_⟩
  · rw [hlisted] at ha
    have hmem := hrecorded a (List.mem_of_mem_drop ha)
    obtain ⟨rows, first, -, -, htables⟩ := hstopped
    rw [htables]
    show _ ∈ (recordMigrations _ _ _ _ _ _).rows
    rwa [htaken]
  · rw [htaken, hdropped] at hmigrations
    have hsame : (completeMigration services proposalId sourceRoleId targetRoleId migrationKind row
        records t).migrations = t.migrations := hall
    refine ⟨?_, haliases, ?_, ?_, ?_⟩
    · rw [hroles]
      exact .refl
    · rw [hrules]
      exact .refl
    · rw [hassignments]
      exact .refl
    · rw [hsame, hmigrations]
      exact .refl

/-- **A migration stopped before a move was recorded** never records it. -/
theorem IsMigration.misleads
    (hmigration : IsMigration services proposalId request sourceRoleId targetRoleId migrationKind
      row records t)
    (hrecorded : ¬ MigrationsRecorded services proposalId migrationKind sourceRoleId targetRoleId
      t) : Misleads services proposalId request t := by
  intro plan u hplan hrun
  obtain rfl := completes_unique hmigration.completes ⟨plan, hplan, hrun⟩
  obtain ⟨a, ha⟩ := Classical.not_forall.mp hrecorded
  obtain ⟨ha, hunrecorded⟩ := Classical.not_imp.mp ha
  obtain ⟨front, back, hsplit⟩ := List.append_of_mem ha
  have hnodup : ((listActiveCurrentAssignmentsForRole t sourceRoleId).map
      (·.assignmentId)).Nodup := nodup_listActive
  have hshort : front.length < (listActiveCurrentAssignmentsForRole t sourceRoleId).length := by
    rw [hsplit, List.length_append, List.length_cons]
    omega
  obtain ⟨n, hn, hstopped⟩ := hmigration.between plan hplan front.length hshort
  obtain ⟨-, -, -, -, hmigrations⟩ := hstopped.complete ht huuid
  refine ⟨n, hn, _, hmigration.again _ _ _ hstopped, fun hagree => hunrecorded ?_⟩
  have hmade : assignmentMigrationRecord services proposalId targetRoleId migrationKind a ∈
      (completeMigration services proposalId sourceRoleId targetRoleId migrationKind row records
        t).migrations.rows := mem_recordMigrations huuid hnodup ha
  have hmade' := (hagree.migrations _).mp hmade
  have htake : (front ++ a :: back).take front.length = front := List.take_left
  have hdrop : (front ++ a :: back).drop (front.length + 1) = back :=
    List.drop_length_add_append 1
  rw [hsplit, List.map_append, List.map_cons, List.nodup_append, List.nodup_cons] at hnodup
  rw [hmigrations, hsplit, htake, hdrop] at hmade'
  rcases of_mem_recordMigrations huuid hmade' with hmade' | hback
  · rcases of_mem_recordMigrations huuid hmade' with hmem | hfront
    · exact hmem
    · exact absurd rfl (hnodup.2.2 _ hfront _ List.mem_cons_self)
  · exact absurd hback hnodup.2.1.1

end Migrates

/-- A role that was loaded is loaded again, as it was or as it was put. -/
theorem StoppedMigration.loadRoleById {row role : ArchitectureRoleRecord}
    {records : List ArchitectureRoleAliasRecord} {roleId : String}
    (h : StoppedMigration services proposalId sourceRoleId targetRoleId migrationKind row records
      m m' t t') (hrole : loadRoleById t roleId = some role) :
    ∃ role', loadRoleById t' roleId = some role' ∧
      (role' = role ∨ (role' = row ∧ row.roleId = roleId)) := by
  obtain ⟨rows, first, hrows, -, rfl⟩ := h
  rcases eq_nil_or_eq_of_prefix hrows with rfl | rfl
  · exact ⟨role, hrole, .inl rfl⟩
  · have hput : ArchitectureRoles.loadRoleById
        (migratedTables services proposalId targetRoleId migrationKind [row] first
          ((listActiveCurrentAssignmentsForRole t sourceRoleId).take m)
          ((listActiveCurrentAssignmentsForRole t sourceRoleId).take m') t) roleId =
        if roleId = row.roleId then some row else ArchitectureRoles.loadRoleById t roleId :=
      UniqueTable.findRow_upsert
    rw [hput]
    by_cases hid : roleId = row.roleId
    · exact ⟨row, if_pos hid, .inr ⟨rfl, hid.symm⟩⟩
    · exact ⟨role, (if_neg hid).trans hrole, .inl rfl⟩

/-! ## Deprecations and removals with a replacement -/

section Replacement

variable {lifecycleStatus : String} {invalidatedStatus : AssignmentStatus}
  {role replacement : ArchitectureRoleRecord} {roleId replacementRoleId : String}
  {plan : ProposalPlan}

theorem replacement_plan (services : RoleServices Body) (proposalId lifecycleStatus : String)
    (invalidatedStatus : AssignmentStatus) (hrole : loadRoleById t roleId = some role)
    (hreplacement : loadRoleById t replacementRoleId = some replacement) :
    ∃ plan, applyLifecycleRoleProposal services proposalId t roleId (some replacementRoleId)
        lifecycleStatus invalidatedStatus = .ok plan ∧
      plan.writes =
        upsertRole (withLifecycle lifecycleStatus role) ::
          (listActiveCurrentAssignmentsForRole t roleId).flatMap
            (migrateAssignmentToRole services proposalId replacementRoleId lifecycleStatus) := by
  obtain rfl : role.roleId = roleId := (loadRoleById_eq_some hrole).2
  unfold applyLifecycleRoleProposal loadReplacementRole
  rw [hrole]
  dsimp only
  rw [hreplacement]
  refine ⟨_, rfl, ?_⟩
  dsimp only
  rw [(loadRoleById_eq_some hreplacement).2]
  rfl

theorem replacement_completes (proposalId lifecycleStatus : String)
    (invalidatedStatus : AssignmentStatus)
    (huuid : Function.Injective services.deterministicUuid)
    (ht : t.WellFormed services.toRoleIdentity) (hrole : loadRoleById t roleId = some role)
    (hreplacement : loadRoleById t replacementRoleId = some replacement) :
    ∃ plan, applyLifecycleRoleProposal services proposalId t roleId (some replacementRoleId)
        lifecycleStatus invalidatedStatus = .ok plan ∧
      runWrites none plan.writes t =
        (completeMigration services proposalId roleId replacementRoleId lifecycleStatus
          (withLifecycle lifecycleStatus role).toRow [] t, true) := by
  obtain ⟨plan, hplan, hwrites⟩ := replacement_plan services proposalId lifecycleStatus
    invalidatedStatus hrole hreplacement
  have hidentified : (withLifecycle lifecycleStatus role).Identified services.toRoleIdentity :=
    identified_withLifecycle ht hrole
  refine ⟨plan, hplan, ?_⟩
  rw [hwrites, runWrites_none_cons (upsertRole_eq_upsert ht huuid hidentified),
    runWrites_moveAssignments]
  rfl

/-- The plan puts the role and then moves and records the assignments one by one. -/
theorem stopped_replacement (huuid : Function.Injective services.deterministicUuid)
    (ht : t.WellFormed services.toRoleIdentity) (hrole : loadRoleById t roleId = some role)
    (hwrites : plan.writes =
      upsertRole (withLifecycle lifecycleStatus role) ::
        (listActiveCurrentAssignmentsForRole t roleId).flatMap
          (migrateAssignmentToRole services proposalId replacementRoleId lifecycleStatus))
    (n : ℕ) :
    StoppedMigration services proposalId roleId replacementRoleId lifecycleStatus
      (withLifecycle lifecycleStatus role).toRow [] ((n + 1) / 2) (n / 2) t
      (stoppedTables plan (n + 1) t) := by
  have hidentified : (withLifecycle lifecycleStatus role).Identified services.toRoleIdentity :=
    identified_withLifecycle ht hrole
  refine ⟨_, [], List.prefix_rfl, List.prefix_rfl, ?_⟩
  rw [stoppedTables, hwrites, List.take_succ_cons,
    runWrites_none_cons (upsertRole_eq_upsert ht huuid hidentified),
    runWrites_take_migrateAssignments]
  rfl

theorem stopped_zero {row : ArchitectureRoleRecord} {records : List ArchitectureRoleAliasRecord} :
    StoppedMigration services proposalId sourceRoleId targetRoleId migrationKind row records 0 0 t
      (stoppedTables plan 0 t) :=
  ⟨[], [], List.nil_prefix, List.nil_prefix, rfl⟩

/-- A deprecation or a removal with a replacement migrates. -/
theorem isMigration_replacement {request : ProposalRequest Body}
    (huuid : Function.Injective services.deterministicUuid)
    (ht : t.WellFormed services.toRoleIdentity)
    (hrequest : ∀ t, proposalPlan services proposalId request t =
      applyLifecycleRoleProposal services proposalId t roleId (some replacementRoleId)
        lifecycleStatus invalidatedStatus)
    (hrole : loadRoleById t roleId = some role)
    (hreplacement : loadRoleById t replacementRoleId = some replacement) :
    IsMigration services proposalId request roleId replacementRoleId lifecycleStatus
      (withLifecycle lifecycleStatus role).toRow [] t := by
  have hwrites : ∀ plan, proposalPlan services proposalId request t = .ok plan →
      plan.writes =
        upsertRole (withLifecycle lifecycleStatus role) ::
          (listActiveCurrentAssignmentsForRole t roleId).flatMap
            (migrateAssignmentToRole services proposalId replacementRoleId lifecycleStatus) := by
    intro plan hplan
    obtain ⟨plan', hplan', hwrites⟩ := replacement_plan services proposalId lifecycleStatus
      invalidatedStatus hrole hreplacement
    cases (hrequest t).symm.trans hplan |>.symm.trans hplan'
    exact hwrites
  have hidentified : (withLifecycle lifecycleStatus role).Identified services.toRoleIdentity :=
    identified_withLifecycle ht hrole
  constructor
  · obtain ⟨plan, hplan, hrun⟩ := replacement_completes proposalId lifecycleStatus
      invalidatedStatus huuid ht hrole hreplacement
    exact ⟨plan, (hrequest t).trans hplan, hrun⟩
  · intro plan n hplan
    cases n with
    | zero => exact ⟨0, 0, stopped_zero⟩
    | succ n => exact ⟨_, _, stopped_replacement huuid ht hrole (hwrites plan hplan) n⟩
  · intro plan hplan k hk
    refine ⟨2 * k + 1 + 1, ?_, ?_⟩
    · rw [hwrites plan hplan, List.length_cons, length_migrateAssignments]
      omega
    · have hstopped := stopped_replacement huuid ht hrole (hwrites plan hplan) (2 * k + 1)
      have hmoved : (2 * k + 1 + 1) / 2 = k + 1 := by omega
      have hrecorded : (2 * k + 1) / 2 = k := by omega
      rwa [hmoved, hrecorded] at hstopped
  · intro m m' t' hstopped
    obtain ⟨role', hrole', hsame⟩ := hstopped.loadRoleById hrole
    obtain ⟨replacement', hreplacement', -⟩ := hstopped.loadRoleById hreplacement
    have hwell := hstopped.wellFormed ht huuid toRow_toRow (identified_toRow hidentified)
    obtain ⟨plan, hplan, hrun⟩ := replacement_completes proposalId lifecycleStatus
      invalidatedStatus huuid hwell hrole' hreplacement'
    refine ⟨plan, (hrequest t').trans hplan, ?_⟩
    rcases hsame with rfl | ⟨rfl, -⟩
    · exact hrun
    · rwa [withLifecycle_toRow, toRow_toRow] at hrun

end Replacement

/-! ## Merges -/

section Merge

variable {source target : ArchitectureRoleRecord} {plan : ProposalPlan}

def mergeAlias (targetRoleId : String) (source : ArchitectureRoleRecord) :
    ArchitectureRoleAliasRecord :=
  proposalAlias targetRoleId source.canonicalKey "merge_roles"

theorem merge_plan (services : RoleServices Body) (proposalId : String)
    (hsource : loadRoleById t sourceRoleId = some source)
    (htarget : loadRoleById t targetRoleId = some target) :
    ∃ plan, applyMergeRoleProposal services proposalId t sourceRoleId targetRoleId = .ok plan ∧
      plan.writes =
        (listActiveCurrentAssignmentsForRole t sourceRoleId).flatMap
            (migrateAssignmentToRole services proposalId targetRoleId "merge_roles") ++
          [fun t => some (createRoleAliasIfFree (mergeAlias targetRoleId source) t),
            upsertRole (withLifecycle "deprecated" source)] := by
  obtain rfl : source.roleId = sourceRoleId := (loadRoleById_eq_some hsource).2
  unfold applyMergeRoleProposal
  rw [hsource, htarget]
  refine ⟨_, rfl, ?_⟩
  dsimp only
  rw [(loadRoleById_eq_some htarget).2]
  rfl

/-- The alias is recorded, and the source role put, after the assignments were moved. -/
theorem runWrites_mergeEnd {moved recorded : List ArchitectureRoleAssignment}
    {record : ArchitectureRoleAliasRecord} {role : ArchitectureRoleRecord}
    (huuid : Function.Injective services.deterministicUuid)
    (hidentified : role.Identified services.toRoleIdentity)
    (hwell : (migratedTables services proposalId targetRoleId migrationKind [] [record] moved
      recorded t).WellFormed services.toRoleIdentity) (k : ℕ) :
    runWrites none
        ([fun t => some (createRoleAliasIfFree record t), upsertRole role].take k)
        (migratedTables services proposalId targetRoleId migrationKind [] [] moved recorded t) =
      (migratedTables services proposalId targetRoleId migrationKind ([role.toRow].take (k - 1))
        ([record].take k) moved recorded t, true) := by
  have halias : createRoleAliasIfFree record
        (migratedTables services proposalId targetRoleId migrationKind [] [] moved recorded t) =
      migratedTables services proposalId targetRoleId migrationKind [] [record] moved recorded
        t := by
    rw [createRoleAliasIfFree_eq]
    refine RoleTables.ext rfl ?_ rfl rfl rfl
    exact aliases_createRoleAliasIfFree rfl
  match k with
  | 0 => rfl
  | 1 => exact congrArg (·, true) halias
  | k + 2 =>
    have hfirst : runWrites none
        [fun t => some (createRoleAliasIfFree record t), upsertRole role]
        (migratedTables services proposalId targetRoleId migrationKind [] [] moved recorded t) =
      runWrites none [upsertRole role]
        (migratedTables services proposalId targetRoleId migrationKind [] [record] moved recorded
          t) := runWrites_none_cons (congrArg some halias)
    have hrows : [role.toRow].take (k + 2 - 1) = [role.toRow] :=
      List.take_of_length_le (by rw [List.length_singleton]; omega)
    rw [List.take_succ_cons, List.take_succ_cons, List.take_nil, hfirst, hrows,
      runWrites_none_cons (upsertRole_eq_upsert hwell huuid hidentified), runWrites_nil,
      List.take_succ_cons, List.take_nil]
    rfl

theorem stopped_merge (huuid : Function.Injective services.deterministicUuid)
    (ht : t.WellFormed services.toRoleIdentity)
    (hsource : loadRoleById t sourceRoleId = some source)
    (hwrites : plan.writes =
      (listActiveCurrentAssignmentsForRole t sourceRoleId).flatMap
          (migrateAssignmentToRole services proposalId targetRoleId "merge_roles") ++
        [fun t => some (createRoleAliasIfFree (mergeAlias targetRoleId source) t),
          upsertRole (withLifecycle "deprecated" source)]) (n : ℕ) :
    stoppedTables plan n t =
      migratedTables services proposalId targetRoleId "merge_roles"
        ([(withLifecycle "deprecated" source).toRow].take
          (n - 2 * (listActiveCurrentAssignmentsForRole t sourceRoleId).length - 1))
        ([mergeAlias targetRoleId source].take
          (n - 2 * (listActiveCurrentAssignmentsForRole t sourceRoleId).length))
        ((listActiveCurrentAssignmentsForRole t sourceRoleId).take ((n + 1) / 2))
        ((listActiveCurrentAssignmentsForRole t sourceRoleId).take (n / 2)) t := by
  have hidentified : (withLifecycle "deprecated" source).Identified services.toRoleIdentity :=
    identified_withLifecycle ht hsource
  rw [stoppedTables, hwrites, List.take_append, runWrites_append,
    runWrites_take_migrateAssignments, if_pos rfl, Option.map_none, length_migrateAssignments,
    runWrites_mergeEnd huuid hidentified
      ⟨ht.normalized, ht.roleIds, assignmentIds_migrateAll_take ht huuid⟩]

theorem merge_completes (proposalId : String)
    (huuid : Function.Injective services.deterministicUuid)
    (ht : t.WellFormed services.toRoleIdentity)
    (hsource : loadRoleById t sourceRoleId = some source)
    (htarget : loadRoleById t targetRoleId = some target) :
    ∃ plan, applyMergeRoleProposal services proposalId t sourceRoleId targetRoleId = .ok plan ∧
      runWrites none plan.writes t =
        (completeMigration services proposalId sourceRoleId targetRoleId "merge_roles"
          (withLifecycle "deprecated" source).toRow [mergeAlias targetRoleId source] t, true) := by
  obtain ⟨plan, hplan, hwrites⟩ := merge_plan services proposalId hsource htarget
  have hidentified : (withLifecycle "deprecated" source).Identified services.toRoleIdentity :=
    identified_withLifecycle ht hsource
  have hids : ∀ a ∈ (migrateAll services.toRoleIdentity targetRoleId "merge_roles"
      (assignmentMigrationId services proposalId "merge_roles")
      ((listActiveCurrentAssignmentsForRole t sourceRoleId).take
        (listActiveCurrentAssignmentsForRole t sourceRoleId).length) t.assignments).rows,
      a.assignmentId = services.assignmentId a.roleId a.target :=
    assignmentIds_migrateAll_take ht huuid
  rw [List.take_length] at hids
  refine ⟨plan, hplan, ?_⟩
  rw [hwrites, runWrites_append, runWrites_moveAssignments, if_pos rfl, Option.map_none]
  exact runWrites_mergeEnd huuid hidentified ⟨ht.normalized, ht.roleIds, hids⟩ 2

/-- A merge migrates. -/
theorem isMigration_merge (huuid : Function.Injective services.deterministicUuid)
    (ht : t.WellFormed services.toRoleIdentity)
    (hsource : loadRoleById t sourceRoleId = some source)
    (htarget : loadRoleById t targetRoleId = some target) :
    IsMigration services proposalId (.mergeRoles sourceRoleId targetRoleId) sourceRoleId
      targetRoleId "merge_roles" (withLifecycle "deprecated" source).toRow
      [mergeAlias targetRoleId source] t := by
  have hwrites : ∀ plan, proposalPlan services proposalId (.mergeRoles sourceRoleId targetRoleId)
      t = .ok plan → plan.writes =
        (listActiveCurrentAssignmentsForRole t sourceRoleId).flatMap
            (migrateAssignmentToRole services proposalId targetRoleId "merge_roles") ++
          [fun t => some (createRoleAliasIfFree (mergeAlias targetRoleId source) t),
            upsertRole (withLifecycle "deprecated" source)] := by
    intro plan hplan
    obtain ⟨plan', hplan', hwrites⟩ := merge_plan services proposalId hsource htarget
    cases hplan.symm.trans hplan'
    exact hwrites
  have hstopped : ∀ plan, proposalPlan services proposalId (.mergeRoles sourceRoleId targetRoleId)
      t = .ok plan → ∀ n, StoppedMigration services proposalId sourceRoleId targetRoleId
        "merge_roles" (withLifecycle "deprecated" source).toRow [mergeAlias targetRoleId source]
        ((n + 1) / 2) (n / 2) t (stoppedTables plan n t) :=
    fun plan hplan n => ⟨_, _, List.take_prefix _ _, List.take_prefix _ _,
      stopped_merge huuid ht hsource (hwrites plan hplan) n⟩
  have hidentified : (withLifecycle "deprecated" source).Identified services.toRoleIdentity :=
    identified_withLifecycle ht hsource
  constructor
  · exact merge_completes proposalId huuid ht hsource htarget
  · exact fun plan n hplan => ⟨_, _, hstopped plan hplan n⟩
  · intro plan hplan k hk
    refine ⟨2 * k + 1, ?_, ?_⟩
    · rw [hwrites plan hplan, List.length_append, length_migrateAssignments]
      omega
    · have hbetween := hstopped plan hplan (2 * k + 1)
      have hmoved : (2 * k + 1 + 1) / 2 = k + 1 := by omega
      have hrecorded : (2 * k + 1) / 2 = k := by omega
      rwa [hmoved, hrecorded] at hbetween
  · intro m m' t' hstopped'
    obtain ⟨source', hsource', hsame⟩ := hstopped'.loadRoleById hsource
    obtain ⟨target', htarget', -⟩ := hstopped'.loadRoleById htarget
    have hwell := hstopped'.wellFormed ht huuid toRow_toRow (identified_toRow hidentified)
    obtain ⟨plan, hplan, hrun⟩ := merge_completes proposalId huuid hwell hsource' htarget'
    refine ⟨plan, hplan, ?_⟩
    rcases hsame with rfl | ⟨rfl, -⟩
    · exact hrun
    · have halias : mergeAlias targetRoleId (withLifecycle "deprecated" source).toRow =
          mergeAlias targetRoleId source := by
        rw [mergeAlias, toRow_canonicalKey]
        exact congrArg (proposalAlias targetRoleId · "merge_roles")
          (identified_of_loadRoleById ht hsource).1
      rwa [withLifecycle_toRow, toRow_toRow, halias] at hrun

end Merge

end ArchitectureRoles
end Bitloops
