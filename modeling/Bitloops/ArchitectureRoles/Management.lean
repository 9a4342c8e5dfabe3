import Bitloops.ArchitectureRoles.RoleKeys
import Bitloops.ArchitectureRoles.Taxonomy
import Bitloops.Foundation.OrderBy

/-!
# The tables of the role store

Roles, their aliases and detection rules, the assignments of roles to targets, the records of
migrated assignments, and the proposals to change them.  Each write below is one statement or one
transaction of the store; it fails where a constraint of a table rejects it.
-/

namespace Bitloops
namespace ArchitectureRoles

open Checkpoints

/-! ## Identifiers -/

namespace RoleIdentity

variable (ident : RoleIdentity)

def deterministicRoleId (canonicalKey : String) : String :=
  ident.deterministicUuid
    ("architecture_roles|role|" ++ ident.repoId ++ "|" ++ normalizeRoleKey canonicalKey)

def deterministicRuleId (roleId : String) (version : ℕ) (canonicalHash : String) : String :=
  ident.deterministicUuid
    ("architecture_roles|rule|" ++ ident.repoId ++ "|" ++ roleId ++ "|" ++ version.repr ++ "|" ++
      canonicalHash)

def deterministicProposalId (proposalType requestHash : String) : String :=
  ident.deterministicUuid
    ("architecture_roles|proposal|" ++ ident.repoId ++ "|" ++ proposalType ++ "|" ++ requestHash)

def deterministicMigrationId (proposalId migrationType : String) : String :=
  ident.deterministicUuid
    ("architecture_roles|migration|" ++ ident.repoId ++ "|" ++ proposalId ++ "|" ++ migrationType)

end RoleIdentity

/-! ## Records -/

structure ArchitectureRoleRecord where
  roleId : String
  canonicalKey : String
  displayName : String
  description : String
  family : Option String
  lifecycleStatus : String
  provenance : JsonValue
  evidence : JsonValue
  metadata : JsonValue

/-- The alias under its normalized key; its identifier is a digest of that key. -/
structure ArchitectureRoleAliasRecord where
  roleId : String
  aliasKey : String
  aliasNormalized : String
  sourceKind : String
  metadata : JsonValue

structure ArchitectureRoleRuleRecord where
  ruleId : String
  roleId : String
  version : ℕ
  lifecycleStatus : String
  canonicalHash : String
  candidateSelector : JsonValue
  positiveConditions : JsonValue
  negativeConditions : JsonValue
  score : JsonValue
  provenance : JsonValue
  evidence : JsonValue
  metadata : JsonValue
  supersedesRuleId : Option String

structure ArchitectureRoleAssignmentMigrationRecord where
  migrationId : String
  proposalId : String
  migrationType : String
  status : String
  sourceRoleId : Option String
  targetRoleId : Option String
  summary : JsonValue

/-- The tables that proposals change. -/
@[ext] structure RoleTables where
  roles : UniqueTable ArchitectureRoleRecord (·.roleId)
  aliases : UniqueTable ArchitectureRoleAliasRecord (·.aliasNormalized)
  rules : UniqueTable ArchitectureRoleRuleRecord fun rule => (rule.ruleId, rule.version)
  assignments : AssignmentTable
  migrations : UniqueTable ArchitectureRoleAssignmentMigrationRecord (·.migrationId)

/-! ## Roles -/

def loadRoleById (t : RoleTables) (roleId : String) : Option ArchitectureRoleRecord :=
  findRow (·.roleId) roleId t.roles.rows

def loadRoleByCanonicalKey (t : RoleTables) (canonicalKey : String) :
    Option ArchitectureRoleRecord :=
  findRow (·.canonicalKey) (normalizeRoleKey canonicalKey) t.roles.rows

def loadRoleByAlias (t : RoleTables) (aliasKey : String) : Option ArchitectureRoleRecord :=
  (findRow (·.aliasNormalized) (normalizeRoleAlias aliasKey) t.aliases.rows).bind fun row =>
    loadRoleById t row.roleId

/-- The row that `upsert_role` inserts. -/
def ArchitectureRoleRecord.toRow (role : ArchitectureRoleRecord) : ArchitectureRoleRecord :=
  { role with
    canonicalKey := normalizeRoleKey role.canonicalKey
    family := some (((role.family.map trimText).filter (· ≠ "")).getD "unclassified") }

/-- `ON CONFLICT(repo_id, canonical_key)` keeps the identifier of the row that is there; a row
whose identifier another row has is rejected. -/
def upsertRole (role : ArchitectureRoleRecord) (t : RoleTables) : Option RoleTables :=
  match loadRoleByCanonicalKey t role.canonicalKey with
  | some old =>
    if role.roleId ≠ old.roleId ∧ role.roleId ∈ t.roles.rows.map (·.roleId) then none
    else some { t with roles := t.roles.upsert { role.toRow with roleId := old.roleId } }
  | none => (t.roles.insert? role.toRow).map fun roles => { t with roles }

/-- The identifier of the role that `upsert_role` returns. -/
def persistedRoleId (t : RoleTables) (role : ArchitectureRoleRecord) : String :=
  ((loadRoleByCanonicalKey t role.canonicalKey).map (·.roleId)).getD role.roleId

/-! ## Aliases -/

inductive AliasConflict where
  | alreadyAssignedToDifferentRole (aliasNormalized existingRoleId : String)
  deriving DecidableEq, Repr

def createRoleAlias (record : ArchitectureRoleAliasRecord) (t : RoleTables) :
    Except AliasConflict RoleTables :=
  let row := { record with aliasNormalized := normalizeRoleAlias record.aliasKey }
  match findRow (·.aliasNormalized) row.aliasNormalized t.aliases.rows with
  | some existing =>
    if existing.roleId = record.roleId then
      .ok
        { t with
          aliases :=
            t.aliases.upsert
              { existing with
                aliasKey := record.aliasKey
                sourceKind := record.sourceKind
                metadata := record.metadata } }
    else .error (.alreadyAssignedToDifferentRole row.aliasNormalized existing.roleId)
  | none => .ok { t with aliases := t.aliases.upsert row }

/-- `let _ = create_role_alias(..)`: a conflict is passed over. -/
def createRoleAliasIfFree (record : ArchitectureRoleAliasRecord) (t : RoleTables) : RoleTables :=
  (createRoleAlias record t).toOption.getD t

/-! ## Rules -/

def loadRoleRuleById (t : RoleTables) (ruleId : String) : Option ArchitectureRoleRuleRecord :=
  findRow (·.ruleId) ruleId t.rules.rows

def insertRoleRule (rule : ArchitectureRoleRuleRecord) (t : RoleTables) : RoleTables :=
  { t with rules := t.rules.upsert rule }

/-- `MAX(version) + 1` over the rules of the role. -/
def nextRoleRuleVersion (t : RoleTables) (roleId : String) : ℕ :=
  ((t.rules.rows.filter (·.roleId = roleId)).map (·.version)).foldr max 0 + 1

def updateRoleRuleLifecycle (ruleId lifecycleStatus : String) (t : RoleTables) : RoleTables :=
  { t with
    rules :=
      t.rules.modify (fun rule => rule.ruleId = ruleId)
        (fun rule => { rule with lifecycleStatus }) fun _ => rfl }

/-! ## Assignments -/

def listActiveCurrentAssignmentsForRole (t : RoleTables) (roleId : String) :
    List ArchitectureRoleAssignment :=
  (orderBy (·.assignmentId) (t.assignments.rows.filter (·.roleId = roleId))).filter
    (·.status = .active)

def statusProvenancePatch (reason : String) (migrationId migratedToAssignmentId : Option String) :
    List (String × JsonValue) :=
  [("statusReason", .string reason)] ++
    (migrationId.map fun id => ("migrationId", JsonValue.string id)).toList ++
    (migratedToAssignmentId.map fun id => ("migratedToAssignmentId", JsonValue.string id)).toList

/-- The row that `update_current_assignment_status` writes. -/
def ArchitectureRoleAssignment.withStatus (previous : ArchitectureRoleAssignment)
    (status : AssignmentStatus) (reason : String) (migrationId : Option String) :
    ArchitectureRoleAssignment :=
  { previous with
    status
    provenance :=
      mergeProvenancePatch previous.provenance (statusProvenancePatch reason migrationId none) }

def updateCurrentAssignmentStatus (assignmentId : String) (status : AssignmentStatus)
    (reason : String) (migrationId : Option String) (assignments : AssignmentTable) :
    AssignmentTable :=
  match findRow (·.assignmentId) assignmentId assignments.rows with
  | some previous => assignments.upsert (previous.withStatus status reason migrationId)
  | none => assignments

section Migration

variable (ident : RoleIdentity) (previous : ArchitectureRoleAssignment)
  (targetRoleId migrationId migrationKind : String)

/-- The source row of a migrated assignment. -/
def sourceNext : ArchitectureRoleAssignment :=
  { previous with
    status := .stale
    provenance :=
      mergeProvenancePatch previous.provenance
        (statusProvenancePatch "migrated by proposal" (some migrationId)
          (some (ident.assignmentId targetRoleId previous.target))) }

/-- The target row of a migrated assignment. -/
def targetNext : ArchitectureRoleAssignment :=
  { previous with
    assignmentId := ident.assignmentId targetRoleId previous.target
    roleId := targetRoleId
    status := .active
    source := .migration
    provenance :=
      mergeProvenancePatch previous.provenance
        [("source", .string migrationKind), ("migrationId", .string migrationId),
          ("migratedFromAssignmentId", .string previous.assignmentId)] }

/-- One transaction: the source row, and the target row unless one is there. -/
def migrateCurrentAssignmentToRole (assignments : AssignmentTable) : AssignmentTable :=
  let existingTarget :=
    findRow (·.assignmentId) (ident.assignmentId targetRoleId previous.target) assignments.rows
  let staled := assignments.upsert (sourceNext ident previous targetRoleId migrationId)
  match existingTarget with
  | some _ => staled
  | none => staled.upsert (targetNext ident previous targetRoleId migrationId migrationKind)

end Migration

def insertAssignmentMigrationRecord (migration : ArchitectureRoleAssignmentMigrationRecord)
    (t : RoleTables) : RoleTables :=
  { t with migrations := t.migrations.upsert migration }

/-! ## What the store keeps -/

/-- Roles are stored under normalized keys and the identifiers made from them, and assignments
under the identifiers of their roles and targets. -/
structure RoleTables.WellFormed (ident : RoleIdentity) (t : RoleTables) : Prop where
  normalized : ∀ role ∈ t.roles.rows, normalizeRoleKey role.canonicalKey = role.canonicalKey
  roleIds : ∀ role ∈ t.roles.rows, role.roleId = ident.deterministicRoleId role.canonicalKey
  assignmentIds : ∀ a ∈ t.assignments.rows, a.assignmentId = ident.assignmentId a.roleId a.target

end ArchitectureRoles
end Bitloops
