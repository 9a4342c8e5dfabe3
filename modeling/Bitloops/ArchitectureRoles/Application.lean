import Bitloops.ArchitectureRoles.Management
import Bitloops.Foundation.WriteSequence

/-!
# Applying a role proposal

`apply_proposal` reads the tables, makes the writes of the proposal one after the other, and marks
the proposal applied with the last one.  It may stop after any write.  A proposal that is marked
applied is not applied again.
-/

namespace Bitloops
namespace ArchitectureRoles

open Checkpoints

/-! ## Proposals -/

structure RoleSplitTargetRole where
  canonicalKey : String
  displayName : String
  description : String
  family : Option String
  aliasKeys : List String

structure RoleSplitSpecFile where
  targetRoles : List RoleSplitTargetRole
  note : Option String

/-- The parts of a rule spec that are stored as they are; selector, conditions and score are put
into the stored form by `RoleServices.ruleSpecStoragePayload`. -/
structure RuleSpecFile (Body : Type) where
  body : Body
  evidence : JsonValue
  metadata : JsonValue

/-- The request of a proposal, with the type of the proposal. -/
inductive ProposalRequest (Body : Type) where
  | renameRole (roleId newDisplayName : String)
  | deprecateRole (roleId : String) (replacementRoleId : Option String)
  | removeRole (roleId : String) (replacementRoleId : Option String)
  | mergeRoles (sourceRoleId targetRoleId : String)
  | splitRole (sourceRoleId : String) (splitSpec : RoleSplitSpecFile)
  | createRoleAlias (roleId aliasKey : String)
  | draftRule (roleId : String) (spec : RuleSpecFile Body)
  | editRule (ruleId roleId : String) (spec : RuleSpecFile Body)
  | activateRule (ruleId : String)
  | disableRule (ruleId : String)

namespace ProposalRequest

variable {Body : Type}

def proposalType : ProposalRequest Body → String
  | renameRole _ _ => "rename_role"
  | deprecateRole _ _ => "deprecate_role"
  | removeRole _ _ => "remove_role"
  | mergeRoles _ _ => "merge_roles"
  | splitRole _ _ => "split_role"
  | createRoleAlias _ _ => "create_role_alias"
  | draftRule _ _ => "draft_rule"
  | editRule _ _ _ => "edit_rule"
  | activateRule _ => "activate_rule"
  | disableRule _ => "disable_rule"

end ProposalRequest

structure RuleSpecStoragePayload where
  candidateSelector : JsonValue
  positiveConditions : JsonValue
  negativeConditions : JsonValue
  score : JsonValue

/-- The digests of the store, and the stored form of a rule spec. -/
structure RoleServices (Body : Type) extends RoleIdentity where
  requestHash : ProposalRequest Body → String
  ruleSpecStoragePayload : Body → Option RuleSpecStoragePayload
  canonicalRuleHash : RuleSpecStoragePayload → String

structure ArchitectureRoleProposalRecord (Body : Type) where
  proposalId : String
  status : String
  request : ProposalRequest Body
  resultPayload : JsonValue

structure RoleStore (Body : Type) where
  tables : RoleTables
  proposals : UniqueTable (ArchitectureRoleProposalRecord Body) (·.proposalId)

/-- The writes of a proposal and the result that is stored with it. -/
structure ProposalPlan where
  writes : List (RoleTables → Option RoleTables)
  result : JsonValue

variable {Body : Type} (services : RoleServices Body)

/-! ## Renames -/

def proposalAlias (roleId aliasKey createdBy : String) : ArchitectureRoleAliasRecord where
  roleId
  aliasKey
  aliasNormalized := normalizeRoleAlias aliasKey
  sourceKind := "proposal_apply"
  metadata := .object [("created_by", .string createdBy)]

def applyRenameRoleProposal (t : RoleTables) (roleId newDisplayName : String) :
    Except String ProposalPlan :=
  match loadRoleById t roleId with
  | none => .error ("role `" ++ roleId ++ "` was not found")
  | some role =>
    let renamed := { role with displayName := newDisplayName }
    let persisted := persistedRoleId t renamed
    .ok
      { writes :=
          [upsertRole renamed,
            fun t => some
              (createRoleAliasIfFree (proposalAlias persisted role.displayName "rename_role") t)]
        result :=
          .object
            [("role_id", .string persisted), ("previous_display_name", .string role.displayName),
              ("new_display_name", .string newDisplayName),
              ("reclassification_required", .bool false)] }

/-! ## Assignments that change their role -/

/-- The identifier of the migration of one assignment. -/
def assignmentMigrationId (proposalId migrationKind : String)
    (assignment : ArchitectureRoleAssignment) : String :=
  services.deterministicMigrationId (proposalId ++ "|" ++ assignment.assignmentId) migrationKind

def assignmentMigrationRecord (proposalId targetRoleId migrationKind : String)
    (assignment : ArchitectureRoleAssignment) : ArchitectureRoleAssignmentMigrationRecord where
  migrationId := assignmentMigrationId services proposalId migrationKind assignment
  proposalId
  migrationType := migrationKind
  status := "applied"
  sourceRoleId := some assignment.roleId
  targetRoleId := some targetRoleId
  summary :=
    .object
      [("from_assignment_id", .string assignment.assignmentId),
        ("to_assignment_id", .string (services.assignmentId targetRoleId assignment.target)),
        ("target", assignment.target.toJson)]

/-- The transaction that moves the assignment, and the record of it. -/
def migrateAssignmentToRole (proposalId targetRoleId migrationKind : String)
    (assignment : ArchitectureRoleAssignment) : List (RoleTables → Option RoleTables) :=
  [fun t => some
      { t with
        assignments :=
          migrateCurrentAssignmentToRole services.toRoleIdentity assignment targetRoleId
            (assignmentMigrationId services proposalId migrationKind assignment) migrationKind
            t.assignments },
    fun t => some
      (insertAssignmentMigrationRecord
        (assignmentMigrationRecord services proposalId targetRoleId migrationKind assignment) t)]

/-- One write of `update_current_assignment_status`. -/
def updateStatusWrite (status : AssignmentStatus) (reason : String) (migrationId : Option String)
    (assignment : ArchitectureRoleAssignment) : RoleTables → Option RoleTables :=
  fun t => some
    { t with
      assignments :=
        updateCurrentAssignmentStatus assignment.assignmentId status reason migrationId
          t.assignments }

def loadReplacementRole (t : RoleTables) (replacementRoleId : Option String) :
    Except String (Option ArchitectureRoleRecord) :=
  match replacementRoleId with
  | none => .ok none
  | some roleId =>
    match loadRoleById t roleId with
    | none => .error ("replacement role `" ++ roleId ++ "` was not found")
    | some role => .ok (some role)

def applyLifecycleRoleProposal (proposalId : String) (t : RoleTables) (roleId : String)
    (replacementRoleId : Option String) (lifecycleStatus : String)
    (invalidatedStatus : AssignmentStatus) : Except String ProposalPlan :=
  match loadRoleById t roleId with
  | none => .error ("role `" ++ roleId ++ "` was not found")
  | some role =>
    match loadReplacementRole t replacementRoleId with
    | .error e => .error e
    | .ok replacementRole =>
      let assignments := listActiveCurrentAssignmentsForRole t role.roleId
      .ok
        { writes :=
            upsertRole { role with lifecycleStatus } ::
              match replacementRole with
              | some replacement =>
                assignments.flatMap
                  (migrateAssignmentToRole services proposalId replacement.roleId lifecycleStatus)
              | none =>
                assignments.map
                  (updateStatusWrite invalidatedStatus ("proposal applied: " ++ lifecycleStatus)
                    none)
          result :=
            .object
              [("role_id", .string role.roleId), ("lifecycle_status", .string lifecycleStatus),
                ("replacement_role_id", .ofOption (replacementRole.map (·.roleId))),
                ("migrated_assignments",
                  .ofNat (if replacementRole.isSome then assignments.length else 0)),
                ("invalidated_assignments",
                  .ofNat (if replacementRole.isSome then 0 else assignments.length)),
                ("reclassification_required", .bool replacementRole.isNone)] }

def applyMergeRoleProposal (proposalId : String) (t : RoleTables)
    (sourceRoleId targetRoleId : String) : Except String ProposalPlan :=
  match loadRoleById t sourceRoleId, loadRoleById t targetRoleId with
  | none, _ => .error ("source role `" ++ sourceRoleId ++ "` was not found")
  | some _, none => .error ("target role `" ++ targetRoleId ++ "` was not found")
  | some sourceRole, some targetRole =>
    let assignments := listActiveCurrentAssignmentsForRole t sourceRole.roleId
    .ok
      { writes :=
          assignments.flatMap
              (migrateAssignmentToRole services proposalId targetRole.roleId "merge_roles") ++
            [fun t => some
                (createRoleAliasIfFree
                  (proposalAlias targetRole.roleId sourceRole.canonicalKey "merge_roles") t),
              upsertRole { sourceRole with lifecycleStatus := "deprecated" }]
        result :=
          .object
            [("source_role_id", .string sourceRole.roleId),
              ("target_role_id", .string targetRole.roleId),
              ("migrated_assignments", .ofNat assignments.length),
              ("reclassification_required", .bool false)] }

/-! ## Splits -/

def splitTargetRole (target : RoleSplitTargetRole) : ArchitectureRoleRecord where
  roleId := services.deterministicRoleId target.canonicalKey
  canonicalKey := normalizeRoleKey target.canonicalKey
  displayName := target.displayName
  description := target.description
  family := target.family
  lifecycleStatus := "active"
  provenance := .object [("source", .string "split_role")]
  evidence := .array []
  metadata := .object [("created_by", .string "split_role")]

/-- The role of the target, and its aliases under the identifier that the role has. -/
def splitTargetWrites (t : RoleTables) (target : RoleSplitTargetRole) :
    List (RoleTables → Option RoleTables) :=
  let role := splitTargetRole services target
  upsertRole role ::
    target.aliasKeys.map fun aliasKey t' => some
      (createRoleAliasIfFree (proposalAlias (persistedRoleId t role) aliasKey "split_role") t')

def splitMigrationRecord (proposalId sourceRoleId : String) (invalidated : ℕ)
    (createdRoles : List String) (note : Option String) :
    ArchitectureRoleAssignmentMigrationRecord where
  migrationId := services.deterministicMigrationId proposalId "split_role"
  proposalId
  migrationType := "split_role"
  status := "applied"
  sourceRoleId := some sourceRoleId
  targetRoleId := none
  summary :=
    .object
      [("invalidated_assignments", .ofNat invalidated),
        ("created_roles", .array (createdRoles.map .string)), ("note", .ofOption note)]

/-- Each role is persisted under the identifier that its key has before the split, or else under
the one made from the key. -/
def applySplitRoleProposal (proposalId : String) (t : RoleTables) (sourceRoleId : String)
    (splitSpec : RoleSplitSpecFile) : Except String ProposalPlan :=
  match loadRoleById t sourceRoleId with
  | none => .error ("source role `" ++ sourceRoleId ++ "` was not found")
  | some sourceRole =>
    let assignments := listActiveCurrentAssignmentsForRole t sourceRole.roleId
    let createdRoles :=
      splitSpec.targetRoles.map fun target =>
        persistedRoleId t (splitTargetRole services target)
    let migrationId := services.deterministicMigrationId proposalId "split_role"
    .ok
      { writes :=
          splitSpec.targetRoles.flatMap (splitTargetWrites services t) ++
            assignments.map
              (updateStatusWrite .needsReview "role split requires reclassification"
                (some migrationId)) ++
            [fun t' => some
              (insertAssignmentMigrationRecord
                (splitMigrationRecord services proposalId sourceRole.roleId assignments.length
                  createdRoles splitSpec.note) t')]
        result :=
          .object
            [("source_role_id", .string sourceRole.roleId),
              ("created_roles", .array (createdRoles.map .string)),
              ("invalidated_assignments", .ofNat assignments.length),
              ("reclassification_required", .bool true)] }

/-! ## Aliases and rules -/

def applyAliasProposal (t : RoleTables) (roleId aliasKey : String) : Except String ProposalPlan :=
  match loadRoleById t roleId with
  | none => .error ("role `" ++ roleId ++ "` was not found")
  | some role =>
    .ok
      { writes :=
          [fun t' =>
            (createRoleAlias (proposalAlias role.roleId aliasKey "create_role_alias") t').toOption]
        result :=
          .object
            [("role_id", .string role.roleId), ("alias_key", .string aliasKey),
              ("reclassification_required", .bool false)] }

/-- The rule that a draft or an edit inserts. -/
def proposedRule (t : RoleTables) (roleId : String) (spec : RuleSpecFile Body)
    (payload : RuleSpecStoragePayload) (source : String) (supersedesRuleId : Option String) :
    ArchitectureRoleRuleRecord :=
  let version := nextRoleRuleVersion t roleId
  let canonicalHash := services.canonicalRuleHash payload
  { ruleId := services.deterministicRuleId roleId version canonicalHash
    roleId
    version
    lifecycleStatus := "draft"
    canonicalHash
    candidateSelector := payload.candidateSelector
    positiveConditions := payload.positiveConditions
    negativeConditions := payload.negativeConditions
    score := payload.score
    provenance := .object [("source", .string source)]
    evidence := spec.evidence
    metadata := spec.metadata
    supersedesRuleId }

def applyRuleDraftProposal (t : RoleTables) (roleId : String) (spec : RuleSpecFile Body) :
    Except String ProposalPlan :=
  match services.ruleSpecStoragePayload spec.body with
  | none => .error "serialise rule spec for hashing"
  | some payload =>
    let rule := proposedRule services t roleId spec payload "draft_rule" none
    .ok
      { writes := [fun t' => some (insertRoleRule rule t')]
        result :=
          .object
            [("rule_id", .string rule.ruleId), ("role_id", .string rule.roleId),
              ("lifecycle_status", .string rule.lifecycleStatus)] }

def applyRuleEditProposal (t : RoleTables) (ruleId roleId : String) (spec : RuleSpecFile Body) :
    Except String ProposalPlan :=
  match loadRoleRuleById t ruleId with
  | none => .error ("rule `" ++ ruleId ++ "` was not found")
  | some existingRule =>
    match services.ruleSpecStoragePayload spec.body with
    | none => .error "serialise rule spec for hashing"
    | some payload =>
      let rule :=
        proposedRule services t roleId spec payload "edit_rule" (some existingRule.ruleId)
      .ok
        { writes := [fun t' => some (insertRoleRule rule t')]
          result :=
            .object
              [("rule_id", .string rule.ruleId),
                ("supersedes_rule_id", .string existingRule.ruleId),
                ("lifecycle_status", .string rule.lifecycleStatus)] }

def assignmentReferencesRule (assignment : ArchitectureRoleAssignment) (ruleId : String) : Bool :=
  assignment.evidence.asArray.any fun evidence =>
    (evidence.get "ruleId").bind JsonValue.asStr = some ruleId

def applyRuleLifecycleProposal (t : RoleTables) (ruleId lifecycleStatus : String) :
    Except String ProposalPlan :=
  match loadRoleRuleById t ruleId with
  | none => .error ("rule `" ++ ruleId ++ "` was not found")
  | some rule =>
    let assignments :=
      (listActiveCurrentAssignmentsForRole t rule.roleId).filter
        fun assignment => assignmentReferencesRule assignment ruleId
    .ok
      { writes :=
          (fun t' => some (updateRoleRuleLifecycle ruleId lifecycleStatus t')) ::
            assignments.map
              (updateStatusWrite .needsReview ("rule lifecycle changed to " ++ lifecycleStatus)
                none)
        result :=
          .object
            [("rule_id", .string rule.ruleId), ("role_id", .string rule.roleId),
              ("lifecycle_status", .string lifecycleStatus),
              ("invalidated_assignments", .ofNat assignments.length),
              ("reclassification_required", .bool true)] }

/-! ## Applying -/

/-- What the proposal does to the tables as they are. -/
def proposalPlan (proposalId : String) (request : ProposalRequest Body) (t : RoleTables) :
    Except String ProposalPlan :=
  match request with
  | .renameRole roleId newDisplayName => applyRenameRoleProposal t roleId newDisplayName
  | .deprecateRole roleId replacementRoleId =>
    applyLifecycleRoleProposal services proposalId t roleId replacementRoleId "deprecated"
      .needsReview
  | .removeRole roleId replacementRoleId =>
    applyLifecycleRoleProposal services proposalId t roleId replacementRoleId "removed" .stale
  | .mergeRoles sourceRoleId targetRoleId =>
    applyMergeRoleProposal services proposalId t sourceRoleId targetRoleId
  | .splitRole sourceRoleId splitSpec =>
    applySplitRoleProposal services proposalId t sourceRoleId splitSpec
  | .createRoleAlias roleId aliasKey => applyAliasProposal t roleId aliasKey
  | .draftRule roleId spec => applyRuleDraftProposal services t roleId spec
  | .editRule ruleId roleId spec => applyRuleEditProposal services t ruleId roleId spec
  | .activateRule ruleId => applyRuleLifecycleProposal t ruleId "active"
  | .disableRule ruleId => applyRuleLifecycleProposal t ruleId "disabled"

/-- A write of the tables as a write of the store. -/
def tableWrite (write : RoleTables → Option RoleTables) (s : RoleStore Body) :
    Option (RoleStore Body) :=
  (write s.tables).map fun tables => { s with tables }

def markRoleProposalApplied (proposalId : String) (result : JsonValue) (s : RoleStore Body) :
    RoleStore Body :=
  { s with
    proposals :=
      s.proposals.modify (fun proposal => proposal.proposalId = proposalId)
        (fun proposal => { proposal with status := "applied", resultPayload := result })
        fun _ => rfl }

/-- Apply the proposal; the call stops after `stop` writes, or is not stopped.  The result says
whether it succeeded. -/
def applyProposal (stop : Option ℕ) (proposalId : String) (s : RoleStore Body) :
    RoleStore Body × Bool :=
  match findRow (·.proposalId) proposalId s.proposals.rows with
  | none => (s, false)
  | some proposal =>
    if proposal.status = "applied" then (s, true)
    else
      match proposalPlan services proposalId proposal.request s.tables with
      | .error _ => (s, false)
      | .ok plan =>
        runWrites stop
          (plan.writes.map tableWrite ++
            [fun s' => some (markRoleProposalApplied proposalId plan.result s')]) s

/-! ## Creating proposals -/

def resolveRoleRef (t : RoleTables) (roleRef : String) : Except String ArchitectureRoleRecord :=
  let trimmed := trimText roleRef
  let stripped :=
    if "role:".toList.isPrefixOf trimmed.toList then String.ofList (trimmed.toList.drop 5)
    else trimmed
  match ((loadRoleById t stripped).or (loadRoleByCanonicalKey t stripped)).or
      (loadRoleByAlias t stripped) with
  | some role => .ok role
  | none => .error ("role reference `" ++ roleRef ++ "` was not found")

/-- The proposal is stored as a draft, also where it was applied before. -/
def persistProposal (request : ProposalRequest Body) (s : RoleStore Body) :
    RoleStore Body × String :=
  let proposalId :=
    services.deterministicProposalId request.proposalType (services.requestHash request)
  ({ s with
      proposals :=
        s.proposals.upsert { proposalId, status := "draft", request, resultPayload := .object [] } },
    proposalId)

def createMergeRoleProposal (sourceRoleRef targetRoleRef : String) (s : RoleStore Body) :
    Except String (RoleStore Body × String) := do
  let sourceRole ← resolveRoleRef s.tables sourceRoleRef
  let targetRole ← resolveRoleRef s.tables targetRoleRef
  return persistProposal services (.mergeRoles sourceRole.roleId targetRole.roleId) s

end ArchitectureRoles
end Bitloops
