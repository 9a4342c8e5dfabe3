import Mathlib.Data.Rat.Defs
import Bitloops.Foundation.UniqueTable

/-!
# Roles, targets and assignments

The records of the architecture-role store of one repository: every statement of the store names
the repository, so the rows of other repositories are not part of the model.  Identifiers are
digests of texts that name what they identify; the digest is a parameter.
-/

namespace Bitloops
namespace ArchitectureRoles

/-! ## JSON -/

inductive JsonValue where
  | null
  | bool (value : Bool)
  | number (value : ℚ)
  | string (text : String)
  | array (items : List JsonValue)
  | object (fields : List (String × JsonValue))

namespace JsonValue

/-- `Map::insert`. -/
def insertField (fields : List (String × JsonValue)) (name : String) (value : JsonValue) :
    List (String × JsonValue) :=
  if name ∈ fields.map (·.1) then fields.map fun f => if f.1 = name then (name, value) else f
  else fields ++ [(name, value)]

def get (value : JsonValue) (name : String) : Option JsonValue :=
  match value with
  | object fields => (fields.find? fun f => f.1 = name).map (·.2)
  | _ => none

def asStr : JsonValue → Option String
  | string text => some text
  | _ => none

def asArray : JsonValue → List JsonValue
  | array items => items
  | _ => []

def ofNat (n : ℕ) : JsonValue := number n

def ofOption (text : Option String) : JsonValue := text.elim null string

end JsonValue

/-- `merge_provenance_patch`. -/
def mergeProvenancePatch (provenance : JsonValue) (patch : List (String × JsonValue)) :
    JsonValue :=
  match provenance with
  | .object fields =>
    .object (patch.foldl (fun fields f => JsonValue.insertField fields f.1 f.2) fields)
  | _ => .object patch

/-! ## Targets and assignments -/

inductive AssignmentStatus where
  | active
  | stale
  | needsReview
  | rejected
  deriving DecidableEq, Repr

inductive AssignmentSource where
  | rule
  | llm
  | human
  | migration
  deriving DecidableEq, Repr

inductive AssignmentPriority where
  | primary
  | secondary
  deriving DecidableEq, Repr

inductive TargetKind where
  | file
  | artefact
  | symbol
  deriving DecidableEq, Repr

def TargetKind.asDb : TargetKind → String
  | .file => "file"
  | .artefact => "artefact"
  | .symbol => "symbol"

structure RoleTarget where
  targetKind : TargetKind
  artefactId : Option String
  symbolId : Option String
  path : String
  deriving DecidableEq, Repr

def RoleTarget.file (path : String) : RoleTarget where
  targetKind := .file
  artefactId := none
  symbolId := none
  path

def RoleTarget.artefact (artefactId symbolId path : String) : RoleTarget where
  targetKind := .artefact
  artefactId := some artefactId
  symbolId := some symbolId
  path

def RoleTarget.toJson (target : RoleTarget) : JsonValue :=
  .object
    [("target_kind", .string target.targetKind.asDb),
      ("artefact_id", .ofOption target.artefactId),
      ("symbol_id", .ofOption target.symbolId), ("path", .string target.path)]

/-- A row of `architecture_role_assignments_current`. -/
structure ArchitectureRoleAssignment where
  assignmentId : String
  roleId : String
  target : RoleTarget
  priority : AssignmentPriority
  status : AssignmentStatus
  source : AssignmentSource
  confidence : ℚ
  evidence : JsonValue
  provenance : JsonValue
  classifierVersion : String
  ruleVersion : Option ℤ
  generationSeq : ℕ

abbrev AssignmentTable := UniqueTable ArchitectureRoleAssignment (·.assignmentId)

/-! ## Identifiers -/

/-- The digest that identifiers are made with, for the repository of the store. -/
structure RoleIdentity where
  deterministicUuid : String → String
  repoId : String

namespace RoleIdentity

variable (ident : RoleIdentity)

/-- The text that names a target after the role. -/
def targetText (target : RoleTarget) : String :=
  target.targetKind.asDb ++ "|" ++ target.artefactId.getD "" ++ "|" ++ target.symbolId.getD "" ++
    "|" ++ target.path

def assignmentId (roleId : String) (target : RoleTarget) : String :=
  ident.deterministicUuid
    ("architecture_role_assignment|" ++ ident.repoId ++ "|" ++ roleId ++ "|" ++ targetText target)

variable {ident} {roleId roleId' : String} {target target' : RoleTarget}

/-- Two targets that a role tells apart are told apart by every role. -/
theorem assignmentId_congr (huuid : Function.Injective ident.deterministicUuid)
    (h : ident.assignmentId roleId target = ident.assignmentId roleId target') :
    ident.assignmentId roleId' target = ident.assignmentId roleId' target' := by
  have htext : targetText target = targetText target' :=
    String.append_right_inj _ |>.mp (huuid h)
  rw [assignmentId, assignmentId, htext]

end RoleIdentity
end ArchitectureRoles
end Bitloops
