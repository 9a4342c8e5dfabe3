import Mathlib.Data.List.DropRight
import Bitloops.ArchitectureRoles.ProposalWrites

/-!
# What the writes of a proposal do again

A call that is repeated meets rows that an earlier call has written.  Roles are put under the
identifiers made from their keys, whether they are there or not; an alias belongs to the role that
claimed it first; an assignment that was given another status is not listed again.
-/

namespace Bitloops
namespace ArchitectureRoles

open Checkpoints

variable {ident : RoleIdentity} {t t' : RoleTables}

/-! ## Trimmed texts -/

/-- Trimming a list at both ends twice trims it once. -/
theorem trimEnds_trimEnds (p : Char → Bool) (text : List Char) :
    (((((text.dropWhile p).reverse.dropWhile p).reverse).dropWhile p).reverse.dropWhile
      p).reverse = ((text.dropWhile p).reverse.dropWhile p).reverse := by
  obtain ⟨back, hback⟩ := List.dropWhile_suffix (l := (text.dropWhile p).reverse) p
  have hsplit : text.dropWhile p =
      ((text.dropWhile p).reverse.dropWhile p).reverse ++ back.reverse := by
    rw [← List.reverse_append, hback, List.reverse_reverse]
  have hfront : (((text.dropWhile p).reverse.dropWhile p).reverse).dropWhile p =
      ((text.dropWhile p).reverse.dropWhile p).reverse := by
    cases htrimmed : ((text.dropWhile p).reverse.dropWhile p).reverse with
    | nil => rfl
    | cons c rest =>
      have hhead := List.head?_dropWhile_not p text
      rw [hsplit, htrimmed, List.cons_append, List.head?_cons] at hhead
      rw [List.dropWhile_cons, if_neg (by simpa using hhead)]
  rw [hfront, List.reverse_reverse, List.dropWhile_idempotent]

theorem trimText_trimText (text : String) : trimText (trimText text) = trimText text := by
  rw [trimText, trimText, String.toList_ofList, trimEnds_trimEnds]

/-! ## Roles -/

section Roles

variable {role : ArchitectureRoleRecord}

/-- The identifier of the role is the one made from its key. -/
def ArchitectureRoleRecord.Identified (ident : RoleIdentity) (role : ArchitectureRoleRecord) :
    Prop :=
  role.roleId = ident.deterministicRoleId role.canonicalKey

/-- A row that is put again is the same row. -/
theorem toRow_toRow : role.toRow.toRow = role.toRow := by
  have hfamily : ∀ family : Option String,
      (((some (((family.map trimText).filter (· ≠ "")).getD "unclassified")).map trimText).filter
        (· ≠ "")).getD "unclassified" =
      ((family.map trimText).filter (· ≠ "")).getD "unclassified" := by
    intro family
    cases hkept : (family.map trimText).filter (· ≠ "") with
    | none => decide
    | some text =>
      obtain ⟨hmap, htext⟩ := Option.filter_eq_some_iff.mp hkept
      obtain ⟨original, -, rfl⟩ := Option.map_eq_some_iff.mp hmap
      simp only [Option.getD_some, Option.map_some, trimText_trimText, Option.filter_some, htext,
        if_true]
  unfold ArchitectureRoleRecord.toRow
  dsimp only
  rw [normalizeRoleKey_normalizeRoleKey, hfamily]

theorem ArchitectureRoleRecord.Identified.eq (h : role.Identified ident) :
    role.roleId = ident.deterministicRoleId role.canonicalKey := h

@[simp] theorem toRow_roleId : role.toRow.roleId = role.roleId := by
  rw [ArchitectureRoleRecord.toRow]

@[simp] theorem toRow_canonicalKey :
    role.toRow.canonicalKey = normalizeRoleKey role.canonicalKey := by
  rw [ArchitectureRoleRecord.toRow]

theorem deterministicRoleId_inj (huuid : Function.Injective ident.deterministicUuid)
    {key key' : String} (h : ident.deterministicRoleId key = ident.deterministicRoleId key') :
    normalizeRoleKey key = normalizeRoleKey key' :=
  String.append_right_inj _ |>.mp (huuid h)

theorem deterministicRoleId_normalizeRoleKey (key : String) :
    ident.deterministicRoleId (normalizeRoleKey key) = ident.deterministicRoleId key := by
  rw [RoleIdentity.deterministicRoleId, RoleIdentity.deterministicRoleId,
    normalizeRoleKey_normalizeRoleKey]

theorem identified_toRow (h : role.Identified ident) : role.toRow.Identified ident := by
  show role.toRow.roleId = ident.deterministicRoleId role.toRow.canonicalKey
  rw [toRow_roleId, toRow_canonicalKey, deterministicRoleId_normalizeRoleKey, h.eq]

theorem loadRoleByCanonicalKey_eq_some (ht : t.WellFormed ident) {key : String}
    (h : loadRoleByCanonicalKey t key = some role) :
    role.roleId = ident.deterministicRoleId key := by
  obtain ⟨hmem, hkey⟩ := mem_of_findRow h
  rw [ht.roleIds role hmem, hkey, deterministicRoleId_normalizeRoleKey]

theorem persistedRoleId_eq (ht : t.WellFormed ident) (hrole : role.Identified ident) :
    persistedRoleId t role = role.roleId := by
  rw [persistedRoleId]
  cases hload : loadRoleByCanonicalKey t role.canonicalKey with
  | none => rfl
  | some old =>
    show old.roleId = role.roleId
    rw [loadRoleByCanonicalKey_eq_some ht hload, hrole.eq]

/-- A role is put under its identifier. -/
theorem upsertRole_eq_upsert (ht : t.WellFormed ident)
    (huuid : Function.Injective ident.deterministicUuid) (hrole : role.Identified ident) :
    upsertRole role t = some { t with roles := t.roles.upsert role.toRow } := by
  unfold upsertRole
  cases hload : loadRoleByCanonicalKey t role.canonicalKey with
  | some old =>
    have hid : role.roleId = old.roleId := by
      rw [loadRoleByCanonicalKey_eq_some ht hload, hrole.eq]
    have hrow : { role.toRow with roleId := old.roleId } = role.toRow := by
      have hsame : old.roleId = role.toRow.roleId := hid.symm.trans toRow_roleId.symm
      rw [hsame]
    dsimp only
    rw [if_neg fun h => h.1 hid, hrow]
  | none =>
    have hrow : role.toRow.roleId = role.roleId := toRow_roleId
    have hfresh : role.toRow.roleId ∉ t.roles.rows.map (·.roleId) := by
      intro h
      obtain ⟨x, hx, hid⟩ := List.mem_map.mp h
      have hsame : ident.deterministicRoleId x.canonicalKey =
          ident.deterministicRoleId role.canonicalKey := by
        rw [← ht.roleIds x hx, ← hrole.eq, ← hrow]
        exact hid
      have hkey := deterministicRoleId_inj huuid hsame
      rw [ht.normalized x hx] at hkey
      exact ne_of_findRow_none hload hx hkey
    dsimp only
    rw [UniqueTable.insert?_eq_upsert hfresh]
    rfl

theorem wellFormed_upsert_role (ht : t.WellFormed ident) (hrole : role.Identified ident) :
    RoleTables.WellFormed ident { t with roles := t.roles.upsert role.toRow } := by
  refine ⟨fun x hx => ?_, fun x hx => ?_, ht.assignmentIds⟩
  · rcases UniqueTable.mem_upsert.mp hx with rfl | ⟨hx, -⟩
    · rw [toRow_canonicalKey, normalizeRoleKey_normalizeRoleKey]
    · exact ht.normalized x hx
  · rcases UniqueTable.mem_upsert.mp hx with rfl | ⟨hx, -⟩
    · rw [toRow_roleId, toRow_canonicalKey, deterministicRoleId_normalizeRoleKey, hrole.eq]
    · exact ht.roleIds x hx

/-- A role of the store is identified by its key, which is normalized. -/
theorem identified_of_loadRoleById (ht : t.WellFormed ident) {roleId : String}
    (h : loadRoleById t roleId = some role) :
    normalizeRoleKey role.canonicalKey = role.canonicalKey ∧ role.Identified ident := by
  obtain ⟨hmem, -⟩ := UniqueTable.findRow_eq_some.mp h
  exact ⟨ht.normalized role hmem, ht.roleIds role hmem⟩

end Roles

/-! ## Aliases -/

section Aliases

variable {record : ArchitectureRoleAliasRecord} {records first : List ArchitectureRoleAliasRecord}
  {x y : ArchitectureRoleAliasRecord} {v : Option ArchitectureRoleAliasRecord}

/-- The row of an alias record. -/
def ArchitectureRoleAliasRecord.toRow (record : ArchitectureRoleAliasRecord) :
    ArchitectureRoleAliasRecord :=
  { record with aliasNormalized := normalizeRoleAlias record.aliasKey }

@[simp] theorem aliasRow_roleId : record.toRow.roleId = record.roleId := by
  rw [ArchitectureRoleAliasRecord.toRow]

@[simp] theorem aliasRow_aliasKey : record.toRow.aliasKey = record.aliasKey := by
  rw [ArchitectureRoleAliasRecord.toRow]

@[simp] theorem aliasRow_aliasNormalized :
    record.toRow.aliasNormalized = normalizeRoleAlias record.aliasKey := by
  rw [ArchitectureRoleAliasRecord.toRow]

/-- What recording an alias makes of the row under its normalized key. -/
def claimAlias (v : Option ArchitectureRoleAliasRecord) (record : ArchitectureRoleAliasRecord) :
    Option ArchitectureRoleAliasRecord :=
  match v with
  | some existing => if existing.roleId = record.roleId then some record.toRow else some existing
  | none => some record.toRow

theorem findRow_createRoleAliasIfFree {k : String} :
    findRow (·.aliasNormalized) k (createRoleAliasIfFree record t).aliases.rows =
      if k = normalizeRoleAlias record.aliasKey then
        claimAlias (findRow (·.aliasNormalized) k t.aliases.rows) record
      else findRow (·.aliasNormalized) k t.aliases.rows := by
  unfold createRoleAliasIfFree createRoleAlias
  dsimp only
  cases hfound : findRow (·.aliasNormalized) (normalizeRoleAlias record.aliasKey)
      t.aliases.rows with
  | some existing =>
    obtain ⟨-, hkey⟩ := UniqueTable.findRow_eq_some.mp hfound
    by_cases howner : existing.roleId = record.roleId
    · have hrow : { existing with
          aliasKey := record.aliasKey
          sourceKind := record.sourceKind
          metadata := record.metadata } = record.toRow := by
        rw [ArchitectureRoleAliasRecord.toRow, ← hkey, ← howner]
      dsimp only
      rw [if_pos howner, hrow]
      show findRow (·.aliasNormalized) k (t.aliases.upsert record.toRow).rows = _
      rw [UniqueTable.findRow_upsert, aliasRow_aliasNormalized]
      by_cases hk : k = normalizeRoleAlias record.aliasKey
      · subst hk
        rw [if_pos rfl, if_pos rfl, hfound, claimAlias, if_pos howner]
      · rw [if_neg hk, if_neg hk]
    · dsimp only
      rw [if_neg howner]
      show findRow (·.aliasNormalized) k t.aliases.rows = _
      by_cases hk : k = normalizeRoleAlias record.aliasKey
      · subst hk
        rw [if_pos rfl, hfound, claimAlias, if_neg howner]
      · rw [if_neg hk]
  | none =>
    show findRow (·.aliasNormalized) k (t.aliases.upsert record.toRow).rows = _
    rw [UniqueTable.findRow_upsert, aliasRow_aliasNormalized]
    by_cases hk : k = normalizeRoleAlias record.aliasKey
    · subst hk
      rw [if_pos rfl, if_pos rfl, hfound, claimAlias]
    · rw [if_neg hk, if_neg hk]

/-- Recording the aliases, one after the other. -/
def recordAliases (records : List ArchitectureRoleAliasRecord) (t : RoleTables) : RoleTables :=
  records.foldl (fun t record => createRoleAliasIfFree record t) t

theorem findRow_recordAliases {k : String} :
    findRow (·.aliasNormalized) k (recordAliases records t).aliases.rows =
      (records.filter fun record => k = normalizeRoleAlias record.aliasKey).foldl claimAlias
        (findRow (·.aliasNormalized) k t.aliases.rows) := by
  induction records generalizing t with
  | nil => rfl
  | cons record rest ih =>
    rw [recordAliases, List.foldl_cons, ← recordAliases, ih, findRow_createRoleAliasIfFree]
    by_cases hk : k = normalizeRoleAlias record.aliasKey
    · rw [if_pos hk, List.filter_cons, if_pos (decide_eq_true hk), List.foldl_cons]
    · rw [if_neg hk, List.filter_cons, if_neg (by simpa using hk)]

/-- An alias stays with the role that has it. -/
theorem foldl_claimAlias_owner (records : List ArchitectureRoleAliasRecord)
    (x : ArchitectureRoleAliasRecord) :
    ∃ y, records.foldl claimAlias (some x) = some y ∧ y.roleId = x.roleId := by
  induction records generalizing x with
  | nil => exact ⟨x, rfl, rfl⟩
  | cons record rest ih =>
    rw [List.foldl_cons, claimAlias]
    by_cases howner : x.roleId = record.roleId
    · rw [if_pos howner]
      obtain ⟨y, hy, hrole⟩ := ih record.toRow
      exact ⟨y, hy, (hrole.trans aliasRow_roleId).trans howner.symm⟩
    · rw [if_neg howner]
      exact ih x

/-- Records of other roles leave the alias as it is. -/
theorem foldl_claimAlias_other (h : ∀ record ∈ records, x.roleId ≠ record.roleId) :
    records.foldl claimAlias (some x) = some x := by
  induction records with
  | nil => rfl
  | cons record rest ih =>
    rw [List.foldl_cons, claimAlias, if_neg (h record List.mem_cons_self)]
    exact ih fun record hrecord => h record (List.mem_cons_of_mem _ hrecord)

/-- A record of the role that has the alias replaces it, whatever it was. -/
theorem foldl_claimAlias_own (h : ∃ record ∈ records, x.roleId = record.roleId)
    (hsame : y.roleId = x.roleId) :
    records.foldl claimAlias (some y) = records.foldl claimAlias (some x) := by
  induction records generalizing x y with
  | nil =>
    obtain ⟨record, hrecord, -⟩ := h
    exact absurd hrecord List.not_mem_nil
  | cons record rest ih =>
    rw [List.foldl_cons, List.foldl_cons, claimAlias, claimAlias, hsame]
    by_cases howner : x.roleId = record.roleId
    · rw [if_pos howner, if_pos howner]
    · rw [if_neg howner, if_neg howner]
      obtain ⟨other, hother, hrole⟩ := h
      rcases List.mem_cons.mp hother with rfl | hother
      · exact absurd hrole howner
      · exact ih ⟨other, hother, hrole⟩ hsame

/-- **Recording aliases again** after the first of them were recorded changes nothing more. -/
theorem foldl_claimAlias_again (hfirst : first <+: records) :
    records.foldl claimAlias (first.foldl claimAlias v) = records.foldl claimAlias v := by
  have hsome : ∀ x, first.foldl claimAlias (some x) = some x ∨
      ∃ y, first.foldl claimAlias (some x) = some y ∧ y.roleId = x.roleId ∧
        ∃ record ∈ records, x.roleId = record.roleId := by
    intro x
    by_cases hown : ∃ record ∈ first, x.roleId = record.roleId
    · obtain ⟨record, hrecord, hrole⟩ := hown
      obtain ⟨y, hy, hyx⟩ := foldl_claimAlias_owner first x
      exact .inr ⟨y, hy, hyx, record, hfirst.subset hrecord, hrole⟩
    · exact .inl (foldl_claimAlias_other fun record hrecord h => hown ⟨record, hrecord, h⟩)
  cases v with
  | some x =>
    rcases hsome x with h | ⟨y, hy, hyx, hown⟩
    · rw [h]
    · rw [hy]
      exact foldl_claimAlias_own hown hyx
  | none =>
    cases first with
    | nil => rfl
    | cons record rest =>
      obtain ⟨back, hback⟩ := hfirst
      obtain ⟨y, hy, hyx⟩ := foldl_claimAlias_owner rest record.toRow
      have hown : ∃ other ∈ records, record.toRow.roleId = other.roleId :=
        ⟨record, hback ▸ List.mem_append_left _ List.mem_cons_self, aliasRow_roleId⟩
      have hstart : records.foldl claimAlias (some record.toRow) =
          records.foldl claimAlias none := by
        rw [← hback, List.cons_append, List.foldl_cons, List.foldl_cons, claimAlias,
          if_pos aliasRow_roleId]
        rfl
      have hrest : (record :: rest).foldl claimAlias none = some y := hy
      rw [hrest, foldl_claimAlias_own hown hyx, hstart]

theorem sameRows_recordAliases (hfirst : first <+: records) :
    (recordAliases records (recordAliases first t)).aliases.SameRows
      (recordAliases records t).aliases := by
  refine UniqueTable.sameRows_iff_findRow.mpr fun k => ?_
  rw [findRow_recordAliases, findRow_recordAliases, findRow_recordAliases]
  exact foldl_claimAlias_again (hfirst.filter _)

end Aliases

/-! ## Assignments -/

section Assignments

variable {status : AssignmentStatus} {reason : String} {migrationId : Option String}
  {assignments : AssignmentTable} {listed : List ArchitectureRoleAssignment}

theorem withStatus_assignmentId (a : ArchitectureRoleAssignment) :
    (a.withStatus status reason migrationId).assignmentId = a.assignmentId := rfl

theorem updateCurrentAssignmentStatus_eq_modify {assignmentId : String} :
    updateCurrentAssignmentStatus assignmentId status reason migrationId assignments =
      assignments.modify (fun a => a.assignmentId = assignmentId)
        (fun a => a.withStatus status reason migrationId) withStatus_assignmentId := by
  rw [updateCurrentAssignmentStatus]
  cases hfound : findRow (·.assignmentId) assignmentId assignments.rows with
  | some previous =>
    obtain ⟨hmem, rfl⟩ := UniqueTable.findRow_eq_some.mp hfound
    exact UniqueTable.upsert_eq_modify
      (f := fun a => ArchitectureRoleAssignment.withStatus a status reason migrationId) hmem
  | none =>
    refine (UniqueTable.modify_of_forall fun a ha => ?_).symm
    exact decide_eq_false (UniqueTable.findRow_eq_none.mp hfound a ha)

/-- The loop over the listed assignments rewrites the rows with their identifiers. -/
theorem foldl_updateStatus (hnodup : (listed.map (·.assignmentId)).Nodup) :
    listed.foldl
        (fun assignments a =>
          updateCurrentAssignmentStatus a.assignmentId status reason migrationId assignments)
        assignments =
      assignments.modify (fun a => a.assignmentId ∈ listed.map (·.assignmentId))
        (fun a => a.withStatus status reason migrationId) withStatus_assignmentId := by
  induction listed generalizing assignments with
  | nil => exact (UniqueTable.modify_of_forall fun a _ => decide_eq_false List.not_mem_nil).symm
  | cons first rest ih =>
    rw [List.map_cons, List.nodup_cons] at hnodup
    rw [List.foldl_cons, ih hnodup.2, updateCurrentAssignmentStatus_eq_modify]
    refine UniqueTable.modify_modify_eq fun a _ => ?_
    by_cases hfirst : a.assignmentId = first.assignmentId
    · have hrest : a.assignmentId ∉ rest.map (·.assignmentId) := hfirst ▸ hnodup.1
      simp [hfirst, ArchitectureRoleAssignment.withStatus, hnodup.1]
    · simp [hfirst]

end Assignments

end ArchitectureRoles
end Bitloops
