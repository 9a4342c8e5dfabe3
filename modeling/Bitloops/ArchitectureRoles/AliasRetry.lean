import Bitloops.ArchitectureRoles.RetryConditions

/-!
# Aliases and names that are written again

An alias belongs to the role that claimed it first, so that recording it again changes nothing.  A
rename that was stopped has put the new name; the next call takes it for the previous one.
-/

namespace Bitloops
namespace ArchitectureRoles

open Checkpoints

variable {Body : Type} {services : RoleServices Body} {ident : RoleIdentity}
  {proposalId roleId newDisplayName : String} {t t' u : RoleTables} {plan : ProposalPlan} {n : ℕ}

/-! ## One alias -/

section Alias

variable {record : ArchitectureRoleAliasRecord}
  {records first : List ArchitectureRoleAliasRecord}

variable (records) in
theorem recordAliases_eq :
    recordAliases records t = { t with aliases := (recordAliases records t).aliases } := by
  induction records generalizing t with
  | nil => rfl
  | cons record rest ih =>
    have hfirst : ∀ aliases, { createRoleAliasIfFree record t with aliases } =
        { t with aliases } := by
      intro aliases
      rw [createRoleAliasIfFree_eq]
    exact ih.trans (hfirst _)

/-- Recording an alias depends on the aliases alone. -/
theorem aliases_createRoleAliasIfFree (h : t'.aliases = t.aliases) :
    (createRoleAliasIfFree record t').aliases = (createRoleAliasIfFree record t).aliases := by
  unfold createRoleAliasIfFree createRoleAlias
  dsimp only
  rw [h]
  cases findRow (·.aliasNormalized) (normalizeRoleAlias record.aliasKey) t.aliases.rows with
  | none => rfl
  | some existing =>
    dsimp only
    by_cases howner : existing.roleId = record.roleId
    · rw [if_pos howner, if_pos howner]
      rfl
    · rw [if_neg howner, if_neg howner]
      exact h

theorem sameRows_createRoleAliasIfFree (h : t.aliases.SameRows t'.aliases) :
    (createRoleAliasIfFree record t).aliases.SameRows
      (createRoleAliasIfFree record t').aliases := by
  refine UniqueTable.sameRows_iff_findRow.mpr fun k => ?_
  rw [findRow_createRoleAliasIfFree, findRow_createRoleAliasIfFree,
    UniqueTable.sameRows_iff_findRow.mp h k]

/-- The alias is settled when its row stays the same. -/
theorem aliasSettled_iff :
    AliasSettled record t ↔
      claimAlias (findRow (·.aliasNormalized) (normalizeRoleAlias record.aliasKey)
          t.aliases.rows) record =
        findRow (·.aliasNormalized) (normalizeRoleAlias record.aliasKey) t.aliases.rows := by
  rw [AliasSettled, UniqueTable.sameRows_iff_findRow]
  constructor
  · intro h
    have hkey := h (normalizeRoleAlias record.aliasKey)
    rwa [findRow_createRoleAliasIfFree, if_pos rfl] at hkey
  · intro h k
    rw [findRow_createRoleAliasIfFree]
    by_cases hk : k = normalizeRoleAlias record.aliasKey
    · rw [if_pos hk, hk, h]
    · rw [if_neg hk]

theorem AliasSettled.congr (h : AliasSettled record t) (hsame : t.aliases.SameRows t'.aliases) :
    AliasSettled record t' := by
  rw [aliasSettled_iff] at h ⊢
  rw [← UniqueTable.sameRows_iff_findRow.mp hsame, h]

/-- Recording settled aliases changes nothing. -/
theorem sameRows_of_settled (h : ∀ record ∈ records, AliasSettled record t) :
    t.aliases.SameRows (recordAliases records t).aliases := by
  induction records generalizing t with
  | nil => exact .refl
  | cons record rest ih =>
    have hfirst : t.aliases.SameRows (createRoleAliasIfFree record t).aliases :=
      fun r => (h record List.mem_cons_self r).symm
    exact hfirst.trans
      (ih fun other hother => (h other (List.mem_cons_of_mem _ hother)).congr hfirst)

theorem claimAlias_eq_self_or_toRow (record : ArchitectureRoleAliasRecord) (v : Option ArchitectureRoleAliasRecord) :
    (∀ other : ArchitectureRoleAliasRecord, other.roleId = record.roleId →
        claimAlias v other = v) ∨
      ∀ other : ArchitectureRoleAliasRecord, other.roleId = record.roleId →
        claimAlias v other = some other.toRow := by
  cases v with
  | none => exact .inr fun _ _ => rfl
  | some existing =>
    by_cases howner : existing.roleId = record.roleId
    · exact .inr fun other hother => if_pos (howner.trans hother.symm)
    · exact .inl fun other hother => if_neg fun h => howner (h.trans hother)

/-- An alias that was recorded is recorded again. -/
theorem createRoleAlias_again (h : createRoleAlias record t = .ok t') :
    ∃ t'', createRoleAlias record t' = .ok t'' ∧ t'.Agree t'' := by
  have hfree : createRoleAliasIfFree record t = t' := by
    rw [createRoleAliasIfFree, h]
    rfl
  have hrow : findRow (·.aliasNormalized) (normalizeRoleAlias record.aliasKey)
      t'.aliases.rows = some record.toRow := by
    rw [← hfree, findRow_createRoleAliasIfFree, if_pos rfl]
    unfold createRoleAlias at h
    dsimp only at h
    cases hfound : findRow (·.aliasNormalized) (normalizeRoleAlias record.aliasKey)
        t.aliases.rows with
    | none => rfl
    | some existing =>
      rw [hfound] at h
      dsimp only at h
      by_cases howner : existing.roleId = record.roleId
      · exact if_pos howner
      · rw [if_neg howner] at h
        cases h
  have hagain : ∃ t'', createRoleAlias record t' = .ok t'' := by
    unfold createRoleAlias
    dsimp only
    rw [hrow]
    dsimp only
    rw [if_pos aliasRow_roleId]
    exact ⟨_, rfl⟩
  obtain ⟨t'', ht''⟩ := hagain
  refine ⟨t'', ht'', ?_⟩
  have hfree' : createRoleAliasIfFree record t' = t'' := by
    rw [createRoleAliasIfFree, ht'']
    rfl
  have hsame : (recordAliases [record] (recordAliases [record] t)).aliases.SameRows
      (recordAliases [record] t).aliases := sameRows_recordAliases List.prefix_rfl
  have haliases : t'.aliases.SameRows t''.aliases := by
    intro r
    rw [← hfree', ← hfree]
    exact (hsame r).symm
  rw [createRoleAlias_eq ht'']
  exact ⟨.refl, haliases, .refl, .refl, .refl⟩

end Alias

/-! ## The alias proposal -/

theorem RoleTables.WellFormed.congr (ht : t.WellFormed ident) (hroles : t'.roles = t.roles)
    (hassignments : t'.assignments = t.assignments) : t'.WellFormed ident :=
  ⟨hroles ▸ ht.normalized, hroles ▸ ht.roleIds, hassignments ▸ ht.assignmentIds⟩

theorem createRoleAlias_frame {record : ArchitectureRoleAliasRecord}
    (h : createRoleAlias record t = .ok t') :
    t'.roles = t.roles ∧ t'.assignments = t.assignments := by
  rw [createRoleAlias_eq h]
  exact ⟨rfl, rfl⟩

theorem alias_plan {role : ArchitectureRoleRecord} (aliasKey : String)
    (hrole : loadRoleById t roleId = some role) :
    ∃ plan, applyAliasProposal t roleId aliasKey = .ok plan ∧
      plan.writes =
        [fun t' =>
          (createRoleAlias (proposalAlias role.roleId aliasKey "create_role_alias")
            t').toOption] := by
  unfold applyAliasProposal
  rw [hrole]
  exact ⟨_, rfl, rfl⟩

theorem toOption_eq_some {ε α : Type*} {x : Except ε α} {a : α} (h : x.toOption = some a) :
    x = .ok a := by
  cases x with
  | error e => cases h
  | ok b =>
    cases h
    rfl

/-- **A stopped alias proposal** is completed by the next call. -/
theorem alias_resumes {aliasKey : String} (ht : t.WellFormed services.toRoleIdentity) :
    Resumes services proposalId (.createRoleAlias roleId aliasKey) t := by
  intro plan u n hplan hrun
  cases n with
  | zero => exact ⟨ht, trivial, u, ⟨plan, hplan, hrun⟩, .refl⟩
  | succ n =>
    have happly : applyAliasProposal t roleId aliasKey = .ok plan := hplan
    cases hrole : loadRoleById t roleId with
    | none => simp [applyAliasProposal, hrole] at happly
    | some role =>
      obtain ⟨plan', hplan', hwrites⟩ := alias_plan aliasKey hrole
      cases happly.symm.trans hplan'
      rw [hwrites] at hrun
      obtain ⟨t₁, hwrite, hnil⟩ := runWrites_cons_eq_true.mp hrun
      cases hnil
      have hok := toOption_eq_some hwrite
      obtain ⟨u', hagain, hagree⟩ := createRoleAlias_again hok
      obtain ⟨hroles, hassignments⟩ := createRoleAlias_frame hok
      have hstopped : stoppedTables plan (n + 1) t = u := by
        rw [stoppedTables, hwrites, List.take_succ_cons, List.take_nil,
          runWrites_none_cons hwrite]
        rfl
      have hread : loadRoleById u roleId = some role := by
        rw [loadRoleById, hroles, ← loadRoleById, hrole]
      obtain ⟨plan', hplan', hwrites'⟩ := alias_plan aliasKey hread
      have hrun' : runWrites none plan'.writes u = (u', true) := by
        have hwrite' : (createRoleAlias (proposalAlias role.roleId aliasKey "create_role_alias")
            u).toOption = some u' := by
          rw [hagain]
          rfl
        rw [hwrites', runWrites_none_cons hwrite', runWrites_nil]
      rw [hstopped]
      exact ⟨ht.congr hroles hassignments, trivial, u', ⟨plan', hplan', hrun'⟩, hagree⟩

/-! ## Renames -/

section Rename

variable {role : ArchitectureRoleRecord}

/-- The role with its new name. -/
def withName (newDisplayName : String) (role : ArchitectureRoleRecord) :
    ArchitectureRoleRecord :=
  { role with displayName := newDisplayName }

theorem withName_toRow :
    withName newDisplayName (withName newDisplayName role).toRow =
      (withName newDisplayName role).toRow := by
  rw [withName, withName, ArchitectureRoleRecord.toRow]

theorem withName_toRow_displayName :
    (withName newDisplayName role).toRow.displayName = newDisplayName := by
  rw [withName, ArchitectureRoleRecord.toRow]

theorem identified_withName (ht : t.WellFormed ident) (hrole : loadRoleById t roleId = some role) :
    (withName newDisplayName role).Identified ident :=
  (identified_of_loadRoleById ht hrole).2

/-- The tables after the whole plan. -/
def renameResult (newDisplayName : String) (role : ArchitectureRoleRecord) (t : RoleTables) :
    RoleTables :=
  recordAliases [proposalAlias role.roleId role.displayName "rename_role"]
    (withRole (withName newDisplayName role) t)

theorem rename_plan (newDisplayName : String)
    (ht : t.WellFormed ident) (hrole : loadRoleById t roleId = some role) :
    ∃ plan, applyRenameRoleProposal t roleId newDisplayName = .ok plan ∧
      plan.writes =
        [upsertRole (withName newDisplayName role),
          fun t' => some (createRoleAliasIfFree
            (proposalAlias role.roleId role.displayName "rename_role") t')] := by
  have hidentified : (withName newDisplayName role).Identified ident :=
    identified_withName ht hrole
  unfold applyRenameRoleProposal
  rw [hrole]
  refine ⟨_, rfl, ?_⟩
  dsimp only
  rw [← withName, persistedRoleId_eq ht hidentified]
  rfl

theorem rename_stopped (huuid : Function.Injective ident.deterministicUuid)
    (ht : t.WellFormed ident) (hrole : loadRoleById t roleId = some role)
    (hwrites : plan.writes =
      [upsertRole (withName newDisplayName role),
        fun t' => some (createRoleAliasIfFree
          (proposalAlias role.roleId role.displayName "rename_role") t')]) (n : ℕ) :
    stoppedTables plan (n + 1) t =
      recordAliases ([proposalAlias role.roleId role.displayName "rename_role"].take n)
        (withRole (withName newDisplayName role) t) := by
  have hidentified : (withName newDisplayName role).Identified ident :=
    identified_withName ht hrole
  have hput := upsertRole_eq_upsert ht huuid hidentified
  cases n with
  | zero =>
    rw [stoppedTables, hwrites, List.take_succ_cons, runWrites_none_cons hput]
    rfl
  | succ n =>
    rw [stoppedTables, hwrites, List.take_succ_cons, List.take_succ_cons, List.take_nil,
      runWrites_none_cons hput, List.take_succ_cons, List.take_nil]
    rfl

theorem loadRoleById_recordAliases {records : List ArchitectureRoleAliasRecord} :
    loadRoleById (recordAliases records t) roleId = loadRoleById t roleId := by
  rw [recordAliases_eq]
  rfl

theorem wellFormed_recordAliases {records : List ArchitectureRoleAliasRecord}
    (ht : t.WellFormed ident) : (recordAliases records t).WellFormed ident := by
  rw [recordAliases_eq]
  exact ht.congr rfl rfl

/-- Tables that differ in their aliases agree when these hold the same rows. -/
theorem agree_recordAliases {records records' : List ArchitectureRoleAliasRecord}
    (h : (recordAliases records t).aliases.SameRows (recordAliases records' t).aliases) :
    (recordAliases records t).Agree (recordAliases records' t) := by
  rw [recordAliases_eq records, recordAliases_eq records']
  exact ⟨.refl, h, .refl, .refl, .refl⟩

/-- The rename made again, after the role was put and some of its alias recorded. -/
theorem renameResult_again {first : List ArchitectureRoleAliasRecord} :
    renameResult newDisplayName (withName newDisplayName role).toRow
        (recordAliases first (withRole (withName newDisplayName role) t)) =
      recordAliases (first ++ [proposalAlias role.roleId newDisplayName "rename_role"])
        (withRole (withName newDisplayName role) t) := by
  have hput : withRole (withName newDisplayName role).toRow
      (recordAliases first (withRole (withName newDisplayName role) t)) =
        recordAliases first (withRole (withName newDisplayName role) t) := by
    refine withRole_again (t := t) ?_
    rw [recordAliases_eq]
  rw [renameResult, withName_toRow, withName_toRow_displayName, toRow_roleId, hput]
  exact List.foldl_append.symm

theorem runWrites_rename (huuid : Function.Injective ident.deterministicUuid)
    (ht : t.WellFormed ident) (hrole : loadRoleById t roleId = some role)
    (hwrites : plan.writes =
      [upsertRole (withName newDisplayName role),
        fun t' => some (createRoleAliasIfFree
          (proposalAlias role.roleId role.displayName "rename_role") t')]) :
    runWrites none plan.writes t = (renameResult newDisplayName role t, true) := by
  have hidentified : (withName newDisplayName role).Identified ident :=
    identified_withName ht hrole
  rw [hwrites, runWrites_none_cons (upsertRole_eq_upsert ht huuid hidentified)]
  rfl

variable (proposalId) in
/-- The next call succeeds with the aliases of the new name in place of the previous one. -/
theorem rename_again (newDisplayName : String)
    (huuid : Function.Injective services.deterministicUuid)
    (ht : t.WellFormed services.toRoleIdentity) (hrole : loadRoleById t roleId = some role)
    (first : List ArchitectureRoleAliasRecord) :
    let stopped := recordAliases first (withRole (withName newDisplayName role) t)
    loadRoleById stopped roleId = some (withName newDisplayName role).toRow ∧
      stopped.WellFormed services.toRoleIdentity ∧
      Completes services proposalId (.renameRole roleId newDisplayName) stopped
        (recordAliases (first ++ [proposalAlias role.roleId newDisplayName "rename_role"])
          (withRole (withName newDisplayName role) t)) := by
  intro stopped
  obtain rfl : role.roleId = roleId := (loadRoleById_eq_some hrole).2
  have hread : loadRoleById stopped role.roleId = some (withName newDisplayName role).toRow := by
    rw [loadRoleById_recordAliases]
    exact loadRoleById_withRole (withName newDisplayName role) t
  have hwell : stopped.WellFormed services.toRoleIdentity :=
    wellFormed_recordAliases (wellFormed_upsert_role ht (identified_withName ht hrole))
  obtain ⟨plan, hplan, hwrites⟩ := rename_plan newDisplayName hwell hread
  refine ⟨hread, hwell, plan, hplan, ?_⟩
  rw [runWrites_rename huuid hwell hread hwrites, renameResult_again]

/-- **A stopped rename** is completed by the next call when the name stays or the aliases are
settled. -/
theorem rename_resumes (huuid : Function.Injective services.deterministicUuid)
    (ht : t.WellFormed services.toRoleIdentity)
    (hrepeats : RepeatsItself services proposalId (.renameRole roleId newDisplayName) t) :
    Resumes services proposalId (.renameRole roleId newDisplayName) t := by
  intro plan u n hplan hrun
  cases n with
  | zero => exact ⟨ht, hrepeats, u, ⟨plan, hplan, hrun⟩, .refl⟩
  | succ n =>
    have happly : applyRenameRoleProposal t roleId newDisplayName = .ok plan := hplan
    cases hrole : loadRoleById t roleId with
    | none => simp [applyRenameRoleProposal, hrole] at happly
    | some role =>
      obtain ⟨plan', hplan', hwrites⟩ := rename_plan newDisplayName ht hrole
      cases happly.symm.trans hplan'
      cases hrun.symm.trans (runWrites_rename huuid ht hrole hwrites)
      obtain ⟨first, hfirst⟩ :
          ∃ first, [proposalAlias role.roleId role.displayName "rename_role"].take n = first :=
        ⟨_, rfl⟩
      have htake := hfirst ▸ List.take_prefix n
        [proposalAlias role.roleId role.displayName "rename_role"]
      obtain ⟨hread, hwell, hcompletes⟩ :=
        rename_again proposalId newDisplayName huuid ht hrole first
      rw [rename_stopped huuid ht hrole hwrites, hfirst]
      refine ⟨hwell, fun row hrow => ?_, _, hcompletes, agree_recordAliases ?_⟩
      · rw [hread] at hrow
        cases hrow
        exact .inl withName_toRow_displayName.symm
      · obtain rfl : role.roleId = roleId := (loadRoleById_eq_some hrole).2
        rcases hrepeats role hrole with hname | ⟨hprevious, hnew⟩
        · have hsame := sameRows_recordAliases
            (t := withRole (withName newDisplayName role) t) htake
          rw [recordAliases, recordAliases, recordAliases, ← List.foldl_append] at hsame
          rw [hname] at hsame ⊢
          exact fun r => (hsame r).symm
        · have hsettled : ∀ record ∈ first ++ [proposalAlias role.roleId newDisplayName
              "rename_role"], AliasSettled record (withRole (withName newDisplayName role) t) := by
            intro record hrecord
            rcases List.mem_append.mp hrecord with hrecord | hrecord
            · obtain rfl := List.mem_singleton.mp (htake.subset hrecord)
              exact hprevious.congr .refl
            · obtain rfl := List.mem_singleton.mp hrecord
              exact hnew.congr .refl
          have hsettled' : ∀ record ∈ [proposalAlias role.roleId role.displayName "rename_role"],
              AliasSettled record (withRole (withName newDisplayName role) t) := by
            intro record hrecord
            obtain rfl := List.mem_singleton.mp hrecord
            exact hprevious.congr .refl
          exact fun r =>
            (sameRows_of_settled hsettled' r).symm.trans (sameRows_of_settled hsettled r)

/-- Two names of a role that are not settled are recorded differently. -/
theorem settled_of_sameRows {name name' createdBy : String} (hname : name' ≠ name)
    (h : (recordAliases [proposalAlias roleId name createdBy] t).aliases.SameRows
      (recordAliases [proposalAlias roleId name' createdBy] t).aliases) :
    AliasSettled (proposalAlias roleId name createdBy) t ∧
      AliasSettled (proposalAlias roleId name' createdBy) t := by
  have hcell : ∀ k, (if k = normalizeRoleAlias name then
        claimAlias (findRow (·.aliasNormalized) k t.aliases.rows)
          (proposalAlias roleId name createdBy)
      else findRow (·.aliasNormalized) k t.aliases.rows) =
      if k = normalizeRoleAlias name' then
        claimAlias (findRow (·.aliasNormalized) k t.aliases.rows)
          (proposalAlias roleId name' createdBy)
      else findRow (·.aliasNormalized) k t.aliases.rows := by
    intro k
    have hk := UniqueTable.sameRows_iff_findRow.mp h k
    rwa [recordAliases, List.foldl_cons, List.foldl_nil, recordAliases, List.foldl_cons,
      List.foldl_nil, findRow_createRoleAliasIfFree, findRow_createRoleAliasIfFree] at hk
  have hold := hcell (normalizeRoleAlias name)
  have hnew := hcell (normalizeRoleAlias name')
  rw [if_pos rfl] at hold hnew
  rw [aliasSettled_iff, aliasSettled_iff]
  by_cases hkey : normalizeRoleAlias name = normalizeRoleAlias name'
  · rw [if_pos hkey] at hold
    have hnamed := claimAlias_eq_self_or_toRow (proposalAlias roleId name createdBy)
      (findRow (·.aliasNormalized) (normalizeRoleAlias name) t.aliases.rows)
    rcases hnamed with hself | hrow
    · refine ⟨hself _ rfl, ?_⟩
      have hkey' : normalizeRoleAlias (proposalAlias roleId name' createdBy).aliasKey =
          normalizeRoleAlias name := hkey.symm
      rw [hkey']
      exact hself _ rfl
    · -- the row would hold both names
      rw [hrow (proposalAlias roleId name createdBy) rfl,
        hrow (proposalAlias roleId name' createdBy) rfl, Option.some.injEq] at hold
      have hname' := congrArg ArchitectureRoleAliasRecord.aliasKey hold
      rw [aliasRow_aliasKey, aliasRow_aliasKey] at hname'
      exact absurd hname'.symm hname
  · rw [if_neg hkey] at hold
    rw [if_neg fun h => hkey h.symm] at hnew
    exact ⟨hold, hnew.symm⟩

/-- **A rename stopped after the role was put** leads to another alias. -/
theorem rename_misleads (huuid : Function.Injective services.deterministicUuid)
    (ht : t.WellFormed services.toRoleIdentity)
    (hrepeats : ¬ RepeatsItself services proposalId (.renameRole roleId newDisplayName) t) :
    Misleads services proposalId (.renameRole roleId newDisplayName) t := by
  intro plan u hplan hrun
  have happly : applyRenameRoleProposal t roleId newDisplayName = .ok plan := hplan
  cases hrole : loadRoleById t roleId with
  | none => simp [applyRenameRoleProposal, hrole] at happly
  | some role =>
    obtain ⟨plan', hplan', hwrites⟩ := rename_plan newDisplayName ht hrole
    cases happly.symm.trans hplan'
    cases hrun.symm.trans (runWrites_rename huuid ht hrole hwrites)
    obtain ⟨-, -, hcompletes⟩ := rename_again proposalId newDisplayName huuid ht hrole []
    refine ⟨1, by simp [hwrites], _, (rename_stopped huuid ht hrole hwrites 0).symm ▸ hcompletes,
      fun hagree => hrepeats fun row hrow => ?_⟩
    rw [hrole] at hrow
    cases hrow
    obtain rfl : role.roleId = roleId := (loadRoleById_eq_some hrole).2
    by_cases hname : newDisplayName = role.displayName
    · exact .inl hname
    · obtain ⟨hold, hnew⟩ := settled_of_sameRows hname hagree.aliases
      exact .inr ⟨hold.congr .refl, hnew.congr .refl⟩

end Rename

end ArchitectureRoles
end Bitloops
