import Bitloops.ArchitectureRoles.SplitRetry

/-!
# Which proposals are retryable

`retryable_iff`: a draft that can be applied is retryable exactly when it repeats itself.  Rule
drafts and edits never do; the loops over assignments that only give a status, and single aliases,
always do.
-/

namespace Bitloops
namespace ArchitectureRoles

open Checkpoints

variable {Body : Type} {services : RoleServices Body} {proposalId roleId ruleId : String}
  {t u : RoleTables}

/-! ## Rules that are drafted again -/

section Drafts

variable {spec : RuleSpecFile Body} {payload : RuleSpecStoragePayload}
  {rule : ArchitectureRoleRuleRecord}

theorem version_lt_next (hrule : rule ∈ t.rules.rows) (hrole : rule.roleId = roleId) :
    rule.version < nextRoleRuleVersion t roleId := by
  have hmax : ∀ versions : List ℕ, ∀ v ∈ versions, v ≤ versions.foldr max 0 := by
    intro versions
    induction versions with
    | nil => exact fun v hv => absurd hv List.not_mem_nil
    | cons first rest ih =>
      intro v hv
      rw [List.foldr_cons]
      rcases List.mem_cons.mp hv with rfl | hv
      · exact le_max_left _ _
      · exact (ih v hv).trans (le_max_right _ _)
  refine Nat.lt_succ_of_le (hmax _ _ (List.mem_map_of_mem ?_))
  exact List.mem_filter.mpr ⟨hrule, decide_eq_true hrole⟩

/-- A rule with the next version is a new row. -/
theorem not_agree_insertRoleRule (hrole : rule.roleId = roleId)
    (hversion : rule.version = nextRoleRuleVersion u roleId) :
    ¬ u.Agree (insertRoleRule rule u) := by
  intro h
  have hmem : rule ∈ u.rules.rows := (h.rules rule).mpr (UniqueTable.mem_upsert.mpr (.inl rfl))
  have hlt := version_lt_next hmem hrole
  omega

/-- A rule is found after another was inserted. -/
theorem loadRoleRuleById_insert {existing : ArchitectureRoleRuleRecord}
    (h : loadRoleRuleById t ruleId = some existing) :
    ∃ existing', loadRoleRuleById (insertRoleRule rule t) ruleId = some existing' := by
  obtain ⟨hmem, hid⟩ := mem_of_findRow h
  have hfound : ∃ row ∈ (insertRoleRule rule t).rules.rows, row.ruleId = ruleId := by
    by_cases hkey : (existing.ruleId, existing.version) = (rule.ruleId, rule.version)
    · exact ⟨rule, UniqueTable.mem_upsert.mpr (.inl rfl),
        (Prod.ext_iff.mp hkey).1.symm.trans hid⟩
    · exact ⟨existing, UniqueTable.mem_upsert.mpr (.inr ⟨hmem, hkey⟩), hid⟩
  obtain ⟨row, hrow, hrowId⟩ := hfound
  cases hload : loadRoleRuleById (insertRoleRule rule t) ruleId with
  | some existing' => exact ⟨existing', rfl⟩
  | none =>
    rw [loadRoleRuleById] at hload
    exact absurd hrowId (ne_of_findRow_none hload hrow)

theorem exists_draft_plan (t : RoleTables) (roleId : String)
    (hpayload : (services.ruleSpecStoragePayload spec.body).isSome) :
    ∃ plan, applyRuleDraftProposal services t roleId spec = .ok plan := by
  obtain ⟨payload, hpayload⟩ := Option.isSome_iff_exists.mp hpayload
  unfold applyRuleDraftProposal
  rw [hpayload]
  exact ⟨_, rfl⟩

theorem exists_edit_plan (roleId : String) (hexisting : (loadRoleRuleById t ruleId).isSome)
    (hpayload : (services.ruleSpecStoragePayload spec.body).isSome) :
    ∃ plan, applyRuleEditProposal services t ruleId roleId spec = .ok plan := by
  obtain ⟨payload, hpayload⟩ := Option.isSome_iff_exists.mp hpayload
  obtain ⟨existing, hexisting⟩ := Option.isSome_iff_exists.mp hexisting
  unfold applyRuleEditProposal
  rw [hexisting]
  dsimp only
  rw [hpayload]
  exact ⟨_, rfl⟩

/-- The plan inserts one rule of the role, with its next version. -/
def InsertsRule (roleId : String) (t : RoleTables) (plan : ProposalPlan) : Prop :=
  ∃ rule, plan.writes = [fun t' => some (insertRoleRule rule t')] ∧ rule.roleId = roleId ∧
    rule.version = nextRoleRuleVersion t roleId

theorem insertsRule_draft {plan : ProposalPlan}
    (hplan : applyRuleDraftProposal services t roleId spec = .ok plan) :
    (services.ruleSpecStoragePayload spec.body).isSome ∧ InsertsRule roleId t plan := by
  unfold applyRuleDraftProposal at hplan
  cases hpayload : services.ruleSpecStoragePayload spec.body with
  | none => simp [hpayload] at hplan
  | some payload =>
    rw [hpayload] at hplan
    cases hplan
    exact ⟨rfl, _, rfl, rfl, rfl⟩

theorem insertsRule_edit {plan : ProposalPlan}
    (hplan : applyRuleEditProposal services t ruleId roleId spec = .ok plan) :
    (loadRoleRuleById t ruleId).isSome ∧ (services.ruleSpecStoragePayload spec.body).isSome ∧
      InsertsRule roleId t plan := by
  unfold applyRuleEditProposal at hplan
  cases hexisting : loadRoleRuleById t ruleId with
  | none => simp [hexisting] at hplan
  | some existing =>
    cases hpayload : services.ruleSpecStoragePayload spec.body with
    | none => simp [hexisting, hpayload] at hplan
    | some payload =>
      simp only [hexisting, hpayload, Except.ok.injEq] at hplan
      cases hplan
      exact ⟨rfl, rfl, _, rfl, rfl, rfl⟩

/-- **A rule that was inserted** is inserted again, with the version after it. -/
theorem misleads_of_insertsRule {request : ProposalRequest Body}
    (hinserts : ∀ t plan, proposalPlan services proposalId request t = .ok plan →
      InsertsRule roleId t plan)
    (hagain : ∀ t plan rule, proposalPlan services proposalId request t = .ok plan →
      ∃ plan', proposalPlan services proposalId request (insertRoleRule rule t) = .ok plan') :
    Misleads services proposalId request t := by
  intro plan u hplan hrun
  obtain ⟨rule, hwrites, -, -⟩ := hinserts t plan hplan
  have hu : insertRoleRule rule t = u := by
    rw [hwrites] at hrun
    exact congrArg Prod.fst hrun
  subst hu
  obtain ⟨plan', hplan'⟩ := hagain t plan rule hplan
  obtain ⟨rule', hwrites', hrole, hversion⟩ := hinserts _ plan' hplan'
  have hstopped : stoppedTables plan 1 t = insertRoleRule rule t := by
    rw [stoppedTables, hwrites]
    rfl
  refine ⟨1, by rw [hwrites, List.length_singleton], insertRoleRule rule' (insertRoleRule rule t),
    ?_, not_agree_insertRoleRule hrole hversion⟩
  rw [hstopped]
  refine ⟨plan', hplan', ?_⟩
  rw [hwrites']
  rfl

theorem draft_misleads : Misleads services proposalId (.draftRule roleId spec) t :=
  misleads_of_insertsRule (fun _ _ hplan => (insertsRule_draft hplan).2)
    fun _ _ _ hplan => exists_draft_plan _ _ (insertsRule_draft hplan).1

theorem edit_misleads : Misleads services proposalId (.editRule ruleId roleId spec) t := by
  refine misleads_of_insertsRule (fun _ _ hplan => (insertsRule_edit hplan).2.2)
    fun t plan rule hplan => ?_
  obtain ⟨hexisting, hpayload, -⟩ := insertsRule_edit hplan
  obtain ⟨existing, hexisting⟩ := Option.isSome_iff_exists.mp hexisting
  obtain ⟨existing', hexisting'⟩ := loadRoleRuleById_insert hexisting
  exact exists_edit_plan _ (Option.isSome_iff_exists.mpr ⟨existing', hexisting'⟩) hpayload

end Drafts

/-! ## Proposals that can be applied -/

/-- The roles and rules that the proposal names are there, an alias is free or its role's own, and
a rule spec can be stored. -/
def Applicable (services : RoleServices Body) (request : ProposalRequest Body) (t : RoleTables) :
    Prop :=
  match request with
  | .renameRole roleId _ => (loadRoleById t roleId).isSome
  | .deprecateRole roleId replacementRoleId =>
    (loadRoleById t roleId).isSome ∧ ∀ id ∈ replacementRoleId, (loadRoleById t id).isSome
  | .removeRole roleId replacementRoleId =>
    (loadRoleById t roleId).isSome ∧ ∀ id ∈ replacementRoleId, (loadRoleById t id).isSome
  | .mergeRoles sourceRoleId targetRoleId =>
    (loadRoleById t sourceRoleId).isSome ∧ (loadRoleById t targetRoleId).isSome
  | .splitRole sourceRoleId _ => (loadRoleById t sourceRoleId).isSome
  | .createRoleAlias roleId aliasKey =>
    (loadRoleById t roleId).isSome ∧
      ∀ row ∈ findRow (·.aliasNormalized) (normalizeRoleAlias aliasKey) t.aliases.rows,
        row.roleId = roleId
  | .draftRule _ spec => (services.ruleSpecStoragePayload spec.body).isSome
  | .editRule ruleId _ spec =>
    (loadRoleRuleById t ruleId).isSome ∧ (services.ruleSpecStoragePayload spec.body).isSome
  | .activateRule ruleId => (loadRoleRuleById t ruleId).isSome
  | .disableRule ruleId => (loadRoleRuleById t ruleId).isSome

section Applying

variable {lifecycleStatus aliasKey newDisplayName : String}
  {invalidatedStatus : AssignmentStatus} {replacementRoleId : Option String}
  {plan : ProposalPlan}

/-- What a deprecation or a removal asks of the tables. -/
theorem applicable_of_lifecycle
    (hplan : applyLifecycleRoleProposal services proposalId t roleId replacementRoleId
      lifecycleStatus invalidatedStatus = .ok plan) :
    (loadRoleById t roleId).isSome ∧ ∀ id ∈ replacementRoleId, (loadRoleById t id).isSome := by
  unfold applyLifecycleRoleProposal loadReplacementRole at hplan
  cases hrole : loadRoleById t roleId with
  | none => simp [hrole] at hplan
  | some role =>
    refine ⟨rfl, fun id hid => ?_⟩
    cases hid
    cases hreplacement : loadRoleById t id with
    | none => simp [hrole, hreplacement] at hplan
    | some replacement => rfl

theorem lifecycle_applies (huuid : Function.Injective services.deterministicUuid)
    (ht : t.WellFormed services.toRoleIdentity) (hrole : (loadRoleById t roleId).isSome)
    (hreplacement : ∀ id ∈ replacementRoleId, (loadRoleById t id).isSome) :
    ∃ u plan, applyLifecycleRoleProposal services proposalId t roleId replacementRoleId
        lifecycleStatus invalidatedStatus = .ok plan ∧
      runWrites none plan.writes t = (u, true) := by
  obtain ⟨role, hrole⟩ := Option.isSome_iff_exists.mp hrole
  cases replacementRoleId with
  | none => exact ⟨_, lifecycle_completes proposalId lifecycleStatus invalidatedStatus huuid ht hrole⟩
  | some id =>
    obtain ⟨replacement, hreplacement⟩ := Option.isSome_iff_exists.mp (hreplacement id rfl)
    exact ⟨_, replacement_completes proposalId lifecycleStatus invalidatedStatus huuid ht hrole
      hreplacement⟩

/-- An alias is recorded when it is free or the role's own. -/
theorem createRoleAlias_isOk (record : ArchitectureRoleAliasRecord) (t : RoleTables) :
    (∃ u, (createRoleAlias record t).toOption = some u) ↔
      ∀ row ∈ findRow (·.aliasNormalized) (normalizeRoleAlias record.aliasKey) t.aliases.rows,
        row.roleId = record.roleId := by
  unfold createRoleAlias
  dsimp only
  cases hfound : findRow (·.aliasNormalized) (normalizeRoleAlias record.aliasKey)
      t.aliases.rows with
  | none =>
    refine ⟨fun _ row hrow => ?_, fun _ => ⟨_, rfl⟩⟩
    cases hrow
  | some existing =>
    dsimp only
    by_cases howner : existing.roleId = record.roleId
    · rw [if_pos howner]
      refine ⟨fun _ row hrow => ?_, fun _ => ⟨_, rfl⟩⟩
      cases hrow
      exact howner
    · rw [if_neg howner]
      refine ⟨?_, fun h => absurd (h existing rfl) howner⟩
      rintro ⟨u, hu⟩
      cases hu

theorem rename_completes (newDisplayName : String)
    (huuid : Function.Injective services.deterministicUuid)
    (ht : t.WellFormed services.toRoleIdentity) (hrole : (loadRoleById t roleId).isSome) :
    ∃ u, Completes services proposalId (.renameRole roleId newDisplayName) t u := by
  obtain ⟨role, hrole⟩ := Option.isSome_iff_exists.mp hrole
  obtain ⟨plan, hplan, hwrites⟩ := rename_plan newDisplayName ht hrole
  exact ⟨_, plan, hplan, runWrites_rename huuid ht hrole hwrites⟩

theorem alias_completes_iff :
    (∃ u, Completes services proposalId (.createRoleAlias roleId aliasKey) t u) ↔
      (loadRoleById t roleId).isSome ∧
        ∀ row ∈ findRow (·.aliasNormalized) (normalizeRoleAlias aliasKey) t.aliases.rows,
          row.roleId = roleId := by
  cases hrole : loadRoleById t roleId with
  | none =>
    constructor
    · rintro ⟨u, plan, hplan, -⟩
      have happly : applyAliasProposal t roleId aliasKey = .ok plan := hplan
      simp [applyAliasProposal, hrole] at happly
    · rintro ⟨h, -⟩
      cases h
  | some role =>
    obtain rfl : role.roleId = roleId := (loadRoleById_eq_some hrole).2
    obtain ⟨plan, hplan, hwrites⟩ := alias_plan aliasKey hrole
    have hok := createRoleAlias_isOk (proposalAlias role.roleId aliasKey "create_role_alias") t
    constructor
    · rintro ⟨u, plan', hplan', hrun⟩
      cases hplan.symm.trans hplan'
      rw [hwrites] at hrun
      obtain ⟨t', hwrite, -⟩ := runWrites_cons_eq_true.mp hrun
      exact ⟨rfl, hok.mp ⟨t', hwrite⟩⟩
    · rintro ⟨-, hfree⟩
      obtain ⟨u, hu⟩ := hok.mpr hfree
      refine ⟨u, plan, hplan, ?_⟩
      rw [hwrites, runWrites_none_cons hu, runWrites_nil]

theorem ruleLifecycle_applies_iff :
    (∃ u plan, applyRuleLifecycleProposal t ruleId lifecycleStatus = .ok plan ∧
        runWrites none plan.writes t = (u, true)) ↔ (loadRoleRuleById t ruleId).isSome := by
  constructor
  · rintro ⟨u, plan, hplan, -⟩
    obtain ⟨rule, hrule, -⟩ := ruleLifecycle_plan hplan
    exact Option.isSome_iff_exists.mpr ⟨rule, hrule⟩
  · intro hrule
    obtain ⟨rule, hrule⟩ := Option.isSome_iff_exists.mp hrule
    exact ⟨_, ruleLifecycle_completes lifecycleStatus hrule⟩

/-- **A call that is not stopped** succeeds exactly on the tables that the proposal asks for. -/
theorem completes_iff_applicable {request : ProposalRequest Body}
    (huuid : Function.Injective services.deterministicUuid)
    (ht : t.WellFormed services.toRoleIdentity) :
    (∃ u, Completes services proposalId request t u) ↔ Applicable services request t := by
  cases request with
  | renameRole roleId newDisplayName =>
    refine ⟨?_, rename_completes newDisplayName huuid ht⟩
    rintro ⟨u, plan, hplan, -⟩
    have happly : applyRenameRoleProposal t roleId newDisplayName = .ok plan := hplan
    show (loadRoleById t roleId).isSome
    cases hrole : loadRoleById t roleId with
    | none => simp [applyRenameRoleProposal, hrole] at happly
    | some role => rfl
  | deprecateRole roleId replacementRoleId =>
    refine ⟨?_, fun h => lifecycle_applies huuid ht h.1 h.2⟩
    rintro ⟨u, plan, hplan, -⟩
    exact applicable_of_lifecycle hplan
  | removeRole roleId replacementRoleId =>
    refine ⟨?_, fun h => lifecycle_applies huuid ht h.1 h.2⟩
    rintro ⟨u, plan, hplan, -⟩
    exact applicable_of_lifecycle hplan
  | mergeRoles sourceRoleId targetRoleId =>
    constructor
    · rintro ⟨u, plan, hplan, -⟩
      have happly : applyMergeRoleProposal services proposalId t sourceRoleId targetRoleId =
          .ok plan := hplan
      cases hsource : loadRoleById t sourceRoleId with
      | none => simp [applyMergeRoleProposal, hsource] at happly
      | some source =>
        cases htarget : loadRoleById t targetRoleId with
        | none => simp [applyMergeRoleProposal, hsource, htarget] at happly
        | some target =>
          exact ⟨by rw [hsource]; rfl, by rw [htarget]; rfl⟩
    · rintro ⟨hsource, htarget⟩
      obtain ⟨source, hsource⟩ := Option.isSome_iff_exists.mp hsource
      obtain ⟨target, htarget⟩ := Option.isSome_iff_exists.mp htarget
      exact ⟨_, merge_completes proposalId huuid ht hsource htarget⟩
  | splitRole sourceRoleId splitSpec =>
    constructor
    · rintro ⟨u, plan, hplan, -⟩
      have happly : applySplitRoleProposal services proposalId t sourceRoleId splitSpec =
          .ok plan := hplan
      show (loadRoleById t sourceRoleId).isSome
      cases hsource : loadRoleById t sourceRoleId with
      | none => simp [applySplitRoleProposal, hsource] at happly
      | some source => rfl
    · intro hsource
      obtain ⟨source, hsource⟩ := Option.isSome_iff_exists.mp hsource
      exact ⟨_, split_completes proposalId splitSpec huuid ht hsource⟩
  | createRoleAlias roleId aliasKey => exact alias_completes_iff
  | draftRule roleId spec =>
    constructor
    · rintro ⟨u, plan, hplan, -⟩
      exact (insertsRule_draft hplan).1
    · intro hpayload
      obtain ⟨plan, hplan⟩ := exists_draft_plan t roleId hpayload
      obtain ⟨-, rule, hwrites, -⟩ := insertsRule_draft hplan
      refine ⟨insertRoleRule rule t, plan, hplan, ?_⟩
      rw [hwrites]
      rfl
  | editRule ruleId roleId spec =>
    constructor
    · rintro ⟨u, plan, hplan, -⟩
      obtain ⟨hexisting, hpayload, -⟩ := insertsRule_edit hplan
      exact ⟨hexisting, hpayload⟩
    · rintro ⟨hexisting, hpayload⟩
      obtain ⟨plan, hplan⟩ := exists_edit_plan roleId hexisting hpayload
      obtain ⟨-, -, rule, hwrites, -⟩ := insertsRule_edit hplan
      refine ⟨insertRoleRule rule t, plan, hplan, ?_⟩
      rw [hwrites]
      rfl
  | activateRule ruleId => exact ruleLifecycle_applies_iff
  | disableRule ruleId => exact ruleLifecycle_applies_iff

end Applying

/-! ## The law -/

section Law

variable {request : ProposalRequest Body}

/-- **A proposal that repeats itself** resumes where a call left it. -/
theorem resumes_of_repeatsItself (huuid : Function.Injective services.deterministicUuid)
    (ht : t.WellFormed services.toRoleIdentity)
    (hrepeats : RepeatsItself services proposalId request t) :
    Resumes services proposalId request t := by
  have hstatuses : ∀ roleId lifecycleStatus invalidatedStatus, invalidatedStatus ≠ .active →
      (∀ t, proposalPlan services proposalId request t =
        applyLifecycleRoleProposal services proposalId t roleId none lifecycleStatus
          invalidatedStatus) →
      (∀ t, RepeatsItself services proposalId request t) →
        Resumes services proposalId request t := by
    intro roleId lifecycleStatus invalidatedStatus hstatus hrequest hrepeats plan u n hplan hrun
    obtain ⟨hwell, plan', hplan', hrun'⟩ :=
      lifecycle_again huuid hstatus ht ((hrequest t).symm.trans hplan) hrun n
    exact ⟨hwell, hrepeats _, u, ⟨plan', (hrequest _).trans hplan', hrun'⟩, .refl⟩
  have hmigrates : ∀ roleId id lifecycleStatus invalidatedStatus,
      (∀ t, proposalPlan services proposalId request t =
        applyLifecycleRoleProposal services proposalId t roleId (some id) lifecycleStatus
          invalidatedStatus) →
      (∀ t, RepeatsItself services proposalId request t ↔
        MigrationsRecorded services proposalId lifecycleStatus roleId id t) →
        Resumes services proposalId request t := by
    intro roleId id lifecycleStatus invalidatedStatus hrequest hrecorded plan u n hplan hrun
    obtain ⟨hrole, hreplacement⟩ := applicable_of_lifecycle ((hrequest t).symm.trans hplan)
    obtain ⟨role, hrole⟩ := Option.isSome_iff_exists.mp hrole
    obtain ⟨replacement, hreplacement⟩ := Option.isSome_iff_exists.mp (hreplacement id rfl)
    have hidentified : (withLifecycle lifecycleStatus role).Identified services.toRoleIdentity :=
      identified_withLifecycle ht hrole
    exact (isMigration_replacement huuid ht hrequest hrole hreplacement).resumes ht huuid
      toRow_toRow (identified_toRow hidentified) hrecorded ((hrecorded t).mp hrepeats) plan u n
      hplan hrun
  have hrules : ∀ ruleId lifecycleStatus,
      (∀ t, proposalPlan services proposalId request t =
        applyRuleLifecycleProposal t ruleId lifecycleStatus) →
      (∀ t, RepeatsItself services proposalId request t) →
        Resumes services proposalId request t := by
    intro ruleId lifecycleStatus hrequest hrepeats plan u n hplan hrun
    obtain ⟨hwell, plan', hplan', hrun'⟩ :=
      ruleLifecycle_again ht ((hrequest t).symm.trans hplan) hrun n
    exact ⟨hwell, hrepeats _, u, ⟨plan', (hrequest _).trans hplan', hrun'⟩, .refl⟩
  cases request with
  | renameRole roleId newDisplayName => exact rename_resumes huuid ht hrepeats
  | deprecateRole roleId replacementRoleId =>
    cases replacementRoleId with
    | none =>
      exact hstatuses roleId "deprecated" .needsReview AssignmentStatus.noConfusion
        (fun _ => rfl) fun _ _ h => nomatch h
    | some id =>
      refine hmigrates roleId id "deprecated" .needsReview (fun _ => rfl) fun t => ?_
      exact ⟨fun h => h id rfl, fun h _ hid => Option.some.inj hid ▸ h⟩
  | removeRole roleId replacementRoleId =>
    cases replacementRoleId with
    | none =>
      exact hstatuses roleId "removed" .stale AssignmentStatus.noConfusion
        (fun _ => rfl) fun _ _ h => nomatch h
    | some id =>
      refine hmigrates roleId id "removed" .stale (fun _ => rfl) fun t => ?_
      exact ⟨fun h => h id rfl, fun h _ hid => Option.some.inj hid ▸ h⟩
  | mergeRoles sourceRoleId targetRoleId =>
    intro plan u n hplan hrun
    obtain ⟨hsource, htarget⟩ := (completes_iff_applicable huuid ht).mp ⟨u, plan, hplan, hrun⟩
    obtain ⟨source, hsource⟩ := Option.isSome_iff_exists.mp hsource
    obtain ⟨target, htarget⟩ := Option.isSome_iff_exists.mp htarget
    have hidentified : (withLifecycle "deprecated" source).Identified services.toRoleIdentity :=
      identified_withLifecycle ht hsource
    exact (isMigration_merge huuid ht hsource htarget).resumes ht huuid toRow_toRow
      (identified_toRow hidentified) (fun _ => Iff.rfl) hrepeats plan u n hplan hrun
  | splitRole sourceRoleId splitSpec => exact split_resumes huuid ht hrepeats
  | createRoleAlias roleId aliasKey => exact alias_resumes ht
  | draftRule roleId spec => exact absurd hrepeats id
  | editRule ruleId roleId spec => exact absurd hrepeats id
  | activateRule ruleId => exact hrules ruleId "active" (fun _ => rfl) fun _ => trivial
  | disableRule ruleId => exact hrules ruleId "disabled" (fun _ => rfl) fun _ => trivial

/-- **A proposal that does not repeat itself** is misled by a call that stops. -/
theorem misleads_of_not_repeatsItself (huuid : Function.Injective services.deterministicUuid)
    (ht : t.WellFormed services.toRoleIdentity)
    (hrepeats : ¬ RepeatsItself services proposalId request t) :
    Misleads services proposalId request t := by
  have hmigrates : ∀ roleId replacementRoleId lifecycleStatus invalidatedStatus,
      (∀ t, proposalPlan services proposalId request t =
        applyLifecycleRoleProposal services proposalId t roleId replacementRoleId lifecycleStatus
          invalidatedStatus) →
      (¬ ∀ id ∈ replacementRoleId,
        MigrationsRecorded services proposalId lifecycleStatus roleId id t) →
        Misleads services proposalId request t := by
    intro roleId replacementRoleId lifecycleStatus invalidatedStatus hrequest hrecorded plan u
      hplan hrun
    obtain ⟨hrole, hreplacement⟩ := applicable_of_lifecycle ((hrequest t).symm.trans hplan)
    obtain ⟨role, hrole⟩ := Option.isSome_iff_exists.mp hrole
    cases replacementRoleId with
    | none => exact absurd (fun _ h => nomatch h) hrecorded
    | some id =>
      obtain ⟨replacement, hreplacement⟩ := Option.isSome_iff_exists.mp (hreplacement id rfl)
      refine (isMigration_replacement huuid ht hrequest hrole hreplacement).misleads ht huuid
        (fun h => hrecorded fun _ hid => Option.some.inj hid ▸ h) plan u hplan hrun
  cases request with
  | renameRole roleId newDisplayName => exact rename_misleads huuid ht hrepeats
  | deprecateRole roleId replacementRoleId =>
    exact hmigrates roleId replacementRoleId "deprecated" .needsReview (fun _ => rfl) hrepeats
  | removeRole roleId replacementRoleId =>
    exact hmigrates roleId replacementRoleId "removed" .stale (fun _ => rfl) hrepeats
  | mergeRoles sourceRoleId targetRoleId =>
    intro plan u hplan hrun
    obtain ⟨hsource, htarget⟩ := (completes_iff_applicable huuid ht).mp ⟨u, plan, hplan, hrun⟩
    obtain ⟨source, hsource⟩ := Option.isSome_iff_exists.mp hsource
    obtain ⟨target, htarget⟩ := Option.isSome_iff_exists.mp htarget
    exact (isMigration_merge huuid ht hsource htarget).misleads ht huuid hrepeats plan u hplan hrun
  | splitRole sourceRoleId splitSpec => exact split_misleads huuid ht hrepeats
  | createRoleAlias roleId aliasKey => exact absurd trivial hrepeats
  | draftRule roleId spec => exact draft_misleads
  | editRule ruleId roleId spec => exact edit_misleads
  | activateRule ruleId => exact absurd trivial hrepeats
  | disableRule ruleId => exact absurd trivial hrepeats

end Law

/-- **Retries of a proposal.**  A draft is retryable exactly when it cannot be applied or repeats
itself. -/
theorem retryable_iff {s : RoleStore Body} {request : ProposalRequest Body}
    (huuid : Function.Injective services.deterministicUuid)
    (hs : s.tables.WellFormed services.toRoleIdentity)
    (hdraft : IsDraft proposalId request s) :
    Retryable services proposalId s ↔
      (Applicable services request s.tables →
        RepeatsItself services proposalId request s.tables) := by
  constructor
  · intro h happlicable
    refine Classical.byContradiction fun hrepeats => ?_
    obtain ⟨u, hu⟩ := (completes_iff_applicable huuid hs).mpr happlicable
    obtain ⟨once, honce, -⟩ := hdraft.completes hu
    exact not_retryable_of_misleads hdraft (misleads_of_not_repeatsItself huuid hs hrepeats) honce h
  · intro h
    by_cases happlicable : Applicable services request s.tables
    · exact retryable_of_repeatsItself (fun _ => resumes_of_repeatsItself huuid) hdraft hs
        (h happlicable)
    · refine ⟨fun stops once t honce => ?_, fun stops t => settled_of_isDraft hdraft stops⟩
      exact absurd ((completes_iff_applicable huuid hs).mp ⟨_, (hdraft.applied honce).2⟩)
        happlicable

/-! ## An alias and a rule draft -/

/-- The request as a draft, on the roles `entrypoint` and `cli`. -/
def draftStore (request : ProposalRequest Unit) : RoleStore Unit where
  tables := mergeTables []
  proposals :=
    UniqueTable.empty.upsert
      { proposalId := "proposal", status := "draft", request, resultPayload := .object [] }

def entrypointSpec : RuleSpecFile Unit where
  body := ()
  evidence := .array []
  metadata := .object []

/-- A single alias repeats itself. -/
theorem alias_retryable :
    Retryable plainServices "proposal" (draftStore (.createRoleAlias entrypointId "main")) := by
  have hwell : (mergeTables []).WellFormed plainServices.toRoleIdentity :=
    ⟨by decide, by decide, by decide⟩
  have hdraft : IsDraft "proposal" (.createRoleAlias entrypointId "main")
      (draftStore (.createRoleAlias entrypointId "main")) := ⟨_, rfl, by decide, rfl⟩
  exact (retryable_iff Function.injective_id hwell hdraft).mpr fun _ => trivial

/-- A rule draft that fails before it is marked applied leaves two versions of the rule. -/
theorem ruleDraft_not_retryable :
    ¬ Retryable plainServices "proposal" (draftStore (.draftRule entrypointId entrypointSpec)) := by
  let s := draftStore (.draftRule entrypointId entrypointSpec)
  intro h
  have honce : (applyProposal plainServices none "proposal" s).2 = true := by decide
  have hagain : (applyProposal plainServices none "proposal"
      (interrupted plainServices "proposal" [1] s)).2 = true := by decide
  have hagree := h.agrees [1] _ _ (Prod.ext rfl honce) (Prod.ext rfl hagain)
  have hsecond : ((applyProposal plainServices none "proposal"
      (interrupted plainServices "proposal" [1] s)).1.tables.rules.rows.any
        fun rule => rule.version = 2) = true := by decide
  have hfirst : ((applyProposal plainServices none "proposal" s).1.tables.rules.rows.all
      fun rule => rule.version ≠ 2) = true := by decide
  obtain ⟨rule, hrule, hversion⟩ := List.any_eq_true.mp hsecond
  have hother := List.all_eq_true.mp hfirst rule ((hagree.rules rule).mpr hrule)
  exact absurd (of_decide_eq_true hversion) (of_decide_eq_true hother)

end ArchitectureRoles
end Bitloops
