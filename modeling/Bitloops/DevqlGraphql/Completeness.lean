import Bitloops.DevqlGraphql.StageLeaves

/-!
# A compiled document has every part of the query

The validation rejects most combinations that the compiler has no place for; without those that it
accepts all the same, every part of an accepted query appears in the document.
-/

namespace Bitloops
namespace DevqlGraphql

open Results

/-! ## Queries without a selection -/

section Terminal

variable {dates : DateParsers} {parsed : ParsedDevqlQuery} {leaf : GraphqlSelection}
  {call : RegisteredStageCall}

/-- The terminal field of a query that the validation accepts has its stages. -/
theorem terminal_appear {stage : Option RegisteredStageKind}
    (hnone : parsed.selectArtefacts = none) (haccepted : PipelineAccepted parsed stage)
    (hplaced : Placed parsed stage)
    (hcall : ∀ kind ∈ stage, parsed.registeredStages = [call] ∧ kind.IsOf call)
    (h : compileTerminalLeaf dates parsed stage = .ok leaf) :
    StagesAppear dates parsed stage leaf := by
  unfold compileTerminalLeaf at h
  rw [hnone] at h
  have hone := hplaced.oneTerminal hnone
  have hHC := haccepted.historicalContext
  have hCG := haccepted.contextGuidance
  have hactivity := haccepted.activity
  have hdeps := haccepted.deps
  have hclones := haccepted.clones
  have hchat := haccepted.chatHistory
  cases hK : parsed.hasCheckpointsStage with
  | true =>
    rw [hK] at h hone hactivity
    simp only [Bool.true_or, Bool.true_and, Bool.or_eq_false_iff] at hactivity
    simp only [hactivity.2, Bool.not_false, Bool.and_true] at hclones hchat
    have hT : parsed.hasTelemetryStage = false := Bool.toNat_eq_zero.1 (by simp at hone; omega)
    have hD : parsed.hasDepsStage = false := Bool.toNat_eq_zero.1 (by simp at hone; omega)
    obtain rfl := stage_eq_none haccepted hactivity.2 hclones (by simp [hK])
      (Bool.toNat_eq_zero.1 (by simp at hone; omega))
    refine checkpoints_appear hnone ?_ h
    simp [ParsedDevqlQuery.flags, *]
  | false =>
  cases hT : parsed.hasTelemetryStage with
  | true =>
    rw [hK, hT] at h
    rw [hT] at hone hactivity
    simp only [Bool.or_true, Bool.true_and, Bool.or_eq_false_iff] at hactivity
    simp only [hactivity.2, Bool.not_false, Bool.and_true] at hclones hchat
    have hD : parsed.hasDepsStage = false := Bool.toNat_eq_zero.1 (by simp at hone; omega)
    obtain rfl := stage_eq_none haccepted hactivity.2 hclones (by simp [hT])
      (Bool.toNat_eq_zero.1 (by simp at hone; omega))
    refine telemetry_appear hnone ?_ h
    simp [ParsedDevqlQuery.flags, *]
  | false =>
  cases hD : parsed.hasDepsStage with
  | true =>
    rw [hD, Bool.true_and] at hdeps
    rw [hK, hT, hD, hdeps] at h
    rw [hD] at hone
    simp only [hdeps, Bool.not_false, Bool.and_true] at hclones hchat
    obtain rfl := stage_eq_none haccepted hdeps hclones (by simp [hD])
      (Bool.toNat_eq_zero.1 (by simp at hone; omega))
    refine deps_appear hnone ?_ h
    simp [ParsedDevqlQuery.flags, *]
  | false =>
  rw [hK, hT, hD, Bool.false_and] at h
  simp only [Bool.false_eq_true, if_false] at h
  have hread (kind : RegisteredStageKind) (hkind : stage = some kind) :
      ArgumentsRead parsed.hasArtefactsStage call kind :=
    hplaced.arguments kind hkind call (by simp [(hcall kind hkind).1])
  cases hA : parsed.hasArtefactsStage with
  | false =>
    rw [hA] at h hclones hchat hread
    simp only [Bool.not_false, Bool.and_true] at hclones hchat
    have hflags : parsed.flags = {} := by simp [ParsedDevqlQuery.flags, *]
    cases stage with
    | none => cases h
    | some kind =>
      obtain ⟨hstages, hof⟩ := hcall kind rfl
      have hlimit (hlim : parsed.hasLimitStage) : kind.takesLimit false := by
        rw [← hchat]
        exact hplaced.limit hlim kind rfl
      have hselect (hkind : kind.takesSelect false = false) : parsed.selectFields = [] := by
        by_cases hne : parsed.selectFields = []
        · exact hne
        · have htakes := (hplaced.select hne).2 kind rfl
          rw [hA, hkind] at htakes
          cases htakes
      cases kind with
      | cloneSummary =>
        exact absurd haccepted.cloneSummary (by simp [hclones, RegisteredStageKind.isCloneSummary])
      | depsSummary =>
        exact absurd haccepted.depsSummary (by simp [hA, RegisteredStageKind.isDepsSummary])
      | tests => exact absurd haccepted.tests (by simp [hA, RegisteredStageKind.isTests])
      | coverage => exact absurd haccepted.coverage (by simp [hA, RegisteredStageKind.isCoverage])
      | testsSummary =>
        rw [← Except.ok.inj h]
        refine testsSummary_appear hnone hflags hstages (hread _ rfl) ?_ (hselect rfl)
        exact Bool.eq_false_iff.2 fun hlim => by cases hlimit hlim
      | knowledge stage =>
        obtain rfl : stage = call := hof
        exact knowledge_appear hnone hflags hstages (hread _ rfl) h
      | selectionOverview => cases haccepted.selectionOverview
      | httpContext => cases haccepted.httpContext
      | _ => exact http_appear rfl hnone hflags hstages hof (hread _ rfl) hlimit (hselect rfl) h
  | true =>
    rw [hA] at h hread
    have hflags : parsed.flags =
        { artefacts := true, clones := parsed.hasClonesStage,
          chatHistory := parsed.hasChatHistoryStage } := by
      simp [ParsedDevqlQuery.flags, *]
    have hselect (hne : parsed.selectFields ≠ []) := (hplaced.select hne).1 hnone
    have happear (hstage : parsed.hasClonesStage = true → stage = none)
        (h : compileArtefactsLeaf dates parsed stage = .ok leaf) :
        StagesAppear dates parsed stage leaf :=
      artefacts_appear hnone hflags hstage
        (fun kind hkind => ⟨(hcall kind hkind).1, (hcall kind hkind).2, hread kind hkind⟩)
        hplaced.limit hselect h
    cases stage with
    | none => exact happear (fun _ => rfl) h
    | some kind =>
      obtain ⟨hstages, hof⟩ := hcall kind rfl
      have hknowledge := haccepted.knowledge
      have hdirect := haccepted.directHttp
      have hlossy := haccepted.directHttpArtefacts
      cases kind with
      | cloneSummary =>
        have hC : parsed.hasClonesStage = true := by
          simpa [RegisteredStageKind.isCloneSummary] using haccepted.cloneSummary
        have hH := haccepted.clonesChatHistory
        rw [hC, Bool.true_and] at hH
        rw [hC, hH] at hflags
        have hempty := haccepted.cloneSummarySelect
        refine cloneSummary_appear hnone hflags hstages (hread _ rfl) ?_
          (hplaced.cloneSummary rfl) h
        simpa [RegisteredStageKind.isCloneSummary] using hempty
      | depsSummary spec =>
        refine happear (fun hC => absurd haccepted.depsSummaryClones ?_) h
        simp [hC, RegisteredStageKind.isDepsSummary]
      | tests stage =>
        refine happear (fun hC => absurd haccepted.testsClones ?_) h
        simp [hC, RegisteredStageKind.isTests]
      | coverage =>
        refine happear (fun hC => absurd haccepted.coverageClones ?_) h
        simp [hC, RegisteredStageKind.isCoverage]
      | testsSummary =>
        exact absurd haccepted.testsSummary (by simp [hA, RegisteredStageKind.isTestsSummary])
      | knowledge => exact absurd hknowledge (by simp [hA, RegisteredStageKind.isKnowledge])
      | selectionOverview => cases haccepted.selectionOverview
      | httpContext => cases haccepted.httpContext
      | httpLossyTransforms stage =>
        refine happear (fun hC => absurd hdirect ?_) h
        simp [hC, RegisteredStageKind.isDirectHttp]
      | _ => exact absurd hlossy (by
          simp [hA, RegisteredStageKind.isDirectHttp, RegisteredStageKind.isHttpLossyTransforms])

/-- The same where the registered stage is compiled under the project. -/
theorem project_appear {kind : RegisteredStageKind} (hnone : parsed.selectArtefacts = none)
    (haccepted : PipelineAccepted parsed (some kind)) (hplaced : Placed parsed (some kind))
    (hstages : parsed.registeredStages = [call]) (hof : kind.IsOf call)
    (hproject : shouldCompileProjectStage parsed (some kind) = true)
    (h : compileProjectStageLeaf dates parsed kind = .ok leaf) :
    StagesAppear dates parsed (some kind) leaf := by
  have hread := hplaced.arguments kind rfl call (by simp [hstages])
  obtain ⟨hH, hC, hD, hselect, hkind⟩ := shouldCompileProjectStage_eq_true hproject
  have hHC := haccepted.historicalContext
  have hCG := haccepted.contextGuidance
  have hone := hplaced.oneTerminal hnone
  have hactivity := haccepted.activity
  have halone (hA : parsed.hasArtefactsStage = true) :
      parsed.hasCheckpointsStage = false ∧ parsed.hasTelemetryStage = false := by
    rw [hA, Bool.or_true, Bool.and_true] at hactivity
    exact Bool.or_eq_false_iff.1 hactivity
  cases kind with
  | tests stage =>
    obtain rfl : stage = call := hof
    have hA : parsed.hasArtefactsStage = true := by
      simpa [RegisteredStageKind.isTests] using haccepted.tests
    obtain ⟨hK, hT⟩ := halone hA
    rw [hA] at hread
    refine projectTests_appear hnone ?_ hstages hread hselect h
    simp [ParsedDevqlQuery.flags, *]
  | coverage =>
    have hA : parsed.hasArtefactsStage = true := by
      simpa [RegisteredStageKind.isCoverage] using haccepted.coverage
    obtain ⟨hK, hT⟩ := halone hA
    rw [hA] at hread
    refine projectCoverage_appear hnone ?_ hstages hread hselect h
    simp [ParsedDevqlQuery.flags, *]
  | testsSummary =>
    have hA : parsed.hasArtefactsStage = false := by
      simpa [RegisteredStageKind.isTestsSummary] using haccepted.testsSummary
    have hsum : parsed.hasCheckpointsStage.toNat + parsed.hasTelemetryStage.toNat +
        parsed.hasDepsStage.toNat + 1 ≤ 1 := hone
    have hK : parsed.hasCheckpointsStage = false := Bool.toNat_eq_zero.1 (by omega)
    have hT : parsed.hasTelemetryStage = false := Bool.toNat_eq_zero.1 (by omega)
    rw [hA] at hread
    rw [← Except.ok.inj h]
    refine testsSummary_appear hnone ?_ hstages hread ?_ hselect
    · simp [ParsedDevqlQuery.flags, *]
    · exact Bool.eq_false_iff.2 fun hlim => by cases hplaced.limit hlim _ rfl
  | cloneSummary | depsSummary | knowledge | selectionOverview | httpContext =>
    cases hkind
  | _ =>
    have hdirect := haccepted.directHttp
    have hlossy := haccepted.directHttpArtefacts
    have hnested := hplaced.artefacts
    have hA : parsed.hasArtefactsStage = false := by
      cases hA : parsed.hasArtefactsStage with
      | false => rfl
      | true =>
        first
          | exact absurd (hnested hA rfl) (by rw [hproject]; exact fun h => by cases h)
          | exact absurd hlossy (by
              simp [hA, RegisteredStageKind.isDirectHttp,
                RegisteredStageKind.isHttpLossyTransforms])
    simp only [Option.any_some, RegisteredStageKind.isDirectHttp, Bool.true_and,
      Bool.or_eq_false_iff] at hdirect
    obtain ⟨⟨⟨⟨hK, hT⟩, -⟩, -⟩, -⟩ := hdirect
    rw [hA] at hread
    refine http_appear rfl hnone ?_ hstages hof hread ?_ hselect h
    · simp [ParsedDevqlQuery.flags, *]
    · intro hlim
      rw [← hH]
      exact hplaced.limit hlim _ rfl

end Terminal

/-! ## Scopes -/

section Scopes

variable {dates : DateParsers} {parsed : ParsedDevqlQuery} {field : GraphqlSelection}

theorem subset_inScope (name : String) (arg : Option GraphqlArgument) :
    field.compiledFields ⊆ (inScope name arg field).compiledFields := by
  cases arg with
  | none => exact List.Subset.refl _
  | some arg => exact compiledFields_subset (List.mem_singleton.2 rfl)

theorem mem_inScope (field : GraphqlSelection) (name : String) (arg : GraphqlArgument) :
    ∃ f ∈ (inScope name (some arg) field).compiledFields, f.name = name ∧ f.args = [arg] :=
  ⟨_, mem_compiledFields_field, rfl, rfl⟩

theorem gives_path {f : CompiledField} {path : String} (h : f.args = [pathArg path]) :
    f.Gives "path" (quotedValue path) :=
  CompiledField.gives_of_mem (by rw [h]; exact List.mem_singleton.2 rfl)

theorem inFileScope_appear (hfiles : (parsed.file.isSome && parsed.filesPath.isSome) = false) :
    field.compiledFields ⊆ (inFileScope parsed field).compiledFields ∧
      ∀ part ∈ parsed.file.toList.map QueryPart.file ++ parsed.filesPath.toList.map .files,
        part.AppearsIn dates (inFileScope parsed field).compiledFields := by
  unfold inFileScope
  cases hfile : parsed.file with
  | some file =>
    have hnone : parsed.filesPath = none := by simpa [hfile] using hfiles
    refine ⟨subset_inScope _ _, fun part hpart => ?_⟩
    rw [hnone] at hpart
    rw [List.mem_singleton.1 hpart]
    obtain ⟨f, hf, hname, hargs⟩ := mem_inScope field "file" (pathArg file)
    exact ⟨f, hf, List.mem_singleton.2 hname, gives_path hargs⟩
  | none =>
    cases hpath : parsed.filesPath with
    | none => exact ⟨List.Subset.refl _, fun part hpart => (nomatch hpart)⟩
    | some path =>
      refine ⟨subset_inScope _ _, fun part hpart => ?_⟩
      rw [List.mem_singleton.1 hpart]
      obtain ⟨f, hf, hname, hargs⟩ := mem_inScope field "files" (pathArg path)
      exact ⟨f, hf, List.mem_singleton.2 hname, gives_path hargs⟩

theorem asOf_appears {selector : AsOfSelector} :
    (QueryPart.asOf selector).AppearsIn dates
      (inScope "asOf" (some (compileAsOfInput selector)) field).compiledFields := by
  obtain ⟨f, hf, hname, hargs⟩ := mem_inScope field "asOf" (compileAsOfInput selector)
  refine ⟨f, hf, List.mem_singleton.2 hname, ?_⟩
  have hmem : compileAsOfInput selector ∈ f.args := by
    rw [hargs]
    exact List.mem_singleton.2 rfl
  cases selector <;> exact CompiledField.gives_of_mem_object hmem (List.mem_singleton.2 rfl)

theorem wrapInScopes_appear {mode : GraphqlCompileMode}
    (hfiles : (parsed.file.isSome && parsed.filesPath.isSome) = false) :
    field.compiledFields ⊆ (wrapInScopes parsed field mode).compiledFields ∧
      ∀ part ∈ scopeParts parsed mode,
        part.AppearsIn dates (wrapInScopes parsed field mode).compiledFields := by
  obtain ⟨hfile, hfileParts⟩ : field.compiledFields ⊆ (inFileScope parsed field).compiledFields ∧
      ∀ part ∈ parsed.file.toList.map QueryPart.file ++ parsed.filesPath.toList.map .files,
        part.AppearsIn dates (inFileScope parsed field).compiledFields :=
    inFileScope_appear hfiles
  have hasOf : (inFileScope parsed field).compiledFields ⊆
      (inScope "asOf" (parsed.asOf.map compileAsOfInput)
        (inFileScope parsed field)).compiledFields := subset_inScope _ _
  have hasOfParts : ∀ part ∈ parsed.file.toList.map QueryPart.file ++
      parsed.filesPath.toList.map .files ++ parsed.asOf.toList.map .asOf,
      part.AppearsIn dates (inScope "asOf" (parsed.asOf.map compileAsOfInput)
        (inFileScope parsed field)).compiledFields := by
    intro part hpart
    obtain hpart | hpart := List.mem_append.1 hpart
    · exact (hfileParts part hpart).mono hasOf
    · obtain ⟨selector, hselector, rfl⟩ := List.mem_map.1 hpart
      rw [Option.mem_toList.1 hselector]
      exact asOf_appears
  cases mode with
  | slim => exact ⟨List.Subset.trans hfile hasOf, hasOfParts⟩
  | global =>
    refine ⟨List.Subset.trans (List.Subset.trans hfile hasOf) (subset_inScope _ _), ?_⟩
    intro part hpart
    rw [scopeParts, List.append_assoc, List.append_assoc, List.mem_append,
      ← List.append_assoc] at hpart
    obtain hpart | hpart := hpart
    · obtain ⟨path, hpath, rfl⟩ := List.mem_map.1 hpart
      rw [wrapInScopes, Option.mem_toList.1 hpath]
      obtain ⟨f, hf, hname, hargs⟩ := mem_inScope (inScope "asOf"
        (parsed.asOf.map compileAsOfInput) (inFileScope parsed field)) "project" (pathArg path)
      exact ⟨f, hf, List.mem_singleton.2 hname, gives_path hargs⟩
    · exact (hasOfParts part hpart).mono (subset_inScope _ _)

end Scopes

/-! ## Documents -/

variable {dates : DateParsers} {parsed : ParsedDevqlQuery} {stage : Option RegisteredStageKind}
  {mode : GraphqlCompileMode} {document : GraphqlSelection}

def compileTerminalField (dates : DateParsers) (parsed : ParsedDevqlQuery)
    (stage : Option RegisteredStageKind) : Except String GraphqlSelection :=
  match stage, shouldCompileProjectStage parsed stage with
  | some stage, true => compileProjectStageLeaf dates parsed stage
  | stage, _ => compileTerminalLeaf dates parsed stage

def inRepo (parsed : ParsedDevqlQuery) (mode : GraphqlCompileMode) (field : GraphqlSelection) :
    GraphqlSelection :=
  match mode with
  | .global => .field "repo" [repoArg parsed] [field]
  | .slim => field

theorem subset_inRepo {field : GraphqlSelection} :
    field.compiledFields ⊆ (inRepo parsed mode field).compiledFields := by
  cases mode with
  | global => exact compiledFields_subset (List.mem_singleton.2 rfl)
  | slim => exact List.Subset.refl _

/-- The root field is the terminal field in its scopes, and in the repository in the global mode. -/
theorem compileRootField_eq_ok (hstage : resolveRegisteredStage parsed = .ok stage)
    (h : compileRootField dates parsed mode = .ok document) :
    validateGraphqlCompilerSupport parsed stage mode = .ok () ∧
      ∃ terminalField, compileTerminalField dates parsed stage = .ok terminalField ∧
        (wrapInScopes parsed terminalField mode).compiledFields ⊆ document.compiledFields := by
  rw [compileRootField, hstage] at h
  obtain ⟨stage', hstage', h⟩ := bind_eq_ok.1 h
  obtain rfl := Except.ok.inj hstage'
  obtain ⟨⟨⟩, hvalid, h⟩ := bind_eq_ok.1 h
  refine ⟨hvalid, ?_⟩
  have hbind : ∃ terminalField, compileTerminalField dates parsed stage = .ok terminalField ∧
      inRepo parsed mode (wrapInScopes parsed terminalField mode) = document := by
    cases stage with
    | none =>
      obtain ⟨terminalField, hterminal, h⟩ := bind_eq_ok.1 h
      exact ⟨terminalField, hterminal, pure_eq_ok.1 h⟩
    | some kind =>
      unfold compileTerminalField
      cases hproject : shouldCompileProjectStage parsed (some kind) with
      | true =>
        rw [hproject] at h
        obtain ⟨terminalField, hterminal, h⟩ := bind_eq_ok.1 h
        exact ⟨terminalField, hterminal, pure_eq_ok.1 h⟩
      | false =>
        rw [hproject] at h
        obtain ⟨terminalField, hterminal, h⟩ := bind_eq_ok.1 h
        exact ⟨terminalField, hterminal, pure_eq_ok.1 h⟩
  obtain ⟨terminalField, hterminal, rfl⟩ := hbind
  exact ⟨terminalField, hterminal, subset_inRepo⟩

theorem hasCall_of_resolveRegisteredStage (hstage : resolveRegisteredStage parsed = .ok stage) :
    ∃ call : RegisteredStageCall, ∀ kind ∈ stage,
      parsed.registeredStages = [call] ∧ kind.IsOf call := by
  cases stage with
  | none => exact ⟨{ stageName := "", args := UniqueTable.empty }, fun _ h => (nomatch h)⟩
  | some kind =>
    obtain ⟨call, hcall, hof⟩ := isOf_of_resolveRegisteredStage hstage
    refine ⟨call, fun kind' hkind' => ?_⟩
    obtain rfl := Option.some.inj hkind'
    exact ⟨hcall, hof⟩

/-- The terminal field that the compiler makes has the stages of the query. -/
theorem terminalField_appear {terminalField : GraphqlSelection}
    (hstage : resolveRegisteredStage parsed = .ok stage)
    (hvalid : validateGraphqlCompilerSupport parsed stage mode = .ok ())
    (hplaced : Placed parsed stage)
    (h : compileTerminalField dates parsed stage = .ok terminalField) :
    StagesAppear dates parsed stage terminalField := by
  obtain ⟨call, hcall⟩ := hasCall_of_resolveRegisteredStage hstage
  rw [validateGraphqlCompilerSupport] at hvalid
  cases hselect : parsed.selectArtefacts with
  | some selector =>
    rw [hselect] at hvalid
    have hproject : shouldCompileProjectStage parsed stage = false := by
      cases stage with
      | none => rfl
      | some kind => simp [shouldCompileProjectStage, hselect]
    have hleaf : compileTerminalLeaf dates parsed stage = .ok terminalField := by
      rw [← h]
      unfold compileTerminalField
      rw [hproject]
      cases stage <;> rfl
    unfold compileTerminalLeaf at hleaf
    rw [hselect] at hleaf
    exact selectArtefacts_appear hselect (selectionAccepted hvalid) hplaced hcall hleaf
  | none =>
    rw [hselect] at hvalid
    have haccepted := pipelineAccepted hvalid
    cases stage with
    | none => exact terminal_appear hselect haccepted hplaced hcall h
    | some kind =>
      unfold compileTerminalField at h
      cases hproject : shouldCompileProjectStage parsed (some kind) with
      | true =>
        rw [hproject] at h
        obtain ⟨hstages, hof⟩ := hcall kind rfl
        exact project_appear hselect haccepted hplaced hstages hof hproject h
      | false =>
        rw [hproject] at h
        exact terminal_appear hselect haccepted hplaced hcall h

def noDates : DateParsers where
  naiveDate := fun _ => none
  rfc3339 := fun _ => none

def plainCall (stageName : String) : RegisteredStageCall where
  stageName
  args := UniqueTable.empty

def minimumCall : RegisteredStageCall where
  stageName := "coverage"
  args := ⟨[("min", "80")], by decide⟩

def cloneQuery : ParsedDevqlQuery where
  projectPath := some "api"
  file := some "src/main.rs"
  artefacts := { kind := some "function" }
  clones := { relationKind := some "similar", raw := true }
  hasArtefactsStage := true
  hasClonesStage := true
  limit := 5
  hasLimitStage := true

def defaultRepo : GraphqlArgument where
  name := "name"
  value := .literal (.quoted "default")

/-- The compiled document does not have the part. -/
def Drops (parsed : ParsedDevqlQuery) (mode : GraphqlCompileMode) (part : QueryPart) : Prop :=
  ∃ document, compileRootField noDates parsed mode = .ok document ∧
    ¬part.AppearsIn noDates document.compiledFields

end DevqlGraphql
end Bitloops
