import Bitloops.DevqlGraphql.Emission

/-!
# What the validation accepts

The checks of the validation as facts about the stages of an accepted query.  `Placed` names the
combinations that are accepted although the compiler has no place for a part of them.
-/

namespace Bitloops
namespace DevqlGraphql

open Results

/-! ## Combinations that the compiler has a place for -/

namespace RegisteredStageKind

/-- The compiled stage, or a stage next to it, takes the limit. -/
def takesLimit (hasChatHistory : Bool) : RegisteredStageKind → Bool
  | testsSummary => false
  | httpPatchImpact _ => false
  | depsSummary _ => hasChatHistory
  | _ => true

/-- The compiled stage, or the artefacts that it is nested under, take the fields of `select()`. -/
def takesSelect (hasArtefacts : Bool) (kind : RegisteredStageKind) : Bool :=
  if kind.isTestsSummary || kind.isSelectionOverview || kind.isHttpContext then false
  else !kind.isDirectHttp || hasArtefacts

end RegisteredStageKind

/-- The arguments of the call are read; those of `summary(dependencies: true)` always are, and
`httpLossyTransforms` under artefacts reads none. -/
def ArgumentsRead (hasArtefacts : Bool) (call : RegisteredStageCall) : RegisteredStageKind → Prop
  | .depsSummary _ => True
  | kind =>
    if hasArtefacts && kind.isHttpLossyTransforms then call.args.rows = []
    else ∀ row ∈ call.args.rows, row.1 ∈ call.readKeys kind.arguments

structure Placed (parsed : ParsedDevqlQuery) (stage : Option RegisteredStageKind) : Prop where
  oneTerminal :
    parsed.selectArtefacts = none →
      parsed.hasCheckpointsStage.toNat + parsed.hasTelemetryStage.toNat +
        parsed.hasDepsStage.toNat + (stage.any (·.isTestsSummary)).toNat ≤ 1
  artefacts :
    parsed.hasArtefactsStage → stage.any (·.isHttpLossyTransforms) →
      shouldCompileProjectStage parsed stage = false
  arguments :
    ∀ kind ∈ stage, ∀ call ∈ parsed.registeredStages,
      ArgumentsRead parsed.hasArtefactsStage call kind
  limit :
    parsed.hasLimitStage → ∀ kind ∈ stage, kind.takesLimit parsed.hasChatHistoryStage
  select :
    parsed.selectFields ≠ [] →
      (parsed.selectArtefacts = none → parsed.hasClonesStage = false) ∧
        ∀ kind ∈ stage, kind.takesSelect parsed.hasArtefactsStage
  codeMatches :
    parsed.selectArtefacts ≠ none → parsed.hasClonesStage →
      parsed.clones.neighbors = none ∧ parsed.clones.raw = false
  cloneSummary : stage.any (·.isCloneSummary) → parsed.clones.raw = false

/-! ## The stages of a query -/

/-- Which of the stages a query has. -/
structure StageFlags where
  artefacts : Bool := false
  clones : Bool := false
  deps : Bool := false
  checkpoints : Bool := false
  historicalContext : Bool := false
  contextGuidance : Bool := false
  telemetry : Bool := false
  chatHistory : Bool := false

def ParsedDevqlQuery.flags (parsed : ParsedDevqlQuery) : StageFlags where
  artefacts := parsed.hasArtefactsStage
  clones := parsed.hasClonesStage
  deps := parsed.hasDepsStage
  checkpoints := parsed.hasCheckpointsStage
  historicalContext := parsed.hasHistoricalContextStage
  contextGuidance := parsed.hasContextGuidanceStage
  telemetry := parsed.hasTelemetryStage
  chatHistory := parsed.hasChatHistoryStage

/-- The stage was resolved from the call. -/
def RegisteredStageKind.IsOf (call : RegisteredStageCall) : RegisteredStageKind → Prop
  | depsSummary spec => resolveSummaryStageKind call = .ok (.depsSummary spec)
  | tests stage => stage = call
  | knowledge stage => stage = call
  | httpSearch stage => stage = call
  | httpHeaderProducers stage => stage = call
  | httpLifecycleBoundaries stage => stage = call
  | httpLossyTransforms stage => stage = call
  | httpPatchImpact stage => stage = call
  | _ => True

theorem isOf_of_resolveSummaryStageKind {call : RegisteredStageCall} {kind : RegisteredStageKind}
    (h : resolveSummaryStageKind call = .ok kind) : kind.IsOf call := by
  obtain rfl | ⟨spec, rfl, -⟩ := resolveSummaryStageKind_eq_ok h
  · trivial
  · exact h

theorem isOf_of_resolveRegisteredStage {parsed : ParsedDevqlQuery} {kind : RegisteredStageKind}
    (h : resolveRegisteredStage parsed = .ok (some kind)) :
    ∃ call, parsed.registeredStages = [call] ∧ kind.IsOf call := by
  unfold resolveRegisteredStage at h
  split at h
  · exact nomatch h
  · rename_i call hcall
    refine ⟨call, hcall, ?_⟩
    split at h
    · obtain ⟨kind', hkind', hkind⟩ := map_eq_ok.1 h
      rw [← Option.some.inj hkind]
      exact isOf_of_resolveSummaryStageKind hkind'
    all_goals first
      | (rw [← Option.some.inj (Except.ok.inj h)]; trivial)
      | cases h
  · exact nomatch h

theorem firstRejection_eq_ok {checks : List (Bool × String)} :
    firstRejection checks = .ok () ↔ ∀ check ∈ checks, check.1 = false := by
  rw [firstRejection]
  cases hfind : checks.find? (·.1) with
  | none => simpa using hfind
  | some check =>
    refine ⟨fun h => (nomatch h), fun h => ?_⟩
    have hmem := h check (List.mem_of_find?_eq_some hfind)
    rw [List.find?_some hfind] at hmem
    exact nomatch hmem

/-- What the validation says of the stages of a query without `selectArtefacts`. -/
structure PipelineAccepted (parsed : ParsedDevqlQuery) (stage : Option RegisteredStageKind) :
    Prop where
  fileScopes : (parsed.file.isSome && parsed.filesPath.isSome) = false
  activity :
    ((parsed.hasCheckpointsStage || parsed.hasTelemetryStage) &&
      (hasFileScope parsed || parsed.hasArtefactsStage)) = false
  chatHistory : (parsed.hasChatHistoryStage && !parsed.hasArtefactsStage) = false
  historicalContext : parsed.hasHistoricalContextStage = false
  contextGuidance : parsed.hasContextGuidanceStage = false
  clones : (parsed.hasClonesStage && !parsed.hasArtefactsStage) = false
  clonesChatHistory : (parsed.hasClonesStage && parsed.hasChatHistoryStage) = false
  cloneSummary : (stage.any (·.isCloneSummary) && !parsed.hasClonesStage) = false
  cloneSummarySelect : (stage.any (·.isCloneSummary) && !parsed.selectFields.isEmpty) = false
  depsSummary : (stage.any (·.isDepsSummary) && !parsed.hasArtefactsStage) = false
  depsSummaryClones : (stage.any (·.isDepsSummary) && parsed.hasClonesStage) = false
  tests : (stage.any (·.isTests) && !parsed.hasArtefactsStage) = false
  testsClones : (stage.any (·.isTests) && parsed.hasClonesStage) = false
  testsChatHistory : (stage.any (·.isTests) && parsed.hasChatHistoryStage) = false
  coverage : (stage.any (·.isCoverage) && !parsed.hasArtefactsStage) = false
  coverageClones : (stage.any (·.isCoverage) && parsed.hasClonesStage) = false
  coverageChatHistory : (stage.any (·.isCoverage) && parsed.hasChatHistoryStage) = false
  testsSummary : (stage.any (·.isTestsSummary) && parsed.hasArtefactsStage) = false
  selectionOverview : stage.any (·.isSelectionOverview) = false
  httpContext : stage.any (·.isHttpContext) = false
  deps : (parsed.hasDepsStage && parsed.hasArtefactsStage) = false
  directHttp :
    (stage.any (·.isDirectHttp) &&
      (parsed.hasCheckpointsStage || parsed.hasTelemetryStage || parsed.hasDepsStage ||
        parsed.hasClonesStage || parsed.hasChatHistoryStage)) = false
  directHttpArtefacts :
    (parsed.hasArtefactsStage && stage.any (·.isDirectHttp) &&
      !stage.any (·.isHttpLossyTransforms)) = false
  knowledge :
    (stage.any (·.isKnowledge) &&
      (parsed.hasArtefactsStage || parsed.hasCheckpointsStage || parsed.hasTelemetryStage ||
        parsed.hasDepsStage || parsed.hasClonesStage || parsed.hasChatHistoryStage)) = false

theorem pipelineAccepted {parsed : ParsedDevqlQuery} {stage : Option RegisteredStageKind}
    {mode : GraphqlCompileMode}
    (h : firstRejection (pipelineChecks parsed stage mode) = .ok ()) :
    PipelineAccepted parsed stage := by
  have hchecks := firstRejection_eq_ok.1 h
  simp only [pipelineChecks, List.forall_mem_cons] at hchecks
  obtain ⟨fileScopes, activity, chatHistory, historicalContext, contextGuidance, clones, -, -, -,
    clonesChatHistory, cloneSummary, cloneSummarySelect, depsSummary, -, depsSummaryClones, tests,
    -, testsClones, testsChatHistory, -, coverage, -, coverageClones, coverageChatHistory,
    testsSummary, -, -, -, -, selectionOverview, httpContext, deps, directHttp,
    directHttpArtefacts, -, -, -, -, -, knowledge, -, -, -⟩ := hchecks
  constructor <;> assumption

section Accepted

variable {parsed : ParsedDevqlQuery} {call : RegisteredStageCall}

theorem ParsedDevqlQuery.flags_eq {flags : StageFlags} (h : parsed.flags = flags) :
    parsed.hasArtefactsStage = flags.artefacts ∧ parsed.hasClonesStage = flags.clones ∧
      parsed.hasDepsStage = flags.deps ∧ parsed.hasCheckpointsStage = flags.checkpoints ∧
      parsed.hasHistoricalContextStage = flags.historicalContext ∧
      parsed.hasContextGuidanceStage = flags.contextGuidance ∧
      parsed.hasTelemetryStage = flags.telemetry ∧
      parsed.hasChatHistoryStage = flags.chatHistory := by
  rw [← h]
  exact ⟨rfl, rfl, rfl, rfl, rfl, rfl, rfl, rfl⟩

/-- What the validation says of the stages of a selection. -/
structure SelectionAccepted (parsed : ParsedDevqlQuery) (stage : Option RegisteredStageKind)
    (mode : GraphqlCompileMode) : Prop where
  slim : mode = .slim
  file : parsed.file = none
  filesPath : parsed.filesPath = none
  asOf : parsed.asOf = none
  pipeline :
    (parsed.hasArtefactsStage || parsed.hasChatHistoryStage || parsed.hasTelemetryStage) = false
  limit : (parsed.hasLimitStage && !stage.any (·.isHttpContext)) = false
  oneTerminal : terminalStageCount parsed stage = 1
  registered :
    (stage.any fun s =>
      s.isCoverage || s.isCloneSummary || s.isDepsSummary || s.isTestsSummary || s.isKnowledge ||
        s.isDirectHttp) = false

theorem selectionAccepted {selector : SelectArtefactsFilter} {stage : Option RegisteredStageKind}
    {mode : GraphqlCompileMode}
    (h : firstRejection (selectArtefactsChecks parsed stage mode selector) = .ok ()) :
    SelectionAccepted parsed stage mode := by
  have hchecks := firstRejection_eq_ok.1 h
  simp only [selectArtefactsChecks, List.forall_mem_append, List.forall_mem_singleton] at hchecks
  obtain ⟨⟨⟨⟨-, hselection⟩, -⟩, -⟩, hregistered⟩ := hchecks
  simp only [selectionChecks, List.forall_mem_cons] at hselection
  obtain ⟨hslim, hscopes, hasOf, hpipeline, hlimit, hsome, hone, -⟩ := hselection
  have hscopes' := Bool.or_eq_false_iff.1 hscopes
  refine ⟨by simpa using hslim, by simpa using hscopes'.1, by simpa using hscopes'.2,
    by simpa using hasOf, hpipeline, hlimit, ?_, hregistered⟩
  have hne : terminalStageCount parsed stage ≠ 0 := by simpa using hsome
  have hle : ¬terminalStageCount parsed stage > 1 := by simpa using hone
  omega

/-- A selection has one stage. -/
theorem selection_flags {stage : Option RegisteredStageKind} {mode : GraphqlCompileMode}
    (h : SelectionAccepted parsed stage mode) :
    (stage = none ∧ (parsed.flags = { checkpoints := true } ∨
      parsed.flags = { historicalContext := true } ∨ parsed.flags = { contextGuidance := true } ∨
      parsed.flags = { clones := true } ∨ parsed.flags = { deps := true })) ∨
    (parsed.flags = {} ∧ ∃ kind, stage = some kind ∧
      (kind.isTests || kind.isSelectionOverview || kind.isHttpContext) = true) := by
  have hpipeline := h.pipeline
  have hone := h.oneTerminal
  have hregistered := h.registered
  rw [Bool.or_eq_false_iff, Bool.or_eq_false_iff] at hpipeline
  obtain ⟨⟨hA, hH⟩, hT⟩ := hpipeline
  rw [terminalStageCount] at hone
  simp only [ParsedDevqlQuery.flags, StageFlags.mk.injEq, hA, hH, hT]
  cases stage with
  | none =>
    refine .inl ⟨rfl, ?_⟩
    revert hone
    cases parsed.hasCheckpointsStage <;> cases parsed.hasHistoricalContextStage <;>
      cases parsed.hasContextGuidanceStage <;> cases parsed.hasClonesStage <;>
      cases parsed.hasDepsStage <;> simp
  | some kind =>
    have hkind : (kind.isTests || kind.isSelectionOverview || kind.isHttpContext) = true := by
      cases kind <;> first | rfl | exact nomatch hregistered
    refine .inr ⟨?_, kind, rfl, hkind⟩
    rw [Option.any_some, hkind] at hone
    revert hone
    cases parsed.hasCheckpointsStage <;> cases parsed.hasHistoricalContextStage <;>
      cases parsed.hasContextGuidanceStage <;> cases parsed.hasClonesStage <;>
      cases parsed.hasDepsStage <;> simp

/-- Next to checkpoints, telemetry or dependencies there is no registered stage but the summary of
tests. -/
theorem stage_eq_none {stage : Option RegisteredStageKind} (h : PipelineAccepted parsed stage)
    (hA : parsed.hasArtefactsStage = false) (hC : parsed.hasClonesStage = false)
    (hterminal : (parsed.hasCheckpointsStage || parsed.hasTelemetryStage ||
      parsed.hasDepsStage) = true)
    (htests : stage.any (·.isTestsSummary) = false) : stage = none := by
  cases stage with
  | none => rfl
  | some kind =>
    have hknowledge := h.knowledge
    have hdirect := h.directHttp
    rw [hA, Bool.false_or, hterminal, Bool.true_or, Bool.true_or, Bool.and_true] at hknowledge
    rw [hterminal, Bool.true_or, Bool.true_or, Bool.and_true] at hdirect
    cases kind with
    | cloneSummary => exact absurd h.cloneSummary (by simp [hC, RegisteredStageKind.isCloneSummary])
    | depsSummary => exact absurd h.depsSummary (by simp [hA, RegisteredStageKind.isDepsSummary])
    | tests => exact absurd h.tests (by simp [hA, RegisteredStageKind.isTests])
    | coverage => exact absurd h.coverage (by simp [hA, RegisteredStageKind.isCoverage])
    | testsSummary => exact nomatch htests
    | knowledge => exact nomatch hknowledge
    | selectionOverview => exact nomatch h.selectionOverview
    | httpContext => exact nomatch h.httpContext
    | _ => exact nomatch hdirect

/-- A stage compiled under the project stands alone. -/
theorem shouldCompileProjectStage_eq_true {kind : RegisteredStageKind}
    (h : shouldCompileProjectStage parsed (some kind) = true) :
    parsed.hasChatHistoryStage = false ∧ parsed.hasClonesStage = false ∧
      parsed.hasDepsStage = false ∧ parsed.selectFields = [] ∧
      (kind.isTests || kind.isCoverage || kind.isTestsSummary || kind.isDirectHttp) = true := by
  unfold shouldCompileProjectStage at h
  dsimp only at h
  split at h
  · exact nomatch h
  · rename_i hplain
    simp only [Bool.or_eq_true, not_or, Bool.not_eq_true] at hplain
    obtain ⟨⟨⟨-, hH⟩, hC⟩, hD⟩ := hplain.1
    refine ⟨hH, hC, hD, by simpa using hplain.2, ?_⟩
    cases kind <;> first | rfl | exact nomatch h

end Accepted

end DevqlGraphql
end Bitloops
