import Bitloops.DevqlGraphql.Acceptance

/-!
# The stages in a terminal field

For each terminal field that the compiler makes: the stages of the queries that it is made for
appear in it.
-/

namespace Bitloops
namespace DevqlGraphql

open Results

section Leaves

variable {dates : DateParsers} {parsed : ParsedDevqlQuery} {leaf : GraphqlSelection}
  {call : RegisteredStageCall}

attribute [local simp] stageParts partIf

/-! ## Parts of every terminal field -/

def StagesAppear (dates : DateParsers) (parsed : ParsedDevqlQuery)
    (stage : Option RegisteredStageKind) (leaf : GraphqlSelection) : Prop :=
  ∀ part ∈ stageParts parsed stage, part.AppearsIn dates leaf.compiledFields

theorem gives_limit {f : CompiledField} (hlimit : parsed.hasLimitStage = true)
    (hargs : firstArg (limitArg parsed) ⊆ f.args) :
    f.Gives "first" (.literal (.raw parsed.limit.repr)) := by
  refine CompiledField.gives_of_mem (hargs ?_)
  rw [limitArg, if_pos hlimit]
  exact List.mem_singleton.2 rfl

theorem limit_appears {name : String} {args : List GraphqlArgument}
    {selectionSet : List GraphqlSelection} (hlimit : parsed.hasLimitStage = true)
    (hargs : firstArg (limitArg parsed) ⊆ args) :
    (QueryPart.limit parsed.limit).AppearsIn dates
      (GraphqlSelection.field name args selectionSet).compiledFields :=
  ⟨_, mem_compiledFields_field, gives_limit hlimit hargs⟩

theorem selectedName_eq (hnone : parsed.selectArtefacts = none) :
    selectedName parsed = dslFieldToGraphql := by
  funext field
  rw [selectedName, hnone]
  rfl

theorem scalarNames_eq {selected : SelectableLeaf} {selections : List GraphqlSelection}
    (h : scalarSelectionsForLeaf selected parsed.selectFields = .ok selections)
    (hne : parsed.selectFields ≠ []) :
    selections.filterMap GraphqlSelection.scalarName =
      parsed.selectFields.map dslFieldToGraphql := by
  rw [scalarSelectionsForLeaf_eq_ok h hne, filterMap_scalarName_scalars]

/-- `select()` of a connection. -/
theorem select_appears {name : String} {args : List GraphqlArgument}
    {selections : List GraphqlSelection} (hnone : parsed.selectArtefacts = none)
    (h : selections.filterMap GraphqlSelection.scalarName =
      parsed.selectFields.map dslFieldToGraphql) :
    (QueryPart.select (parsed.selectFields.map (selectedName parsed))).AppearsIn dates
      (connectionField name args selections).compiledFields := by
  refine ⟨_, mem_compiledFields_connectionField, ?_⟩
  rw [selectedName_eq hnone]
  exact h

theorem checkpoints_appear (hnone : parsed.selectArtefacts = none)
    (hflags : parsed.flags = { checkpoints := true })
    (h : compileCheckpointsLeaf dates parsed = .ok leaf) :
    StagesAppear dates parsed none leaf := by
  obtain ⟨args, hargs, h⟩ := bind_eq_ok.1 h
  obtain ⟨selections, hselections, h⟩ := bind_eq_ok.1 h
  obtain ⟨filterArgs, hfilter, hargs⟩ := bind_eq_ok.1 hargs
  rw [← pure_eq_ok.1 h, ← pure_eq_ok.1 hargs]
  have hflags := ParsedDevqlQuery.flags_eq hflags
  intro part hpart
  simp [hnone, hflags] at hpart
  obtain rfl | ⟨hlimit, rfl⟩ | ⟨hne, rfl⟩ := hpart
  · exact ⟨_, mem_compiledFields_field, by simp,
      checkpointsInFull hfilter fun _ => List.mem_append_left _⟩
  · exact limit_appears hlimit (List.subset_append_right _ _)
  · exact select_appears hnone (scalarNames_eq hselections hne)

theorem telemetry_appear (hnone : parsed.selectArtefacts = none)
    (hflags : parsed.flags = { telemetry := true })
    (h : compileTelemetryLeaf dates parsed = .ok leaf) :
    StagesAppear dates parsed none leaf := by
  obtain ⟨args, hargs, h⟩ := bind_eq_ok.1 h
  obtain ⟨selections, hselections, h⟩ := bind_eq_ok.1 h
  rw [← pure_eq_ok.1 h]
  have hflags := ParsedDevqlQuery.flags_eq hflags
  intro part hpart
  simp [hnone, hflags] at hpart
  obtain rfl | ⟨hlimit, rfl⟩ | ⟨hne, rfl⟩ := hpart
  · exact ⟨_, mem_compiledFields_field, by simp, telemetryInFull hargs fun _ => id⟩
  · obtain ⟨since, -, hargs⟩ := bind_eq_ok.1 hargs
    rw [← pure_eq_ok.1 hargs]
    exact limit_appears hlimit (List.subset_append_right _ _)
  · exact select_appears hnone (scalarNames_eq hselections hne)

theorem deps_appear (hnone : parsed.selectArtefacts = none)
    (hflags : parsed.flags = { deps := true }) (h : compileDepsLeaf parsed = .ok leaf) :
    StagesAppear dates parsed none leaf := by
  obtain ⟨selections, hselections, h⟩ := bind_eq_ok.1 h
  rw [← pure_eq_ok.1 h]
  have hflags := ParsedDevqlQuery.flags_eq hflags
  intro part hpart
  simp [hnone, hflags] at hpart
  obtain rfl | ⟨hlimit, rfl⟩ | ⟨hne, rfl⟩ := hpart
  · exact ⟨_, mem_compiledFields_field, by simp, depsInFull fun _ => id⟩
  · exact limit_appears hlimit (List.subset_cons_self _ _)
  · exact select_appears hnone (scalarNames_eq hselections hne)

/-- The arguments of a stage that has no specification of its own. -/
theorem registered_appears {kind : RegisteredStageKind} {fields : List CompiledField}
    {f : CompiledField} (hf : f ∈ fields) (hname : f.name = kind.fieldName)
    (hfull : RegisteredInFull f call kind) :
    (QueryPart.registered kind call).AppearsIn dates fields :=
  ⟨f, hf, List.mem_singleton.2 hname, hfull⟩

theorem knowledge_appear (hnone : parsed.selectArtefacts = none) (hflags : parsed.flags = {})
    (hcall : parsed.registeredStages = [call]) (hread : ArgumentsRead false call (.knowledge call))
    (h : compileKnowledgeLeaf parsed call = .ok leaf) :
    StagesAppear dates parsed (some (.knowledge call)) leaf := by
  obtain ⟨selections, hselections, h⟩ := bind_eq_ok.1 h
  rw [← pure_eq_ok.1 h]
  have hflags := ParsedDevqlQuery.flags_eq hflags
  intro part hpart
  simp [hnone, hflags, hcall, RegisteredStageKind.isCloneSummary] at hpart
  obtain rfl | ⟨hlimit, rfl⟩ | ⟨hne, rfl⟩ := hpart
  · exact registered_appears mem_compiledFields_field rfl
      (knowledgeInFull hread rfl fun _ => id)
  · exact limit_appears hlimit (List.subset_append_right _ _)
  · exact select_appears hnone (scalarNames_eq hselections hne)

/-- A direct lookup has the arguments of its stage and the limit that it takes. -/
theorem compileHttpLeaf_eq_ok {kind : RegisteredStageKind} (hdirect : kind.isDirectHttp = true)
    (hof : kind.IsOf call) (hread : ArgumentsRead false call kind)
    (h : compileHttpLeaf parsed kind = .ok leaf) :
    ∃ args selectionSet, leaf = .field kind.fieldName args selectionSet ∧
      (∀ f : CompiledField, args ⊆ f.args → RegisteredInFull f call kind) ∧
      (kind.takesLimit false → firstArg (limitArg parsed) ⊆ args) := by
  cases kind with
  | httpSearch stage =>
    obtain rfl : stage = call := hof
    obtain ⟨args, hargs, h⟩ := bind_eq_ok.1 h
    refine ⟨args, _, (pure_eq_ok.1 h).symm, fun f hf => httpSearchInFull hread rfl hargs hf, ?_⟩
    intro _ arg harg
    rw [compileHttpSearchArgs] at hargs
    split at hargs
    · cases hargs
    · rw [← Except.ok.inj hargs]
      exact List.mem_append_right _ harg
  | httpHeaderProducers stage =>
    obtain rfl : stage = call := hof
    obtain ⟨args, hargs, h⟩ := bind_eq_ok.1 h
    refine ⟨args, _, (pure_eq_ok.1 h).symm,
      fun f hf => httpHeaderProducersInFull hread rfl hargs hf, ?_⟩
    intro _ arg harg
    rw [compileHttpHeaderProducersArgs] at hargs
    split at hargs
    · cases hargs
    · rw [← Except.ok.inj hargs]
      exact List.mem_append_right _ harg
  | httpLifecycleBoundaries stage =>
    obtain rfl : stage = call := hof
    exact ⟨_, _, (Except.ok.inj h).symm,
      fun f hf => httpLifecycleBoundariesInFull hread rfl hf,
      fun _ => List.subset_append_right _ _⟩
  | httpLossyTransforms stage =>
    obtain rfl : stage = call := hof
    exact ⟨_, _, (Except.ok.inj h).symm, fun f hf => httpLossyTransformsInFull hread rfl hf,
      fun _ => List.subset_append_right _ _⟩
  | httpPatchImpact stage =>
    obtain rfl : stage = call := hof
    obtain ⟨args, hargs, h⟩ := bind_eq_ok.1 h
    exact ⟨args, _, (pure_eq_ok.1 h).symm,
      fun f hf => httpPatchImpactInFull hread rfl hargs hf, fun hlimit => (by cases hlimit)⟩
  | _ => cases hdirect

theorem http_appear {kind : RegisteredStageKind} (hdirect : kind.isDirectHttp = true)
    (hnone : parsed.selectArtefacts = none) (hflags : parsed.flags = {})
    (hcall : parsed.registeredStages = [call]) (hof : kind.IsOf call)
    (hread : ArgumentsRead false call kind)
    (hlimit : parsed.hasLimitStage → kind.takesLimit false)
    (hselect : parsed.selectFields = []) (h : compileHttpLeaf parsed kind = .ok leaf) :
    StagesAppear dates parsed (some kind) leaf := by
  obtain ⟨args, selectionSet, rfl, hfull, htakes⟩ := compileHttpLeaf_eq_ok hdirect hof hread h
  have hflags := ParsedDevqlQuery.flags_eq hflags
  intro part hpart
  simp [hnone, hflags, hcall, hselect] at hpart
  obtain rfl | ⟨hpart, rfl⟩ := hpart
  · exact registered_appears mem_compiledFields_field rfl (hfull _ fun _ => id)
  · exact limit_appears hpart.1 (htakes (hlimit hpart.1))

theorem cloneSummary_appear (hnone : parsed.selectArtefacts = none)
    (hflags : parsed.flags = { artefacts := true, clones := true })
    (hcall : parsed.registeredStages = [call]) (hread : ArgumentsRead true call .cloneSummary)
    (hselect : parsed.selectFields = []) (hraw : parsed.clones.raw = false)
    (h : compileCloneSummaryLeaf dates parsed = .ok leaf) :
    StagesAppear dates parsed (some .cloneSummary) leaf := by
  obtain ⟨args, hargs, h⟩ := bind_eq_ok.1 h
  obtain ⟨filter, hfilter, hargs⟩ := bind_eq_ok.1 hargs
  rw [← pure_eq_ok.1 h, ← pure_eq_ok.1 hargs]
  have hflags := ParsedDevqlQuery.flags_eq hflags
  intro part hpart
  simp [hnone, hflags, hcall, hselect, RegisteredStageKind.isCloneSummary] at hpart
  obtain rfl | rfl | rfl := hpart
  · exact ⟨_, mem_compiledFields_field, by simp,
      artefactsInFull hfilter fun _ => List.mem_append_left _⟩
  · refine ⟨⟨_, mem_compiledFields_field, by simp,
      clonesInFull fun _ => List.mem_append_right _⟩, fun h => ?_⟩
    rw [hraw] at h
    cases h
  · exact registered_appears mem_compiledFields_field rfl
      (argumentsInFull hread fun _ h => (by cases h))

theorem testsSummary_appear (hnone : parsed.selectArtefacts = none) (hflags : parsed.flags = {})
    (hcall : parsed.registeredStages = [call]) (hread : ArgumentsRead false call .testsSummary)
    (hlimit : parsed.hasLimitStage = false) (hselect : parsed.selectFields = []) :
    StagesAppear dates parsed (some .testsSummary)
      (.field "testsSummary" [] testsSummaryResultSelections) := by
  have hflags := ParsedDevqlQuery.flags_eq hflags
  intro part hpart
  simp [hnone, hflags, hcall, hlimit, hselect] at hpart
  rw [hpart]
  exact registered_appears mem_compiledFields_field rfl
    (argumentsInFull hread fun _ h => (nomatch h))

theorem projectTests_appear (hnone : parsed.selectArtefacts = none)
    (hflags : parsed.flags = { artefacts := true }) (hcall : parsed.registeredStages = [call])
    (hread : ArgumentsRead true call (.tests call)) (hselect : parsed.selectFields = [])
    (h : compileProjectStageLeaf dates parsed (.tests call) = .ok leaf) :
    StagesAppear dates parsed (some (.tests call)) leaf := by
  obtain ⟨args, hargs, h⟩ := bind_eq_ok.1 h
  obtain ⟨filter, hfilter, hargs⟩ := bind_eq_ok.1 hargs
  rw [← pure_eq_ok.1 h, ← pure_eq_ok.1 hargs]
  have hflags := ParsedDevqlQuery.flags_eq hflags
  intro part hpart
  simp [hnone, hflags, hcall, hselect] at hpart
  obtain rfl | rfl | ⟨hlimit, rfl⟩ := hpart
  · exact ⟨_, mem_compiledFields_field, by simp, artefactsInFull hfilter fun _ h => by simp [h]⟩
  · exact registered_appears mem_compiledFields_field rfl
      (testsInFull hread rfl fun _ h => by simp [h])
  · exact limit_appears hlimit.1 (List.subset_append_right _ _)

theorem projectCoverage_appear (hnone : parsed.selectArtefacts = none)
    (hflags : parsed.flags = { artefacts := true }) (hcall : parsed.registeredStages = [call])
    (hread : ArgumentsRead true call .coverage) (hselect : parsed.selectFields = [])
    (h : compileProjectStageLeaf dates parsed .coverage = .ok leaf) :
    StagesAppear dates parsed (some .coverage) leaf := by
  obtain ⟨args, hargs, h⟩ := bind_eq_ok.1 h
  obtain ⟨filter, hfilter, hargs⟩ := bind_eq_ok.1 hargs
  rw [← pure_eq_ok.1 h, ← pure_eq_ok.1 hargs]
  have hflags := ParsedDevqlQuery.flags_eq hflags
  intro part hpart
  simp [hnone, hflags, hcall, hselect] at hpart
  obtain rfl | rfl | ⟨hlimit, rfl⟩ := hpart
  · exact ⟨_, mem_compiledFields_field, by simp, artefactsInFull hfilter fun _ h => by simp [h]⟩
  · exact registered_appears mem_compiledFields_field rfl
      (argumentsInFull hread fun _ h => (nomatch h))
  · exact limit_appears hlimit.1 (List.subset_append_right _ _)

/-- A stage nested under artefacts is a field with its arguments and the limit that it takes. -/
theorem compileNestedStage_eq_ok {kind : RegisteredStageKind} {nested : List GraphqlSelection}
    (hof : kind.IsOf call) (hread : ArgumentsRead true call kind)
    (h : compileNestedStage dates parsed kind = .ok nested) :
    ∃ args selectionSet, nested = [.field kind.fieldName args selectionSet] ∧
      (∀ f : CompiledField, args ⊆ f.args → RegisteredInFull f call kind) ∧
      (kind.takesLimit false → firstArg (limitArg parsed) ⊆ args) := by
  cases kind with
  | tests stage =>
    obtain rfl : stage = call := hof
    obtain ⟨args, hargs, h⟩ := bind_eq_ok.1 h
    refine ⟨args, _, (pure_eq_ok.1 h).symm, fun f hf => ?_, fun _ => ?_⟩
    · obtain ⟨-, -, hargs⟩ := bind_eq_ok.1 hargs
      rw [← pure_eq_ok.1 hargs] at hf
      exact testsInFull hread rfl fun _ h => hf (by simp [h])
    · obtain ⟨-, -, hargs⟩ := bind_eq_ok.1 hargs
      rw [← pure_eq_ok.1 hargs]
      exact List.subset_append_right _ _
  | coverage =>
    obtain ⟨args, hargs, h⟩ := bind_eq_ok.1 h
    refine ⟨args, _, (pure_eq_ok.1 h).symm,
      fun f _ => argumentsInFull hread fun _ h => (nomatch h), fun _ => ?_⟩
    obtain ⟨-, -, hargs⟩ := bind_eq_ok.1 hargs
    rw [← pure_eq_ok.1 hargs]
    exact List.subset_append_right _ _
  | depsSummary spec =>
    exact ⟨_, _, (Except.ok.inj h).symm, fun f hf => depsSummaryInFull hof hf,
      fun hlimit => (nomatch hlimit)⟩
  | httpLossyTransforms stage =>
    refine ⟨_, _, (Except.ok.inj h).symm, fun f _ => ?_, fun _ => List.subset_append_right _ _⟩
    intro row hrow
    have hrows : call.args.rows = [] := hread
    rw [hrows] at hrow
    exact nomatch hrow
  | _ => exact nomatch h

theorem scalarName_connectionField {name : String} {args : List GraphqlArgument}
    {selectionSet : List GraphqlSelection} :
    (connectionField name args selectionSet).scalarName = none := rfl

/-- The chat history of an artefact. -/
def chatHistorySelections (parsed : ParsedDevqlQuery) : List GraphqlSelection :=
  if parsed.hasChatHistoryStage then
    [connectionField "chatHistory" (firstArg (limitArg parsed))
      (scalars SelectableLeaf.chatEntry.defaultFields)]
  else []

/-- The clones of an artefact. -/
def cloneSelections (parsed : ParsedDevqlQuery) : List GraphqlSelection :=
  if parsed.hasClonesStage then
    [connectionField "clones" (compileClonesArgs parsed (limitArg parsed))
      (cloneResultSelections parsed.clones.raw)]
  else []

def selectedOfArtefact (parsed : ParsedDevqlQuery) : Except String (List GraphqlSelection) :=
  if parsed.hasClonesStage then .ok []
  else scalarSelectionsForLeaf .artefact parsed.selectFields

def nestedSelections (dates : DateParsers) (parsed : ParsedDevqlQuery)
    (stage : Option RegisteredStageKind) : Except String (List GraphqlSelection) :=
  match stage with
  | none => .ok []
  | some kind => compileNestedStage dates parsed kind

/-- The leaf of `artefacts()`, one part after the other. -/
theorem compileArtefactsLeaf_eq (stage : Option RegisteredStageKind) :
    compileArtefactsLeaf dates parsed stage = do
      let selected ← selectedOfArtefact parsed
      let nested ← nestedSelections dates parsed stage
      let args ← compileArtefactArgs dates parsed (outerFirst parsed stage)
      return connectionField "artefacts" args
        (selected ++ chatHistorySelections parsed ++ cloneSelections parsed ++ nested) := by
  have hchat : scalarSelectionsForLeaf .chatEntry [] =
      .ok (scalars SelectableLeaf.chatEntry.defaultFields) := rfl
  cases hC : parsed.hasClonesStage <;> cases hH : parsed.hasChatHistoryStage <;> cases stage <;>
    simp only [compileArtefactsLeaf, selectedOfArtefact, chatHistorySelections, cloneSelections,
      nestedSelections, hC, hH, hchat, if_true, if_false, Bool.false_eq_true] <;> rfl

theorem takesLimit_or {kind : RegisteredStageKind} {chatHistory : Bool}
    (h : kind.takesLimit chatHistory = true) :
    chatHistory = true ∨ kind.takesLimit false = true := by
  cases kind with
  | depsSummary spec => exact .inl h
  | _ => exact .inr h

theorem filterMap_scalarName_chatHistorySelections :
    (chatHistorySelections parsed).filterMap GraphqlSelection.scalarName = [] := by
  rw [chatHistorySelections]
  split <;> rfl

theorem artefacts_appear {stage : Option RegisteredStageKind} {clones chatHistory : Bool}
    (hnone : parsed.selectArtefacts = none)
    (hflags : parsed.flags = { artefacts := true, clones, chatHistory })
    (hclones : clones = true → stage = none)
    (hcall : ∀ kind ∈ stage, parsed.registeredStages = [call] ∧ kind.IsOf call ∧
      ArgumentsRead true call kind)
    (hlimit : parsed.hasLimitStage → ∀ kind ∈ stage, kind.takesLimit chatHistory)
    (hselect : parsed.selectFields ≠ [] → clones = false)
    (h : compileArtefactsLeaf dates parsed stage = .ok leaf) :
    StagesAppear dates parsed stage leaf := by
  rw [compileArtefactsLeaf_eq] at h
  obtain ⟨selected, hselected, h⟩ := bind_eq_ok.1 h
  obtain ⟨nested, hnested, h⟩ := bind_eq_ok.1 h
  obtain ⟨args, hargs, h⟩ := bind_eq_ok.1 h
  obtain ⟨filter, hfilter, hargs⟩ := bind_eq_ok.1 hargs
  rw [← pure_eq_ok.1 h, ← pure_eq_ok.1 hargs]
  obtain ⟨hA, hC, hD, hK, hHC, hCG, hT, hH⟩ := ParsedDevqlQuery.flags_eq hflags
  dsimp only at hA hC hD hK hHC hCG hT hH
  have hclone (hc : clones = true) : cloneSelections parsed =
      [connectionField "clones" (compileClonesArgs parsed (limitArg parsed))
        (cloneResultSelections parsed.clones.raw)] := by
    rw [cloneSelections, hC, if_pos hc]
  have hchat (hc : chatHistory = true) : chatHistorySelections parsed =
      [connectionField "chatHistory" (firstArg (limitArg parsed))
        (scalars SelectableLeaf.chatEntry.defaultFields)] := by
    rw [chatHistorySelections, hH, if_pos hc]
  have hsub (selection : GraphqlSelection)
      (h : selection ∈
        selected ++ chatHistorySelections parsed ++ cloneSelections parsed ++ nested) :
      selection.compiledFields ⊆
        (connectionField "artefacts"
          (valueArg "filter" filter ++ firstArg (outerFirst parsed stage))
          (selected ++ chatHistorySelections parsed ++ cloneSelections parsed ++
            nested)).compiledFields :=
    compiledFields_subset_connectionField h
  intro part hpart
  simp [hnone, hA, hC, hD, hK, hHC, hCG, hT, hH] at hpart
  obtain rfl | ⟨hc, rfl⟩ | ⟨hc, rfl⟩ | ⟨kind, rfl, call', hcall', rfl⟩ | ⟨hlim, rfl⟩ | ⟨hne, rfl⟩ :=
    hpart
  · exact ⟨_, mem_compiledFields_field, by simp,
      artefactsInFull hfilter fun _ => List.mem_append_left _⟩
  · have hmem := hsub _ (by simp [hclone hc]; exact .inr (.inr (.inl rfl)))
    refine ⟨⟨_, hmem mem_compiledFields_field, by simp,
      clonesInFull fun _ => List.mem_append_left _⟩, fun hraw => ?_⟩
    refine ⟨_, hmem mem_compiledFields_connectionField, ?_⟩
    rw [hraw]
    exact filterMap_scalarName_scalars rawCloneFields
  · have hmem := hsub _ (by simp [hchat hc]; exact .inr (.inl rfl))
    exact ⟨_, hmem mem_compiledFields_field, List.mem_singleton.2 rfl, trivial⟩
  · obtain ⟨hstages, hof, hread⟩ := hcall kind rfl
    rw [hstages, List.mem_singleton] at hcall'
    rw [hcall']
    obtain ⟨args, selectionSet, rfl, hfull, -⟩ := compileNestedStage_eq_ok hof hread hnested
    have hmem := hsub _ (List.mem_append_right _ (List.mem_singleton.2 rfl))
    exact registered_appears (hmem mem_compiledFields_field) rfl (hfull _ fun _ => id)
  · -- the limit is at the innermost of the stages
    by_cases hch : chatHistory = true
    · have hmem := hsub _ (by simp [hchat hch]; exact .inr (.inl rfl))
      exact (limit_appears hlim.1 fun _ => id).mono hmem
    by_cases hcl : clones = true
    · have hmem := hsub _ (by simp [hclone hcl]; exact .inr (.inr (.inl rfl)))
      exact (limit_appears hlim.1 (List.subset_append_right _ _)).mono hmem
    cases stage with
    | none =>
      have houter : outerFirst parsed none = limitArg parsed := by
        simp [outerFirst, hC, hH, hch, hcl]
      rw [houter]
      exact limit_appears hlim.1 (List.subset_append_right _ _)
    | some kind =>
      obtain ⟨-, hof, hread⟩ := hcall kind rfl
      obtain ⟨args, selectionSet, rfl, -, htakes⟩ := compileNestedStage_eq_ok hof hread hnested
      have hmem := hsub _ (List.mem_append_right _ (List.mem_singleton.2 rfl))
      obtain hch' | htakes' := takesLimit_or (hlimit hlim.1 kind rfl)
      · exact absurd hch' hch
      · exact (limit_appears hlim.1 (htakes htakes')).mono hmem
  · have hc := hselect hne
    have hnestedNames : nested.filterMap GraphqlSelection.scalarName = [] := by
      cases stage with
      | none => rw [← Except.ok.inj hnested, List.filterMap_nil]
      | some kind =>
        obtain ⟨-, hof, hread⟩ := hcall kind rfl
        obtain ⟨args, selectionSet, rfl, -, -⟩ := compileNestedStage_eq_ok hof hread hnested
        rfl
    have hcloneNames : cloneSelections parsed = [] := by
      rw [cloneSelections, hC, hc]
      rfl
    rw [selectedOfArtefact, hC, hc] at hselected
    refine select_appears hnone ?_
    rw [List.filterMap_append, hnestedNames, List.filterMap_append, hcloneNames,
      List.filterMap_append, filterMap_scalarName_chatHistorySelections,
      scalarNames_eq hselected hne, List.filterMap_nil, List.append_nil, List.append_nil,
      List.append_nil]

/-! ## Stages of a selection -/

theorem selectedName_of_selection {selector : SelectArtefactsFilter}
    (hsome : parsed.selectArtefacts = some selector) :
    selectedName parsed = fun field => if field = "schema" then "schema" else "overview" := by
  funext field
  rw [selectedName, hsome]
  rfl

theorem selectionNames_eq {selector : SelectArtefactsFilter}
    (hsome : parsed.selectArtefacts = some selector) {overview : List GraphqlSelection}
    {selections : List GraphqlSelection}
    (hoverview : overview.filterMap GraphqlSelection.scalarName = ["overview"])
    (h : ((selectedOrOverview parsed.selectFields).mapM (selectionStageField overview)).map
      List.flatten = .ok selections) (hne : parsed.selectFields ≠ []) :
    selections.filterMap GraphqlSelection.scalarName =
      parsed.selectFields.map (selectedName parsed) := by
  rw [selectedOrOverview, if_neg (by simpa using hne)] at h
  obtain ⟨lists, hlists, rfl⟩ := map_eq_ok.1 h
  rw [selectedName_of_selection hsome]
  exact selectionFields_eq_ok hoverview hlists

/-- The parts of a selection with one stage, which appears in the field of the stage. -/
theorem selection_appear {selector : SelectArtefactsFilter} {stage : Option RegisteredStageKind}
    {name : String} {args : List GraphqlArgument} {selectionSet : List GraphqlSelection}
    (main : QueryPart)
    (hmain : main.AppearsIn dates (GraphqlSelection.field name args selectionSet).compiledFields)
    (hselect : parsed.selectFields ≠ [] →
      selectionSet.filterMap GraphqlSelection.scalarName =
        parsed.selectFields.map (selectedName parsed))
    (hlimit : parsed.hasLimitStage = true → firstArg (limitArg parsed) ⊆ args)
    (hparts : ∀ part ∈ stageParts parsed stage, part = .selectArtefacts selector ∨ part = main ∨
      (parsed.hasLimitStage = true ∧ part = .limit parsed.limit) ∨
      (parsed.selectFields ≠ [] ∧
        part = .select (parsed.selectFields.map (selectedName parsed)))) :
    StagesAppear dates parsed stage
      (.field "selectArtefacts" (compileSelectArtefactsArgs selector)
        [.field name args selectionSet]) := by
  have hsub : (GraphqlSelection.field name args selectionSet).compiledFields ⊆
      (GraphqlSelection.field "selectArtefacts" (compileSelectArtefactsArgs selector)
        [.field name args selectionSet]).compiledFields :=
    compiledFields_subset (List.mem_singleton.2 rfl)
  intro part hpart
  obtain rfl | rfl | ⟨hlim, rfl⟩ | ⟨hne, rfl⟩ := hparts part hpart
  · exact ⟨_, mem_compiledFields_field, by simp, selectorInFull fun _ => id⟩
  · exact hmain.mono hsub
  · exact (limit_appears hlim (hlimit hlim)).mono hsub
  · exact ⟨_, hsub mem_compiledFields_field, hselect hne⟩

theorem selectArtefacts_appear {selector : SelectArtefactsFilter}
    {stage : Option RegisteredStageKind} {mode : GraphqlCompileMode}
    (hsome : parsed.selectArtefacts = some selector)
    (haccepted : SelectionAccepted parsed stage mode)
    (hplaced : Placed parsed stage)
    (hcall : ∀ kind ∈ stage, parsed.registeredStages = [call] ∧ kind.IsOf call)
    (h : compileSelectArtefactsLeaf dates parsed stage selector = .ok leaf) :
    StagesAppear dates parsed stage leaf := by
  obtain ⟨stageField, hstageField, h⟩ := bind_eq_ok.1 h
  rw [← pure_eq_ok.1 h]
  unfold compileSelectionStage at hstageField
  have hlimit (hcontext : stage.any (·.isHttpContext) = false) : parsed.hasLimitStage = false := by
    have hlimit := haccepted.limit
    rwa [hcontext, Bool.not_false, Bool.and_true] at hlimit
  have hoverview {selections : List GraphqlSelection}
      (h : selectionStageSelections parsed.selectFields = .ok selections)
      (hne : parsed.selectFields ≠ []) :
      selections.filterMap GraphqlSelection.scalarName =
        parsed.selectFields.map (selectedName parsed) :=
    selectionNames_eq hsome rfl h hne
  obtain ⟨rfl, hflags⟩ | ⟨hflags, kind, rfl, hkind⟩ := selection_flags haccepted
  · have hlim := hlimit rfl
    have hnolimit {args : List GraphqlArgument} (h : parsed.hasLimitStage = true) :
        firstArg (limitArg parsed) ⊆ args := absurd h (by simp [hlim])
    obtain hflags | hflags | hflags | hflags | hflags := hflags
    all_goals
      obtain ⟨hA, hC, hD, hK, hHC, hCG, hT, hH⟩ := ParsedDevqlQuery.flags_eq hflags
      dsimp only at hA hC hD hK hHC hCG hT hH
      simp only [hK, hHC, hCG, hC, hD, if_true, if_false, Bool.false_eq_true] at hstageField
    · obtain ⟨args, hargs, hstageField⟩ := bind_eq_ok.1 hstageField
      obtain ⟨selections, hselections, hstageField⟩ := bind_eq_ok.1 hstageField
      rw [← pure_eq_ok.1 hstageField]
      refine selection_appear (.checkpoints parsed.checkpoints)
        ⟨_, mem_compiledFields_field, by simp, checkpointsInFull hargs fun _ => id⟩
        (hoverview hselections) hnolimit ?_
      simp [hsome, hA, hC, hD, hK, hHC, hCG, hT, hH, hlim]
    · obtain ⟨args, hargs, hstageField⟩ := bind_eq_ok.1 hstageField
      obtain ⟨selections, hselections, hstageField⟩ := bind_eq_ok.1 hstageField
      rw [← pure_eq_ok.1 hstageField]
      refine selection_appear (.historicalContext parsed.historicalContext)
        ⟨_, mem_compiledFields_field, by simp, historicalContextInFull hargs fun _ => id⟩
        (hoverview hselections) hnolimit ?_
      simp [hsome, hA, hC, hD, hK, hHC, hCG, hT, hH, hlim]
    · obtain ⟨args, hargs, hstageField⟩ := bind_eq_ok.1 hstageField
      obtain ⟨selections, hselections, hstageField⟩ := bind_eq_ok.1 hstageField
      rw [← pure_eq_ok.1 hstageField]
      refine selection_appear (.contextGuidance parsed.contextGuidance)
        ⟨_, mem_compiledFields_field, by simp, contextGuidanceInFull hargs fun _ => id⟩
        (hoverview hselections) hnolimit ?_
      simp [hsome, hA, hC, hD, hK, hHC, hCG, hT, hH, hlim]
    · obtain ⟨selections, hselections, hstageField⟩ := bind_eq_ok.1 hstageField
      obtain ⟨hneighbors, hraw⟩ := hplaced.codeMatches (by simp [hsome]) hC
      rw [← pure_eq_ok.1 hstageField]
      refine selection_appear (.clones parsed.clones) ⟨⟨_, mem_compiledFields_field, by simp,
        clonesInFull_of_selection hneighbors fun _ => id⟩, fun h => ?_⟩ (hoverview hselections)
        hnolimit ?_
      · rw [hraw] at h
        exact nomatch h
      · simp [hsome, hA, hC, hD, hK, hHC, hCG, hT, hH, hlim]
    · obtain ⟨selections, hselections, hstageField⟩ := bind_eq_ok.1 hstageField
      rw [← pure_eq_ok.1 hstageField]
      refine selection_appear (.deps parsed.deps (some .both))
        ⟨_, mem_compiledFields_field, by simp, depsInFull_of_selection fun _ => id⟩
        (selectionNames_eq hsome rfl hselections) hnolimit ?_
      simp [hsome, hA, hC, hD, hK, hHC, hCG, hT, hH, hlim]
  · obtain ⟨hstages, hof⟩ := hcall kind rfl
    have hread := hplaced.arguments kind rfl call (by simp [hstages])
    obtain ⟨hA, hC, hD, hK, hHC, hCG, hT, hH⟩ := ParsedDevqlQuery.flags_eq hflags
    dsimp only at hA hC hD hK hHC hCG hT hH
    simp only [hK, hHC, hCG, hC, hD, if_false, Bool.false_eq_true] at hstageField
    rw [hA] at hread
    cases kind with
    | tests stage =>
      obtain rfl : stage = call := hof
      obtain ⟨selections, hselections, hstageField⟩ := bind_eq_ok.1 hstageField
      rw [← pure_eq_ok.1 hstageField]
      refine selection_appear (.registered (.tests stage) stage)
        (registered_appears mem_compiledFields_field rfl (testsInFull hread rfl fun _ => id))
        (hoverview hselections) (fun h => absurd h (by simp [hlimit rfl])) ?_
      simp [hsome, hA, hC, hD, hK, hHC, hCG, hT, hH, hlimit rfl, hstages]
    | selectionOverview =>
      rw [← Except.ok.inj hstageField]
      refine selection_appear (.registered .selectionOverview call)
        (registered_appears mem_compiledFields_field rfl
          (argumentsInFull hread fun _ h => (nomatch h)))
        (fun h => ?_) (fun h => absurd h (by simp [hlimit rfl])) ?_
      · exact nomatch (hplaced.select h).2 _ rfl
      · simp [hsome, hA, hC, hD, hK, hHC, hCG, hT, hH, hlimit rfl, hstages]
    | httpContext stage =>
      rw [← Except.ok.inj hstageField]
      refine selection_appear (.registered (.httpContext stage) call)
        (registered_appears mem_compiledFields_field rfl
          (argumentsInFull hread fun _ h => (nomatch h)))
        (fun h => ?_) (fun _ _ => id) ?_
      · exact nomatch (hplaced.select h).2 _ rfl
      · intro part hpart
        simp [hsome, hA, hC, hD, hK, hHC, hCG, hT, hH, hstages] at hpart
        obtain rfl | rfl | ⟨hlim, rfl⟩ | hpart := hpart
        · exact .inl rfl
        · exact .inr (.inl rfl)
        · exact .inr (.inr (.inl ⟨hlim.1, rfl⟩))
        · exact .inr (.inr (.inr hpart))
    | _ => exact nomatch hkind

end Leaves

end DevqlGraphql
end Bitloops
