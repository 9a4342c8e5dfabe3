import Bitloops.DevqlGraphql.QueryParts
import Bitloops.Foundation.Results

/-!
# What the encoders emit

A field that has the arguments of an encoder gives the filter that was encoded, and a field that
has the selections of `select()` selects its names.
-/

namespace Bitloops
namespace DevqlGraphql

open Results

/-! ## What a field gives -/

section Gives

variable {dates : DateParsers} {f : CompiledField} {name : String}

theorem CompiledField.gives_of_mem {value : GraphqlValue} (h : { name, value } ∈ f.args) :
    f.Gives name value :=
  ⟨_, h, .inl ⟨rfl, rfl⟩⟩

theorem CompiledField.gives_of_mem_object {outer : String} {fields : List (String × GraphqlLiteral)}
    {literal : GraphqlLiteral} (h : { name := outer, value := .object fields } ∈ f.args)
    (hmem : (name, literal) ∈ fields) : f.Gives name (.literal literal) :=
  ⟨_, h, .inr ⟨fields, literal, rfl, rfl, hmem⟩⟩

theorem mem_optionalField {value : Option GraphqlLiteral} {literal : GraphqlLiteral}
    (h : literal ∈ value) : (name, literal) ∈ optionalField name value := by
  rw [Option.mem_def.1 h]
  exact List.mem_singleton.2 rfl

theorem mem_optionalArg {value : Option GraphqlLiteral} {literal : GraphqlLiteral}
    (h : literal ∈ value) :
    { name, value := .literal literal } ∈ optionalArg name value := by
  rw [Option.mem_def.1 h]
  exact List.mem_singleton.2 rfl

theorem mem_valueArg_object {fields : List (String × GraphqlLiteral)} (h : fields ≠ []) :
    { name, value := .object fields } ∈ valueArg name (GraphqlValue.object? fields) := by
  rw [GraphqlValue.object?, if_neg (by simpa using h)]
  exact List.mem_singleton.2 rfl

/-- A field of an input object that is an argument when it has a field. -/
theorem gives_of_mem_object? {outer : String} {fields : List (String × GraphqlLiteral)}
    {literal : GraphqlLiteral}
    (h : ∀ arg ∈ valueArg outer (GraphqlValue.object? fields), arg ∈ f.args)
    (hmem : (name, literal) ∈ fields) : f.Gives name (.literal literal) :=
  CompiledField.gives_of_mem_object
    (h _ (mem_valueArg_object (List.ne_nil_of_mem hmem))) hmem

theorem givesAny_of_optionalArg {value : Option GraphqlLiteral}
    (h : ∀ arg ∈ optionalArg name value, arg ∈ f.args) : f.GivesAny name value :=
  fun _ hliteral => CompiledField.gives_of_mem (h _ (mem_optionalArg hliteral))

theorem givesAny_none : f.GivesAny name none := fun _ h => nomatch h

/-- A date that compiles is the literal that is compiled for it. -/
theorem compileSince_eq_ok {since : Option String} {value : Option GraphqlLiteral}
    (h : compileSince dates since = .ok value) :
    ∀ date ∈ since, ∃ literal, compileDatetimeLiteral dates date = .ok literal ∧
      literal ∈ value := by
  intro date hdate
  rw [Option.mem_def.1 hdate, compileSince, map_eq_ok] at h
  obtain ⟨literal, hliteral, rfl⟩ := h
  exact ⟨literal, hliteral, rfl⟩

theorem givesDate_of_optionalArg {since : Option String} {value : Option GraphqlLiteral}
    (hsince : compileSince dates since = .ok value)
    (h : ∀ arg ∈ optionalArg "since" value, arg ∈ f.args) : f.GivesDate dates since := by
  intro date hdate
  obtain ⟨literal, hliteral, hvalue⟩ := compileSince_eq_ok hsince date hdate
  exact ⟨literal, hliteral, CompiledField.gives_of_mem (h _ (mem_optionalArg hvalue))⟩

theorem givesAny_of_object {outer : String} {fields : List (String × GraphqlLiteral)}
    {value : Option GraphqlLiteral}
    (h : ∀ arg ∈ valueArg outer (GraphqlValue.object? fields), arg ∈ f.args)
    (hsub : optionalField name value ⊆ fields) : f.GivesAny name value :=
  fun _ hliteral => gives_of_mem_object? h (hsub (mem_optionalField hliteral))

theorem givesDate_of_object {outer : String} {fields : List (String × GraphqlLiteral)}
    {since : Option String} {value : Option GraphqlLiteral}
    (hsince : compileSince dates since = .ok value)
    (h : ∀ arg ∈ valueArg outer (GraphqlValue.object? fields), arg ∈ f.args)
    (hsub : optionalField "since" value ⊆ fields) : f.GivesDate dates since := by
  intro date hdate
  obtain ⟨literal, hliteral, hvalue⟩ := compileSince_eq_ok hsince date hdate
  exact ⟨literal, hliteral, gives_of_mem_object? h (hsub (mem_optionalField hvalue))⟩

theorem findSome?_eq_of_find? {α β : Type} {g : α → Option β} {keys : List α} {key : α}
    (h : (keys.find? fun key => (g key).isSome) = some key) : keys.findSome? g = g key := by
  induction keys with
  | nil => exact nomatch h
  | cons first rest ih =>
    cases hfirst : g first with
    | none =>
      rw [List.find?_cons_of_neg (by simp [hfirst])] at h
      rw [List.findSome?_cons, hfirst]
      exact ih h
    | some value =>
      rw [List.find?_cons_of_pos (by simp [hfirst])] at h
      rw [List.findSome?_cons, hfirst, ← Option.some.inj h, hfirst]

/-- The arguments that were read are given when each of the arguments of the stage is. -/
theorem argumentsInFull {call : RegisteredStageCall} {arguments : List StageArgument}
    (hread : ∀ row ∈ call.args.rows, row.1 ∈ call.readKeys arguments)
    (hgives : ∀ argument ∈ arguments, ∀ value ∈ call.getFirst argument.keys,
      f.Gives argument.name (argument.encode value)) : ArgumentsInFull f call arguments := by
  intro row hrow
  obtain ⟨argument, hargument, hfind⟩ := List.mem_filterMap.1 (hread row hrow)
  have hget : call.get row.1 = some row.2 := by
    rw [RegisteredStageCall.get, call.args.findRow_eq_some.2 ⟨hrow, rfl⟩]
    rfl
  refine ⟨argument, hargument, List.mem_of_find?_eq_some hfind, hgives argument hargument _ ?_⟩
  rw [Option.mem_def, RegisteredStageCall.getFirst, ← hget]
  exact findSome?_eq_of_find? hfind

end Gives

/-! ## Filters -/

section Filters

variable {dates : DateParsers} {parsed : ParsedDevqlQuery} {f : CompiledField}

theorem artefactsInFull {filter : Option GraphqlValue}
    (h : compileArtefactFilterInput dates parsed = .ok filter)
    (hargs : ∀ arg ∈ valueArg "filter" filter, arg ∈ f.args) :
    ArtefactsInFull dates f parsed.artefacts := by
  obtain ⟨since, hsince, h⟩ := bind_eq_ok.1 h
  rw [← pure_eq_ok.1 h] at hargs
  exact {
    kind := givesAny_of_object hargs fun _ h => by simp [h]
    symbolFqn := givesAny_of_object hargs fun _ h => by simp [h]
    lines := givesAny_of_object hargs fun _ h => by simp [h]
    agent := givesAny_of_object hargs fun _ h => by simp [h]
    since := givesDate_of_object hsince hargs fun _ h => by simp [h] }

theorem clonesInFull {outer : String}
    (hargs : ∀ arg ∈ valueArg outer (compileClonesFilterInput parsed), arg ∈ f.args) :
    ClonesInFull f parsed.clones where
  relationKind := givesAny_of_object hargs fun _ h => by simp [h]
  minScore := givesAny_of_object hargs fun _ h => by simp [h]
  neighbors := givesAny_of_object hargs fun _ h => List.mem_append_right _ h

/-- The matches of a selection take no number of neighbours. -/
theorem clonesInFull_of_selection (hneighbors : parsed.clones.neighbors = none)
    (hargs : ∀ arg ∈ compileSelectionClonesArgs parsed, arg ∈ f.args) :
    ClonesInFull f parsed.clones where
  relationKind := givesAny_of_optionalArg fun _ h => hargs _ (List.mem_append_left _ h)
  minScore := givesAny_of_optionalArg fun _ h => hargs _ (List.mem_append_right _ h)
  neighbors := by
    rw [hneighbors]
    exact givesAny_none

theorem checkpointsInFull {args : List GraphqlArgument}
    (h : compileSelectionCheckpointArgs dates parsed = .ok args)
    (hargs : ∀ arg ∈ args, arg ∈ f.args) : CheckpointsInFull dates f parsed.checkpoints := by
  obtain ⟨since, hsince, h⟩ := bind_eq_ok.1 h
  rw [← pure_eq_ok.1 h] at hargs
  exact {
    agent := givesAny_of_optionalArg fun _ h => hargs _ (List.mem_append_left _ h)
    since := givesDate_of_optionalArg hsince fun _ h => hargs _ (List.mem_append_right _ h) }

theorem historicalContextInFull {args : List GraphqlArgument}
    (h : compileSelectionHistoricalContextArgs dates parsed = .ok args)
    (hargs : ∀ arg ∈ args, arg ∈ f.args) :
    HistoricalContextInFull dates f parsed.historicalContext := by
  obtain ⟨since, hsince, h⟩ := bind_eq_ok.1 h
  rw [← pure_eq_ok.1 h] at hargs
  exact {
    agent := givesAny_of_optionalArg fun _ h => hargs _ (by simp [h])
    since := givesDate_of_optionalArg hsince fun _ h => hargs _ (by simp [h])
    evidenceKind := givesAny_of_optionalArg fun _ h => hargs _ (by simp [h]) }

theorem contextGuidanceInFull {args : List GraphqlArgument}
    (h : compileSelectionContextGuidanceArgs dates parsed = .ok args)
    (hargs : ∀ arg ∈ args, arg ∈ f.args) :
    ContextGuidanceInFull dates f parsed.contextGuidance := by
  obtain ⟨since, hsince, h⟩ := bind_eq_ok.1 h
  rw [← pure_eq_ok.1 h] at hargs
  exact {
    agent := givesAny_of_optionalArg fun _ h => hargs _ (by simp [h])
    since := givesDate_of_optionalArg hsince fun _ h => hargs _ (by simp [h])
    evidenceKind := givesAny_of_optionalArg fun _ h => hargs _ (by simp [h])
    category := givesAny_of_optionalArg fun _ h => hargs _ (by simp [h])
    kind := givesAny_of_optionalArg fun _ h => hargs _ (by simp [h]) }

theorem telemetryInFull {args : List GraphqlArgument}
    (h : compileTelemetryArgs dates parsed = .ok args)
    (hargs : ∀ arg ∈ args, arg ∈ f.args) : TelemetryInFull dates f parsed.telemetry := by
  obtain ⟨since, hsince, h⟩ := bind_eq_ok.1 h
  rw [← pure_eq_ok.1 h] at hargs
  exact {
    eventType := givesAny_of_optionalArg fun _ h => hargs _ (by simp [h])
    agent := givesAny_of_optionalArg fun _ h => hargs _ (by simp [h])
    since := givesDate_of_optionalArg hsince fun _ h => hargs _ (by simp [h]) }

theorem selectorInFull {selector : SelectArtefactsFilter}
    (hargs : ∀ arg ∈ compileSelectArtefactsArgs selector, arg ∈ f.args) :
    SelectorInFull f selector := by
  have hobject := hargs _ (List.mem_singleton.2 rfl)
  exact {
    symbolFqn := fun _ h =>
      CompiledField.gives_of_mem_object hobject (by simp [mem_optionalField h])
    search := fun _ h =>
      CompiledField.gives_of_mem_object hobject (by simp [mem_optionalField h])
    searchMode := fun _ h =>
      CompiledField.gives_of_mem_object hobject (by simp [mem_optionalField h])
    path := fun _ h =>
      CompiledField.gives_of_mem_object hobject (by simp [mem_optionalField h])
    lines := fun _ h =>
      CompiledField.gives_of_mem_object hobject (by simp [mem_optionalField h]) }

theorem depsInFull {defaultDirection : Option DepsDirection} {first : Option ℕ}
    (hargs : ∀ arg ∈ compileDepsArgs parsed first, arg ∈ f.args) :
    DepsInFull f parsed.deps defaultDirection := by
  have hobject := hargs _ List.mem_cons_self
  exact {
    kind := fun _ h =>
      CompiledField.gives_of_mem_object hobject (by simp [mem_optionalField h])
    direction := .inr (CompiledField.gives_of_mem_object hobject (by simp))
    includeUnresolved := CompiledField.gives_of_mem_object hobject (by simp) }

theorem depsInFull_of_selection
    (hargs : ∀ arg ∈ compileSelectionDepsArgs parsed, arg ∈ f.args) :
    DepsInFull f parsed.deps (some .both) where
  kind := givesAny_of_optionalArg fun _ h => hargs _ (by simp [compileSelectionDepsArgs, h])
  direction := by
    by_cases hboth : parsed.deps.direction = .both
    · exact .inl (congrArg some hboth)
    · refine .inr (CompiledField.gives_of_mem (hargs _ ?_))
      simp [compileSelectionDepsArgs, hboth, optionalArg]
  includeUnresolved :=
    CompiledField.gives_of_mem (hargs _ (by simp [compileSelectionDepsArgs, optionalArg]))

end Filters

/-! ## Arguments of registered stages -/

section Registered

variable {dates : DateParsers} {parsed : ParsedDevqlQuery} {f : CompiledField}
  {call : RegisteredStageCall}

theorem parseArg_eq_ok {α : Type} {arg : Option String} {fromStr : String → Option α}
    {message : String} {value : Option α} (h : parseArg arg fromStr message = .ok value) :
    ∀ text ∈ arg, ∃ a, fromStr text = some a ∧ value = some a := by
  intro text htext
  rw [Option.mem_def.1 htext, parseArg] at h
  cases hfrom : fromStr text with
  | none => rw [hfrom] at h; cases h
  | some a =>
    rw [hfrom] at h
    exact ⟨a, rfl, (Except.ok.inj h).symm⟩

/-- `summary()` is one of clones, or of dependencies with what its arguments set. -/
theorem resolveSummaryStageKind_eq_ok {kind : RegisteredStageKind}
    (h : resolveSummaryStageKind call = .ok kind) :
    kind = .cloneSummary ∨ ∃ spec, kind = .depsSummary spec ∧
      (∀ text ∈ call.get "kind", ∃ a, DepsKind.fromStr text = some a ∧ spec.kind = some a) ∧
      (∀ text ∈ call.get "direction", ∃ a, DepsDirection.fromStr text = some a ∧
        spec.direction = some a) ∧
      ∀ text ∈ call.get "unresolved", ∃ a, parseBoolLiteral "" text = .ok a ∧
        spec.unresolved = some a := by
  rw [resolveSummaryStageKind] at h
  cases hdeps : call.get "dependencies" with
  | none =>
    rw [hdeps] at h
    by_cases hempty : call.args.rows.isEmpty
    · rw [if_pos hempty] at h
      exact .inl (Except.ok.inj h).symm
    · rw [if_neg hempty] at h
      exact nomatch h
  | some depsArg =>
    rw [hdeps] at h
    obtain ⟨enabled, -, h⟩ := bind_eq_ok.1 h
    cases enabled with
    | false => exact nomatch h
    | true =>
    simp only [Bool.not_true, Bool.false_eq_true, if_false] at h
    split at h
    · exact nomatch h
    obtain ⟨kind', hkind, h⟩ := bind_eq_ok.1 h
    obtain ⟨direction, hdirection, h⟩ := bind_eq_ok.1 h
    obtain ⟨unresolved, hunresolved, h⟩ := bind_eq_ok.1 h
    refine .inr ⟨{ kind := kind', direction, unresolved }, (pure_eq_ok.1 h).symm,
      parseArg_eq_ok hkind, parseArg_eq_ok hdirection, fun text htext => ?_⟩
    obtain ⟨a, ha, hvalue⟩ := parseArg_eq_ok hunresolved text htext
    cases hparse : parseBoolLiteral "" text with
    | error e => rw [hparse] at ha; exact nomatch ha
    | ok b =>
      rw [hparse] at ha
      rw [Option.some.inj ha]
      exact ⟨a, rfl, hvalue⟩

theorem depsSummaryInFull {spec : DepsSummaryStageSpec}
    (h : resolveSummaryStageKind call = .ok (.depsSummary spec))
    (hargs : ∀ arg ∈ compileDepsSummaryArgs spec, arg ∈ f.args) : DepsSummaryInFull f call := by
  obtain h | ⟨spec', hspec', hkind, hdirection, hunresolved⟩ := resolveSummaryStageKind_eq_ok h
  · exact nomatch h
  injection hspec' with hspec'
  rw [← hspec'] at hkind hdirection hunresolved
  have hobject := hargs _ (List.mem_singleton.2 rfl)
  refine ⟨fun text htext => ?_, fun text htext => ?_, fun text htext => ?_⟩
  · obtain ⟨kind, hfrom, hspec⟩ := hkind text htext
    exact ⟨kind, hfrom,
      CompiledField.gives_of_mem_object hobject (by simp [hspec, optionalField])⟩
  · obtain ⟨direction, hfrom, hspec⟩ := hdirection text htext
    exact ⟨direction, hfrom,
      CompiledField.gives_of_mem_object hobject (by simp [hspec, optionalField])⟩
  · obtain ⟨unresolved, hparse, hspec⟩ := hunresolved text htext
    exact ⟨unresolved, hparse, CompiledField.gives_of_mem_object hobject (by simp [hspec])⟩

theorem getFirst_singleton {key : String} : call.getFirst [key] = call.get key := by
  rw [RegisteredStageCall.getFirst, List.findSome?_cons]
  cases call.get key <;> rfl

section Read

variable {first : Option ℕ} {kind : RegisteredStageKind} {args : List GraphqlArgument}
  (hread : ∀ row ∈ call.args.rows, row.1 ∈ call.readKeys kind.arguments)

include hread

theorem knowledgeInFull (hkind : kind = .knowledge call)
    (hargs : ∀ arg ∈ compileKnowledgeArgs call first, arg ∈ f.args) :
    ArgumentsInFull f call kind.arguments := by
  subst hkind
  refine argumentsInFull hread fun argument hargument value hvalue => ?_
  rw [List.mem_singleton.1 hargument, getFirst_singleton] at *
  refine CompiledField.gives_of_mem (hargs _ (List.mem_append_left _ (mem_optionalArg ?_)))
  rw [Option.mem_def.1 hvalue]
  rfl

theorem testsInFull (hkind : kind = .tests call)
    (hargs : ∀ arg ∈ compileSelectionTestsArgs call, arg ∈ f.args) :
    ArgumentsInFull f call kind.arguments := by
  subst hkind
  refine argumentsInFull hread fun argument hargument value hvalue => ?_
  obtain rfl | hargument := List.mem_cons.1 hargument
  · rw [getFirst_singleton] at hvalue
    refine CompiledField.gives_of_mem (hargs _ (List.mem_append_left _ (mem_optionalArg ?_)))
    rw [Option.mem_def.1 hvalue]
    rfl
  · rw [List.mem_singleton.1 hargument] at hvalue ⊢
    rw [getFirst_singleton] at hvalue
    refine CompiledField.gives_of_mem (hargs _ (List.mem_append_right _ (mem_optionalArg ?_)))
    rw [Option.mem_def.1 hvalue]
    rfl

theorem httpSearchInFull (hkind : kind = .httpSearch call)
    (h : compileHttpSearchArgs call first = .ok args) (hargs : ∀ arg ∈ args, arg ∈ f.args) :
    ArgumentsInFull f call kind.arguments := by
  subst hkind
  refine argumentsInFull hread fun argument hargument value hvalue => ?_
  rw [List.mem_singleton.1 hargument] at hvalue ⊢
  rw [getFirst_singleton] at hvalue
  rw [compileHttpSearchArgs, Option.mem_def.1 hvalue] at h
  rw [← Except.ok.inj h] at hargs
  exact CompiledField.gives_of_mem (hargs _ List.mem_cons_self)

theorem httpLifecycleBoundariesInFull (hkind : kind = .httpLifecycleBoundaries call)
    (hargs : ∀ arg ∈ compileHttpLifecycleBoundariesArgs call first, arg ∈ f.args) :
    ArgumentsInFull f call kind.arguments := by
  subst hkind
  refine argumentsInFull hread fun argument hargument value hvalue => ?_
  rw [List.mem_singleton.1 hargument] at hvalue ⊢
  rw [getFirst_singleton] at hvalue
  rw [compileHttpLifecycleBoundariesArgs, Option.mem_def.1 hvalue] at hargs
  exact CompiledField.gives_of_mem (hargs _ List.mem_cons_self)

theorem httpHeaderProducersInFull (hkind : kind = .httpHeaderProducers call)
    (h : compileHttpHeaderProducersArgs call first = .ok args)
    (hargs : ∀ arg ∈ args, arg ∈ f.args) : ArgumentsInFull f call kind.arguments := by
  subst hkind
  refine argumentsInFull hread fun argument hargument value hvalue => ?_
  rw [List.mem_singleton.1 hargument] at hvalue ⊢
  rw [compileHttpHeaderProducersArgs, Option.mem_def.1 hvalue] at h
  rw [← Except.ok.inj h] at hargs
  exact CompiledField.gives_of_mem (hargs _ List.mem_cons_self)

theorem httpPatchImpactInFull (hkind : kind = .httpPatchImpact call)
    (h : compileHttpPatchImpactArgs call = .ok args) (hargs : ∀ arg ∈ args, arg ∈ f.args) :
    ArgumentsInFull f call kind.arguments := by
  subst hkind
  refine argumentsInFull hread fun argument hargument value hvalue => ?_
  rw [List.mem_singleton.1 hargument] at hvalue ⊢
  rw [compileHttpPatchImpactArgs, Option.mem_def.1 hvalue] at h
  rw [← Except.ok.inj h] at hargs
  exact CompiledField.gives_of_mem_object (hargs _ List.mem_cons_self) (List.mem_singleton.2 rfl)

theorem httpLossyTransformsInFull (hkind : kind = .httpLossyTransforms call)
    (hargs : ∀ arg ∈ compileHttpLossyTransformsArgs call first true, arg ∈ f.args) :
    ArgumentsInFull f call kind.arguments := by
  subst hkind
  refine argumentsInFull hread fun argument hargument value hvalue => ?_
  obtain ⟨field, hfield, rfl⟩ := List.mem_map.1 hargument
  refine gives_of_mem_object? (fun arg harg => hargs arg (List.mem_append_left _ harg)) ?_
  refine List.mem_flatMap.2 ⟨field, hfield, mem_optionalField ?_⟩
  rw [Option.mem_def.1 hvalue]
  rfl

end Read

end Registered

/-! ## Fields of a document -/

section Fields

variable {dates : DateParsers} {parsed : ParsedDevqlQuery} {stage : Option RegisteredStageKind}
  {fields fields' : List CompiledField}

theorem HasField.mono {names : List String} {p : CompiledField → Prop}
    (h : HasField fields names p) (hsub : fields ⊆ fields') : HasField fields' names p := by
  obtain ⟨f, hf, hp⟩ := h
  exact ⟨f, hsub hf, hp⟩

/-- A part that appears among some fields appears among more. -/
theorem QueryPart.AppearsIn.mono {part : QueryPart} (h : part.AppearsIn dates fields)
    (hsub : fields ⊆ fields') : part.AppearsIn dates fields' := by
  cases part with
  | clones filter =>
    refine ⟨h.1.mono hsub, fun hraw => ?_⟩
    obtain ⟨f, hf, hselected⟩ := h.2 hraw
    exact ⟨f, hsub hf, hselected⟩
  | limit count =>
    obtain ⟨f, hf, hgives⟩ := h
    exact ⟨f, hsub hf, hgives⟩
  | select names =>
    obtain ⟨f, hf, hselected⟩ := h
    exact ⟨f, hsub hf, hselected⟩
  | project | file | files | asOf | selectArtefacts | artefacts | deps | checkpoints
  | historicalContext | contextGuidance | telemetry | chatHistory | registered =>
    exact HasField.mono h hsub

theorem compiledFields_field (name : String) (args : List GraphqlArgument)
    (selectionSet : List GraphqlSelection) :
    (GraphqlSelection.field name args selectionSet).compiledFields =
      { name, args, selected := selectionSet.filterMap GraphqlSelection.scalarName } ::
        selectionSet.flatMap GraphqlSelection.compiledFields := by
  rw [GraphqlSelection.compiledFields]

theorem mem_compiledFields_field {name : String} {args : List GraphqlArgument}
    {selectionSet : List GraphqlSelection} :
    { name, args, selected := selectionSet.filterMap GraphqlSelection.scalarName } ∈
      (GraphqlSelection.field name args selectionSet).compiledFields := by
  rw [compiledFields_field]
  exact List.mem_cons_self

/-- The fields of a selection are among those of the field that selects it. -/
theorem compiledFields_subset {name : String} {args : List GraphqlArgument}
    {selectionSet : List GraphqlSelection} {selection : GraphqlSelection}
    (h : selection ∈ selectionSet) :
    selection.compiledFields ⊆
      (GraphqlSelection.field name args selectionSet).compiledFields := by
  intro f hf
  rw [compiledFields_field]
  exact List.mem_cons_of_mem _ (List.mem_flatMap.2 ⟨selection, h, hf⟩)

/-- The node of a connection selects the fields of the node. -/
theorem mem_compiledFields_connectionField {name : String} {args : List GraphqlArgument}
    {selectionSet : List GraphqlSelection} :
    { name := "node", args := [],
      selected := selectionSet.filterMap GraphqlSelection.scalarName } ∈
      (connectionField name args selectionSet).compiledFields :=
  compiledFields_subset (List.mem_singleton.2 rfl)
    (compiledFields_subset (List.mem_singleton.2 rfl) mem_compiledFields_field)

theorem compiledFields_subset_connectionField {name : String} {args : List GraphqlArgument}
    {selectionSet : List GraphqlSelection} {selection : GraphqlSelection}
    (h : selection ∈ selectionSet) :
    selection.compiledFields ⊆ (connectionField name args selectionSet).compiledFields :=
  List.Subset.trans (compiledFields_subset h)
    (List.Subset.trans (compiledFields_subset (List.mem_singleton.2 rfl))
      (compiledFields_subset (List.mem_singleton.2 rfl)))

theorem filterMap_scalarName_scalars (names : List String) :
    (scalars names).filterMap GraphqlSelection.scalarName = names := by
  rw [scalars, List.filterMap_map]
  exact List.filterMap_some

/-- `select()` of a leaf selects the GraphQL names of its fields. -/
theorem scalarSelectionsForLeaf_eq_ok {leaf : SelectableLeaf} {selectFields : List String}
    {selections : List GraphqlSelection}
    (h : scalarSelectionsForLeaf leaf selectFields = .ok selections) (hne : selectFields ≠ []) :
    selections = scalars (selectFields.map dslFieldToGraphql) := by
  rw [scalarSelectionsForLeaf, if_neg (by simpa using hne), map_eq_ok] at h
  obtain ⟨names, hnames, rfl⟩ := h
  have hall := mapM_eq_ok.1 hnames
  clear hnames hne
  congr 1
  induction hall with
  | nil => rfl
  | cons hfield _ ih =>
    rw [mapSelectedField] at hfield
    split at hfield
    · rw [List.map_cons, ih, Except.ok.inj hfield]
    · exact nomatch hfield

/-- `select()` of a selection selects the overview and the schema. -/
theorem selectionFields_eq_ok {overview : List GraphqlSelection} {selectFields : List String}
    {selections : List (List GraphqlSelection)}
    (hoverview : overview.filterMap GraphqlSelection.scalarName = ["overview"])
    (h : selectFields.mapM (selectionStageField overview) = .ok selections) :
    selections.flatten.filterMap GraphqlSelection.scalarName =
      selectFields.map fun field => if field = "schema" then "schema" else "overview" := by
  have hall := mapM_eq_ok.1 h
  clear h
  induction hall with
  | nil => rfl
  | @cons field selection _ _ hfield _ ih =>
    rw [List.flatten_cons, List.filterMap_append, ih, List.map_cons]
    have hselection : selection.filterMap GraphqlSelection.scalarName =
        [if field = "schema" then "schema" else "overview"] := by
      unfold selectionStageField at hfield
      split at hfield
      · rw [← Except.ok.inj hfield, hoverview]
        rfl
      · rw [← Except.ok.inj hfield, hoverview]
        rfl
      · rw [← Except.ok.inj hfield]
        rfl
      · exact nomatch hfield
    rw [hselection, List.singleton_append]

end Fields

end DevqlGraphql
end Bitloops
