import Bitloops.DevqlGraphql.ArgumentTexts

/-!
# Reading the text of a pipeline

The text of a stage is read as the stage, `parseStage_render`, and a stage of which the text ends
inside of a value is refused, `parseStage_unclosed`.  The arrows of the query are looked for in the
values as well, so a pipeline is read back when no stage that is reached has one in a value, and
only then: `parse_render_iff`.
-/

namespace Bitloops
namespace DevqlGraphql

open LanguageAdapter (Text trim Blank Tight isWhitespace trim_tight trim_padded trim_blank)
open Separators

variable (parseF32 : String → Option Score) {parsed : ParsedDevqlQuery}
variable {callee inner stage text : Text} {q : Char}

/-! ## Recognising a stage -/

/-- The text of a call. -/
def callText (callee inner : Text) : Text := callee ++ '(' :: (inner ++ [')'])

theorem callText_eq {other rest : Text} (hcallee : '(' ∉ callee) (hother : '(' ∉ other)
    (h : callText callee inner = other ++ '(' :: rest) : callee = other := by
  have hfirst : splitOnce '(' (callText callee inner) = some (callee, inner ++ [')']) :=
    splitOnce_append hcallee
  rw [h, splitOnce_append hother] at hfirst
  exact (Prod.mk.inj (Option.some.inj hfirst)).1.symm

theorem stripCall_callText {rule : String} (hrule : '(' ∉ rule.toList) (hcallee : '(' ∉ callee) :
    stripCall rule (callText callee inner) =
      if rule.toList = callee then some inner else none := by
  by_cases heq : rule.toList = callee
  · have hleading : (rule.toList ++ ['(']).isPrefixOf (callText callee inner) = true := by
      rw [List.isPrefixOf_iff_prefix, heq, callText]
      exact ⟨inner ++ [')'], (List.append_cons callee '(' (inner ++ [')'])).symm⟩
    have hdrop : (callText callee inner).drop (rule.toList.length + 1) = inner ++ [')'] := by
      rw [heq, callText, List.append_cons, List.drop_left' (by simp)]
    rw [stripCall, if_pos hleading, if_pos heq, hdrop]
    simp only [List.getLast?_concat, if_true, List.dropLast_concat]
  · have hleading : ¬(rule.toList ++ ['(']).isPrefixOf (callText callee inner) = true := by
      rw [List.isPrefixOf_iff_prefix]
      rintro ⟨rest, hrest⟩
      rw [← List.append_cons] at hrest
      exact heq (callText_eq hcallee hrule hrest.symm).symm
    rw [stripCall, if_neg hleading, if_neg heq]

def StageRule.name : StageRule → String
  | call name _ => name
  | exact name _ => name

/-- The rules for other names do not match. -/
theorem findSome?_matches (rules : List StageRule) (hcallee : '(' ∉ callee)
    (hrules : ∀ rule ∈ rules, '(' ∉ rule.name.toList) :
    rules.findSome? (·.matches (callText callee inner)) =
      (rules.filter fun rule => rule.name = String.ofList callee).findSome?
        (·.matches (callText callee inner)) := by
  induction rules with
  | nil => rfl
  | cons rule rules ih =>
    have hrest := ih fun other hother => hrules other (List.mem_cons_of_mem rule hother)
    by_cases heq : rule.name = String.ofList callee
    · rw [List.filter_cons_of_pos (by simpa using heq), List.findSome?_cons, List.findSome?_cons,
        hrest]
    · have hne : rule.name.toList ≠ callee := fun h => heq (by rw [← h, String.ofList_toList])
      have hrule := hrules rule List.mem_cons_self
      have hnone : rule.matches (callText callee inner) = none := by
        cases rule with
        | call other action =>
          have hother : '(' ∉ other.toList := hrule
          rw [StageRule.matches, stripCall_callText hother hcallee]
          exact congrArg (Option.map action) (if_neg hne)
        | exact other action =>
          exact if_neg fun h => hne (callText_eq hcallee hrule h).symm
      rw [List.filter_cons_of_neg (by simpa using heq), List.findSome?_cons, hnone, hrest]

/-- A rule is for a stage without names for its arguments, or for a core stage with them. -/
theorem stageRules_names {rule : StageRule} (hrule : rule ∈ stageRules parseF32) :
    '(' ∉ rule.name.toList ∧
      (rule.name ∈ unnamedStages ∨ rule.name ∈ (coreStages parseF32).map Prod.fst) := by
  have hrules : (stageRules parseF32).map StageRule.name =
      ["repo", "project", "asOf", "selectArtefacts", "file", "files", "artefacts", "artefacts",
        "clones", "clones", "dependencies", "dependencies", "chatHistory", "checkpoints",
        "checkpoints", "historicalContext", "historicalContext", "contextGuidance",
        "contextGuidance", "telemetry", "telemetry", "select", "limit"] := rfl
  have hcore : (coreStages parseF32).map Prod.fst =
      ["asOf", "selectArtefacts", "files", "artefacts", "clones", "dependencies", "checkpoints",
        "historicalContext", "contextGuidance", "telemetry"] := rfl
  have hmem : rule.name ∈ (stageRules parseF32).map StageRule.name := List.mem_map_of_mem hrule
  rw [hrules] at hmem
  rw [hcore]
  revert hmem
  generalize rule.name = name
  revert name
  decide

/-- The action of the first rule for the name of a call. -/
theorem parseStage_callText {rules : List StageRule} {action : Text → StageAction} {name : String}
    (hcallee : '(' ∉ name.toList)
    (hrules : (stageRules parseF32).filter (fun rule => rule.name = name) =
      .call name action :: rules) :
    parseStage parseF32 parsed (callText name.toList inner) = action inner parsed := by
  have hfirst : (StageRule.call name action).matches (callText name.toList inner) =
      some (action inner) := by
    rw [StageRule.matches, stripCall_callText hcallee hcallee, if_pos rfl]
    rfl
  have hnames : ∀ rule ∈ stageRules parseF32, '(' ∉ rule.name.toList :=
    fun rule hrule => (stageRules_names parseF32 hrule).1
  rw [parseStage, findSome?_matches _ hcallee hnames, String.ofList_toList,
    hrules, List.findSome?_cons, hfirst]

theorem parseStage_scope (scope : ScopeStage) :
    parseStage parseF32 parsed (callText scope.name.toList inner) =
      (parseSingleQuotedOrDouble inner).map fun value =>
        scope.set (String.ofList value) parsed := by
  have hname : '(' ∉ scope.name.toList := by cases scope <;> decide
  cases scope with
  | repo => exact parseStage_callText parseF32 hname rfl
  | project => exact parseStage_callText parseF32 hname rfl
  | file => exact parseStage_callText parseF32 hname rfl

/-- A core stage with named arguments is the first rule for its name. -/
theorem filter_stageRules {name : String}
    {action : StageArgs → ParsedDevqlQuery → Except String ParsedDevqlQuery}
    (h : (name, action) ∈ coreStages parseF32) :
    ∃ rules, (stageRules parseF32).filter (fun rule => rule.name = name) =
      .call name (withArgs action) :: rules := by
  simp only [coreStages, List.mem_cons, List.not_mem_nil, or_false, Prod.mk.injEq] at h
  rcases h with ⟨rfl, rfl⟩ | ⟨rfl, rfl⟩ | ⟨rfl, rfl⟩ | ⟨rfl, rfl⟩ | ⟨rfl, rfl⟩ | ⟨rfl, rfl⟩ |
    ⟨rfl, rfl⟩ | ⟨rfl, rfl⟩ | ⟨rfl, rfl⟩ | ⟨rfl, rfl⟩ <;> exact ⟨_, rfl⟩

theorem filter_stageRules_eq_nil {name : String} (hnamed : name ∉ unnamedStages)
    (hcore : ∀ stage ∈ coreStages parseF32, stage.1 ≠ name) :
    (stageRules parseF32).filter (fun rule => rule.name = name) = [] := by
  rw [List.filter_eq_nil_iff]
  intro rule hrule
  rw [decide_eq_true_iff]
  rintro rfl
  rcases (stageRules_names parseF32 hrule).2 with h | h
  · exact hnamed h
  · obtain ⟨stage, hstage, hname⟩ := List.mem_map.mp h
    exact hcore stage hstage hname

theorem parseRegisteredStage_callText (hne : callee ≠ [])
    (hchars : ∀ c ∈ callee, isNameChar c = true) (hcore : ¬"__core_".toList <+: callee) :
    parseRegisteredStage (callText callee inner) =
      (parseNamedArgs inner).map fun args => some ⟨String.ofList callee, args⟩ := by
  have hcallee : '(' ∉ callee := notMem_of_nameChars hchars (by decide)
  have hsplit : splitOnce '(' (callText callee inner) = some (callee, inner ++ [')']) :=
    splitOnce_append hcallee
  have hlast : (callText callee inner).getLast? = some ')' := by
    rw [callText, List.append_cons, ← List.append_assoc, List.getLast?_concat]
  have hall : callee.all isNameChar = true := List.all_eq_true.mpr hchars
  rw [parseRegisteredStage, hsplit]
  simp only [trim_nameChars hchars, List.dropLast_concat]
  rw [if_neg (by simp [hlast, hne]), if_neg (by simp [hall, hne]),
    if_neg fun h => hcore (List.isPrefixOf_iff_prefix.mp h)]

theorem parseStage_named (name : StageName) :
    parseStage parseF32 parsed (callText name.text inner) =
      withArgs (applyNamed parseF32 (String.ofList name.text)) inner parsed := by
  have hparen : '(' ∉ name.text := notMem_of_nameChars name.nameChars (by decide)
  have hname : (String.ofList name.text).toList = name.text := String.toList_ofList ..
  cases hfind : (coreStages parseF32).find? (·.1 = String.ofList name.text) with
  | some stage =>
    have hmem := List.mem_of_find?_eq_some hfind
    have heq : stage.1 = String.ofList name.text := by simpa using List.find?_some hfind
    have hstage : (String.ofList name.text, stage.2) ∈ coreStages parseF32 := heq ▸ hmem
    obtain ⟨rules, hrules⟩ := filter_stageRules parseF32 hstage
    have happly : applyNamed parseF32 (String.ofList name.text) = stage.2 := by
      funext args parsed
      rw [applyNamed, hfind]
    have hparse : parseStage parseF32 parsed (callText (String.ofList name.text).toList inner) =
        withArgs stage.2 inner parsed := parseStage_callText parseF32 (by rwa [hname]) hrules
    rw [happly, ← hparse, hname]
  | none =>
    have hrules := filter_stageRules_eq_nil parseF32 name.named fun stage hstage heq =>
      List.find?_eq_none.mp hfind stage hstage (decide_eq_true heq)
    have hnone : (stageRules parseF32).findSome? (·.matches (callText name.text inner)) = none := by
      rw [findSome?_matches _ hparen fun rule hrule => (stageRules_names parseF32 hrule).1, hrules,
        List.findSome?_nil]
    rw [parseStage, hnone]
    simp only [parseRegisteredStage_callText name.ne_nil name.nameChars name.registrable]
    rw [withArgs]
    cases parseNamedArgs inner with
    | error e => rfl
    | ok args =>
      change Except.ok _ = reporting (applyNamed parseF32 (String.ofList name.text) args) parsed
      rw [reporting, applyNamed, hfind]
      rfl

/-- What is not closed is no stage. -/
theorem parseStage_open (hlast : stage.getLast? ≠ some ')') :
    parseStage parseF32 parsed stage = .error (.unsupportedStage stage) := by
  have hmatches : ∀ rule : StageRule, rule.matches stage = none := by
    intro rule
    cases rule with
    | call name action =>
      have hdrop : ((stage.drop (name.toList.length + 1)).getLast? = some ')') = False := by
        rw [List.getLast?_drop, eq_iff_iff, iff_false]
        split_ifs
        · exact not_false
        · exact hlast
      rw [StageRule.matches, stripCall]
      simp only [hdrop, if_false, ite_self, Option.map_none]
    | exact name action =>
      refine if_neg fun h => hlast ?_
      rw [h, List.getLast?_append]
      rfl
  have hregistered : parseRegisteredStage stage = .ok none := by
    rw [parseRegisteredStage]
    cases splitOnce '(' stage with
    | none => rfl
    | some parts => exact if_pos (Or.inl hlast)
  rw [parseStage, List.findSome?_eq_none_iff.mpr fun rule _ => hmatches rule]
  simp only [hregistered]
  rfl

/-! ## Reading a stage -/

variable (layout : Layout)

theorem parseStage_render (stage : PipelineStage) :
    parseStage parseF32 parsed (stage.render layout) =
      (applyStage parseF32 parsed stage).mapError .rejected := by
  cases stage with
  | scope scope value =>
    have hparse : parseStage parseF32 parsed (callText scope.name.toList value.render) = _ :=
      parseStage_scope parseF32 scope
    rw [parseSingleQuotedOrDouble_render] at hparse
    exact hparse
  | chatHistory => rfl
  | named name args =>
    have hparse : parseStage parseF32 parsed (callText name.text (renderArguments layout args)) =
        _ := parseStage_named parseF32 name
    rw [withArgs, parseNamedArgs_render] at hparse
    exact hparse

/-- A stage of which the text ends inside of a value is refused. -/
theorem parseStage_unclosed {before w : Text} (hw : Blank w) (hne : callee ≠ [])
    (hchars : ∀ c ∈ callee, isNameChar c = true) (hq : isQuote q = true) (h : q ∉ text)
    (hread : ∀ kept, q ∉ kept → ∃ input,
      parseStage parseF32 parsed (callText callee (before ++ q :: kept)) =
        .error (.expectedQuotedString input)) :
    ∃ error, parseStage parseF32 parsed (trim (w ++ (callee ++ '(' :: (before ++ q :: text)))) =
      .error error ∧ ∀ message, error ≠ .rejected message := by
  have hfront : Tight (callee ++ '(' :: before ++ [q]) := by
    obtain ⟨c, callee, rfl⟩ := List.exists_cons_of_ne_nil hne
    exact ⟨⟨c, callee ++ '(' :: before ++ [q], rfl,
      isWhitespace_of_isNameChar (hchars c List.mem_cons_self)⟩,
      ⟨_, q, rfl, isWhitespace_of_isQuote hq⟩⟩
  obtain ⟨kept, hkept, htrim⟩ := trim_open hw hfront text
  have hnot : q ∉ kept := fun hmem => h (hkept.subset hmem)
  simp only [List.append_assoc, List.cons_append] at htrim
  rw [htrim]
  rcases List.eq_nil_or_concat' kept with rfl | ⟨kept, d, rfl⟩
  · have hlast : (callee ++ '(' :: (before ++ [q])).getLast? = some q := by
      rw [← List.cons_append, ← List.append_assoc, List.getLast?_concat]
    refine ⟨.unsupportedStage _, parseStage_open parseF32 fun hparen => ?_,
      fun _ heq => DevqlError.noConfusion heq⟩
    rw [hlast] at hparen
    rw [Option.some.inj hparen] at hq
    exact absurd hq (by decide)
  · by_cases hd : d = ')'
    · obtain ⟨input, hinput⟩ := hread kept fun hmem => hnot (List.mem_append_left _ hmem)
      have htext : callText callee (before ++ q :: kept) =
          callee ++ '(' :: (before ++ q :: (kept ++ [d])) := by
        rw [callText, hd, List.append_assoc, List.cons_append]
      exact ⟨.expectedQuotedString input, htext ▸ hinput, fun _ heq => DevqlError.noConfusion heq⟩
    · have hlast : (callee ++ '(' :: (before ++ q :: (kept ++ [d]))).getLast? = some d := by
        have htext : callee ++ '(' :: (before ++ q :: (kept ++ [d])) =
            callee ++ '(' :: (before ++ q :: kept) ++ [d] := by
          simp only [List.append_assoc, List.cons_append]
        rw [htext, List.getLast?_concat]
      refine ⟨.unsupportedStage _, parseStage_open parseF32 fun hparen => ?_,
        fun _ heq => DevqlError.noConfusion heq⟩
      rw [hlast] at hparen
      exact hd (Option.some.inj hparen)

/-! ## Arrows -/

/-- The text that separates the stages. -/
def arrow : Text := "->".toList

theorem infix_append_cons {c : Char} {front rest : Text} (hc : c ≠ '-' ∧ c ≠ '>') :
    arrow <:+: front ++ c :: rest ↔ arrow <:+: front ∨ arrow <:+: rest := by
  refine infix_append_cons_iff (List.cons_ne_nil '-' ['>']) fun hmem => ?_
  rcases List.mem_cons.mp hmem with h | h
  · exact hc.1 h
  · exact hc.2 (List.mem_singleton.mp h)

theorem not_infix_of_notMem (h : '-' ∉ text) : ¬arrow <:+: text :=
  fun hwithin => h (hwithin.subset List.mem_cons_self)

theorem ne_arrow_of_isQuote (hq : isQuote q = true) : q ≠ '-' ∧ q ≠ '>' := by
  rcases isQuote_iff.mp hq with rfl | rfl <;> decide

theorem QuotedValue.infix_render (value : QuotedValue) :
    arrow <:+: value.render ↔ arrow <:+: value.text := by
  have hquote := ne_arrow_of_isQuote value.isQuote_quote
  have hnil : ¬arrow <:+: [] := not_infix_of_notMem List.not_mem_nil
  have hopen : arrow <:+: [] ++ value.render ↔
      arrow <:+: [] ∨ arrow <:+: value.text ++ [value.quote] :=
    infix_append_cons hquote
  have hclose : arrow <:+: value.text ++ [value.quote] ↔ arrow <:+: value.text ∨ arrow <:+: [] :=
    infix_append_cons hquote
  rw [List.nil_append] at hopen
  rw [hopen, hclose, or_iff_right hnil, or_iff_left hnil]

theorem NamedArgument.infix_render (arg : NamedArgument) :
    arrow <:+: arg.render ↔ arrow <:+: arg.value.text := by
  have hkey : ¬arrow <:+: arg.key :=
    not_infix_of_notMem (notMem_of_nameChars arg.keyChars (by decide))
  rw [NamedArgument.render, infix_append_cons (by decide), or_iff_right hkey,
    arg.value.infix_render]

theorem ne_arrow_of_isWhitespace {c : Char} (hc : isWhitespace c = true) : c ≠ '-' ∧ c ≠ '>' := by
  constructor
  · rintro rfl
    exact absurd hc (by decide)
  · rintro rfl
    exact absurd hc (by decide)

theorem infix_blank_append {w : Text} (hw : Blank w) : arrow <:+: w ++ text ↔ arrow <:+: text := by
  induction w with
  | nil => rfl
  | cons c w ih =>
    have hcons : arrow <:+: [] ++ c :: (w ++ text) ↔ arrow <:+: [] ∨ arrow <:+: w ++ text :=
      infix_append_cons (ne_arrow_of_isWhitespace (hw c List.mem_cons_self))
    rw [List.nil_append, or_iff_right (not_infix_of_notMem List.not_mem_nil)] at hcons
    rw [List.cons_append, hcons]
    exact ih fun d hd => hw d (List.mem_cons_of_mem c hd)

theorem infix_append_blank {w : Text} (hw : Blank w) : arrow <:+: text ++ w ↔ arrow <:+: text := by
  cases w with
  | nil => rw [List.append_nil]
  | cons c w =>
    have hrest : ¬arrow <:+: w := not_infix_of_notMem fun hmem =>
      Blank.notMem hw (by decide) (List.mem_cons_of_mem c hmem)
    rw [infix_append_cons (ne_arrow_of_isWhitespace (hw c List.mem_cons_self)),
      or_iff_left hrest]

theorem infix_leading (args : List NamedArgument) (rest : Text) :
    arrow <:+: leading layout args ++ rest ↔
      (∃ arg ∈ args, arrow <:+: arg.value.text) ∨ arrow <:+: rest := by
  induction args with
  | nil => exact (or_iff_right (by simp)).symm
  | cons arg args ih =>
    have htext : leading layout (arg :: args) ++ rest =
        arg.render ++ ',' :: (layout.blank ++ (leading layout args ++ rest)) := by
      simp only [leading, List.flatMap_cons, List.append_assoc, List.cons_append]
    rw [htext, infix_append_cons (by decide), arg.infix_render, infix_blank_append layout.isBlank,
      ih, ← or_assoc, List.exists_mem_cons_iff]

theorem infix_renderArguments (args : List NamedArgument) :
    arrow <:+: renderArguments layout args ↔ ∃ arg ∈ args, arrow <:+: arg.value.text := by
  rcases List.eq_nil_or_concat' args with rfl | ⟨front, arg, rfl⟩
  · exact iff_of_false (not_infix_of_notMem List.not_mem_nil) (by simp)
  · rw [renderArguments_append_cons, infix_leading]
    change _ ∨ arrow <:+: arg.render ↔ _
    rw [arg.infix_render]
    simp only [List.mem_append, List.mem_singleton, or_and_right, exists_or, exists_eq_left]

theorem ScopeStage.nameChars (scope : ScopeStage) :
    scope.name.toList ≠ [] ∧ ∀ c ∈ scope.name.toList, isNameChar c = true := by
  cases scope <;> decide

theorem PipelineStage.nameChars (stage : PipelineStage) :
    stage.name ≠ [] ∧ ∀ c ∈ stage.name, isNameChar c = true := by
  cases stage with
  | scope scope value => exact scope.nameChars
  | chatHistory => exact ⟨List.cons_ne_nil _ _, by decide⟩
  | named name args => exact ⟨name.ne_nil, name.nameChars⟩

/-- There is an arrow in the text of a stage when there is one in a value. -/
theorem PipelineStage.infix_render (stage : PipelineStage) :
    arrow <:+: stage.render layout ↔ ∃ value ∈ stage.values, arrow <:+: value.text := by
  have hname : ¬arrow <:+: stage.name :=
    not_infix_of_notMem (notMem_of_nameChars stage.nameChars.2 (by decide))
  rw [PipelineStage.render, infix_append_cons (by decide), or_iff_right hname,
    infix_append_cons (by decide), or_iff_left (not_infix_of_notMem List.not_mem_nil)]
  cases stage with
  | scope scope value =>
    rw [PipelineStage.inner, value.infix_render]
    simp [PipelineStage.values]
  | chatHistory =>
    exact iff_of_false (not_infix_of_notMem List.not_mem_nil) (by simp [PipelineStage.values])
  | named name args =>
    rw [PipelineStage.inner, infix_renderArguments]
    simp [PipelineStage.values]

/-- What stands before the first arrow of a text. -/
theorem exists_first_arrow (h : arrow <:+: text) :
    ∃ before after, text = before ++ '-' :: '>' :: after ∧ ¬arrow <:+: before := by
  have hne : arrow ≠ [] := List.cons_ne_nil '-' ['>']
  obtain ⟨before, after, hsplit⟩ := exists_splitFirst hne h
  refine ⟨before, after, ?_, not_infix_of_splitFirst hne hsplit⟩
  rw [eq_append_of_splitFirst hne hsplit, List.append_assoc]
  rfl

/-- The first of the arguments with an arrow in its value. -/
theorem exists_first_argument {args : List NamedArgument}
    (h : ∃ arg ∈ args, arrow <:+: arg.value.text) :
    ∃ front arg back, args = front ++ arg :: back ∧ arrow <:+: arg.value.text ∧
      ∀ other ∈ front, ¬arrow <:+: other.value.text := by
  cases hfind : args.find? fun arg => decide (arrow <:+: arg.value.text) with
  | none =>
    obtain ⟨arg, harg, hwithin⟩ := h
    exact absurd (decide_eq_true hwithin) (List.find?_eq_none.mp hfind arg harg)
  | some arg =>
    obtain ⟨hwithin, front, back, hargs, hfront⟩ := List.find?_eq_some_iff_append.mp hfind
    refine ⟨front, arg, back, hargs, of_decide_eq_true hwithin, fun other hother => ?_⟩
    simpa using hfront other hother

/-- A stage with an arrow in a value is cut there, and what stands before is refused. -/
theorem exists_unclosed {stage : PipelineStage}
    (h : ∃ value ∈ stage.values, arrow <:+: value.text) :
    ∃ opened after, stage.render layout = opened ++ '-' :: '>' :: after ∧ ¬arrow <:+: opened ∧
      '(' ∈ opened ∧ ∀ w, Blank w → ∀ parsed,
        ∃ error, parseStage parseF32 parsed (trim (w ++ opened)) = .error error ∧
          ∀ message, error ≠ .rejected message := by
  obtain ⟨hne, hchars⟩ := stage.nameChars
  have hname : ¬arrow <:+: stage.name :=
    not_infix_of_notMem (notMem_of_nameChars hchars (by decide))
  cases stage with
  | chatHistory =>
    obtain ⟨value, hvalue, -⟩ := h
    exact absurd hvalue List.not_mem_nil
  | scope scope value =>
    obtain ⟨other, hother, hwithin⟩ := h
    obtain rfl := List.mem_singleton.mp hother
    obtain ⟨text, after, htext, hfree⟩ := exists_first_arrow hwithin
    have hnot : other.quote ∉ text := fun hmem =>
      other.quote_notMem (htext ▸ List.mem_append_left _ hmem)
    refine ⟨scope.name.toList ++ '(' :: ([] ++ other.quote :: text), after ++ [other.quote, ')'],
      ?_, ?_, List.mem_append_right _ List.mem_cons_self, fun w hw parsed => ?_⟩
    · change scope.name.toList ++ '(' :: (other.render ++ [')']) = _
      rw [QuotedValue.render, htext]
      simp only [List.append_assoc, List.cons_append, List.nil_append]
    · rw [infix_append_cons (by decide), infix_append_cons (ne_arrow_of_isQuote
        other.isQuote_quote)]
      rintro (h | h | h)
      · exact hname h
      · exact not_infix_of_notMem List.not_mem_nil h
      · exact hfree h
    · refine parseStage_unclosed parseF32 hw hne hchars other.isQuote_quote hnot
        fun kept hkept => ?_
      refine ⟨other.quote :: kept, (parseStage_scope parseF32 scope).trans ?_⟩
      rw [List.nil_append, parseSingleQuotedOrDouble_unclosed other.isQuote_quote hkept]
      rfl
  | named name args =>
    obtain ⟨value, hvalue, hwithin⟩ := h
    obtain ⟨found, hfound, rfl⟩ := List.mem_map.mp hvalue
    obtain ⟨front, arg, back, rfl, hwithin, hfront⟩ := exists_first_argument ⟨found, hfound, hwithin⟩
    obtain ⟨text, after, htext, hfree⟩ := exists_first_arrow hwithin
    have hnot : arg.value.quote ∉ text := fun hmem =>
      arg.value.quote_notMem (htext ▸ List.mem_append_left _ hmem)
    have hkey : ¬arrow <:+: arg.key :=
      not_infix_of_notMem (notMem_of_nameChars arg.keyChars (by decide))
    obtain ⟨others, hothers⟩ : ∃ others, renderArguments layout (arg :: back) =
        arg.render ++ others := by
      cases back with
      | nil => exact ⟨[], (List.append_nil _).symm⟩
      | cons next back => exact ⟨_, rfl⟩
    refine ⟨name.text ++ '(' :: (leading layout front ++ (arg.key ++ [':']) ++
      arg.value.quote :: text), after ++ arg.value.quote :: (others ++ [')']),
      ?_, ?_, List.mem_append_right _ List.mem_cons_self, fun w hw parsed => ?_⟩
    · change name.text ++ '(' :: (renderArguments layout (front ++ arg :: back) ++ [')']) = _
      rw [renderArguments_append_cons, hothers, NamedArgument.render, QuotedValue.render, htext]
      simp only [List.append_assoc, List.cons_append, List.nil_append]
    · rw [infix_append_cons (by decide), infix_append_cons (ne_arrow_of_isQuote
        arg.value.isQuote_quote), infix_leading, infix_append_cons (by decide)]
      rintro (h | (⟨other, hother, h⟩ | h | h) | h)
      · exact hname h
      · exact hfront other hother h
      · exact hkey h
      · exact not_infix_of_notMem List.not_mem_nil h
      · exact hfree h
    · refine parseStage_unclosed parseF32 hw hne hchars arg.value.isQuote_quote hnot
        fun kept hkept => ?_
      obtain ⟨input, hinput⟩ := parseNamedArgs_unclosed layout front arg.keyChars
        arg.value.isQuote_quote hkept
      refine ⟨input, (parseStage_named parseF32 name).trans ?_⟩
      have hinner : leading layout front ++ (arg.key ++ [':']) ++ arg.value.quote :: kept =
          leading layout front ++ (arg.key ++ ':' :: arg.value.quote :: kept) := by
        simp only [List.append_assoc, List.cons_append, List.nil_append]
      rw [withArgs, hinner, hinput]
      rfl

/-! ## The stages of a text -/

theorem stageTexts_eq (text : Text) :
    stageTexts text = ((splitAll arrow text).map trim).filter (· ≠ []) := rfl

theorem stageTexts_cons {piece rest : Text} (hfree : ¬arrow <:+: piece) (hne : trim piece ≠ []) :
    stageTexts (piece ++ '-' :: '>' :: rest) = trim piece :: stageTexts rest := by
  have hdash : ¬arrow <:+: piece ++ arrow.dropLast := by
    intro h
    rcases List.infix_concat_iff.mp h with ⟨front, hfront⟩ | h
    · have hlast : (front ++ ['-', '>']).getLast? = (piece ++ ['-']).getLast? :=
        congrArg List.getLast? hfront
      rw [List.append_cons, List.getLast?_concat, List.getLast?_concat] at hlast
      exact absurd hlast (by decide)
    · exact hfree h
  have hsplit : splitFirst arrow (piece ++ arrow ++ rest) = some (piece, rest) :=
    splitFirst_append (List.cons_ne_nil '-' ['>']) hdash
  have htext : piece ++ '-' :: '>' :: rest = piece ++ arrow ++ rest := by
    rw [List.append_assoc]
    rfl
  rw [stageTexts_eq, stageTexts_eq, htext, splitAll_of_splitFirst hsplit, List.map_cons,
    List.filter_cons_of_pos (by simpa using hne)]

theorem stageTexts_last {piece : Text} (hfree : ¬arrow <:+: piece) (hne : trim piece ≠ []) :
    stageTexts piece = [trim piece] := by
  have hsplit : splitFirst arrow piece = none := by
    refine Option.eq_none_iff_forall_not_mem.mpr fun parts hparts => hfree ?_
    exact ⟨parts.1, parts.2, (eq_append_of_splitFirst (List.cons_ne_nil '-' ['>']) hparts).symm⟩
  rw [stageTexts_eq, splitAll_of_splitFirst_eq_none hsplit, List.map_singleton,
    List.filter_cons_of_pos (by simpa using hne), List.filter_nil]

theorem stageTexts_blank {w : Text} (hw : Blank w) : stageTexts w = [] := by
  have hfree : ¬arrow <:+: w := not_infix_of_notMem (Blank.notMem hw (by decide))
  have hsplit : splitFirst arrow w = none := by
    refine Option.eq_none_iff_forall_not_mem.mpr fun parts hparts => hfree ?_
    exact ⟨parts.1, parts.2, (eq_append_of_splitFirst (List.cons_ne_nil '-' ['>']) hparts).symm⟩
  rw [stageTexts_eq, splitAll_of_splitFirst_eq_none hsplit, List.map_singleton, trim_blank hw]
  rfl

theorem PipelineStage.tight (stage : PipelineStage) : Tight (stage.render layout) := by
  obtain ⟨hne, hchars⟩ := stage.nameChars
  obtain ⟨c, name, hname⟩ := List.exists_cons_of_ne_nil hne
  refine ⟨⟨c, name ++ '(' :: (stage.inner layout ++ [')']), ?_, ?_⟩,
    ⟨stage.name ++ '(' :: stage.inner layout, ')', ?_, by decide⟩⟩
  · rw [PipelineStage.render, hname, List.cons_append]
  · exact isWhitespace_of_isNameChar (hchars c (hname ▸ List.mem_cons_self))
  · rw [PipelineStage.render, List.append_assoc, List.cons_append]

/-- The stages after the first one. -/
theorem renderPipeline_cons (stage : PipelineStage) (stages : List PipelineStage) :
    ∃ rest, renderPipeline layout (stage :: stages) = stage.render layout ++ rest ∧
      (stages = [] ∧ rest = [] ∨ rest = layout.blank ++
        ('-' :: '>' :: (layout.blank ++ renderPipeline layout stages))) := by
  cases stages with
  | nil => exact ⟨[], (List.append_nil _).symm, Or.inl ⟨rfl, rfl⟩⟩
  | cons next stages => exact ⟨_, rfl, Or.inr rfl⟩

/-- The first stage is a text of its own when there is no arrow in it. -/
theorem stageTexts_renderPipeline {w : Text} (hw : Blank w) {stage : PipelineStage}
    (hfree : ¬∃ value ∈ stage.values, arrow <:+: value.text) (stages : List PipelineStage) :
    stageTexts (w ++ renderPipeline layout (stage :: stages)) =
      stage.render layout :: stageTexts (layout.blank ++ renderPipeline layout stages) := by
  have hrender : ¬arrow <:+: stage.render layout := fun h =>
    hfree ((stage.infix_render layout).mp h)
  have htight := stage.tight layout
  obtain ⟨rest, htext, hrest⟩ := renderPipeline_cons layout stage stages
  rcases hrest with ⟨rfl, rfl⟩ | rfl
  · have htrim := trim_padded hw LanguageAdapter.blank_nil htight
    rw [List.append_nil] at htrim
    rw [htext, List.append_nil, stageTexts_last (by rwa [infix_blank_append hw])
      (by rw [htrim]; exact htight.ne_nil), htrim, renderPipeline, List.append_nil,
      stageTexts_blank layout.isBlank]
  · have htrim := trim_padded hw layout.isBlank htight
    have hpiece : ¬arrow <:+: w ++ stage.render layout ++ layout.blank := by
      rwa [infix_append_blank layout.isBlank, infix_blank_append hw]
    have hall : w ++ renderPipeline layout (stage :: stages) =
        w ++ stage.render layout ++ layout.blank ++
          '-' :: '>' :: (layout.blank ++ renderPipeline layout stages) := by
      rw [htext]
      simp only [List.append_assoc]
    rw [hall, stageTexts_cons hpiece (by rw [htrim]; exact htight.ne_nil), htrim]

/-- The first text of a stage with an arrow in a value is refused. -/
theorem stageTexts_of_arrow {w : Text} (hw : Blank w) {stage : PipelineStage}
    (h : ∃ value ∈ stage.values, arrow <:+: value.text) (stages : List PipelineStage) :
    ∃ text others, stageTexts (w ++ renderPipeline layout (stage :: stages)) = text :: others ∧
      ∀ parsed, ∃ error, parseStage parseF32 parsed text = .error error ∧
        ∀ message, error ≠ .rejected message := by
  obtain ⟨opened, after, hrender, hfree, hparen, hrefused⟩ := exists_unclosed parseF32 layout h
  obtain ⟨rest, htext, -⟩ := renderPipeline_cons layout stage stages
  have hne : trim (w ++ opened) ≠ [] :=
    trim_ne_nil (List.mem_append_right _ hparen) (by decide)
  have hall : w ++ renderPipeline layout (stage :: stages) =
      w ++ opened ++ '-' :: '>' :: (after ++ rest) := by
    rw [htext, hrender]
    simp only [List.append_assoc, List.cons_append]
  refine ⟨trim (w ++ opened), stageTexts (after ++ rest), ?_, hrefused w hw⟩
  rw [hall, stageTexts_cons (by rwa [infix_blank_append hw]) hne]

theorem stageTexts_ne_nil {w : Text} (hw : Blank w) (stage : PipelineStage)
    (stages : List PipelineStage) :
    stageTexts (w ++ renderPipeline layout (stage :: stages)) ≠ [] := by
  by_cases harrow : ∃ value ∈ stage.values, arrow <:+: value.text
  · obtain ⟨text, others, htexts, -⟩ :=
      stageTexts_of_arrow (fun _ => none) layout hw harrow stages
    rw [htexts]
    exact List.cons_ne_nil text others
  · rw [stageTexts_renderPipeline layout hw harrow]
    exact List.cons_ne_nil _ _

/-! ## Reading a pipeline back -/

/-- The stage is applied, as every stage before it accepts its arguments. -/
def Reached (parsed : ParsedDevqlQuery) (stages : List PipelineStage) (stage : PipelineStage) :
    Prop :=
  ∃ front back result, stages = front ++ stage :: back ∧
    applyStages parseF32 parsed front = .ok result

theorem reached_cons {stage other : PipelineStage} {stages : List PipelineStage} :
    Reached parseF32 parsed (stage :: stages) other ↔
      other = stage ∨ ∃ result, applyStage parseF32 parsed stage = .ok result ∧
        Reached parseF32 result stages other := by
  constructor
  · rintro ⟨front, back, result, hstages, happly⟩
    cases front with
    | nil => exact Or.inl (List.cons_eq_cons.mp hstages).1.symm
    | cons first front =>
      obtain ⟨rfl, rfl⟩ := List.cons_eq_cons.mp hstages
      rw [applyStages, List.foldlM_cons] at happly
      obtain ⟨next, hnext, hrest⟩ := Results.bind_eq_ok.mp happly
      exact Or.inr ⟨next, hnext, front, back, result, rfl, hrest⟩
  · rintro (rfl | ⟨next, hnext, front, back, result, rfl, hrest⟩)
    · exact ⟨[], stages, parsed, rfl, rfl⟩
    · refine ⟨stage :: front, back, result, rfl, ?_⟩
      rw [applyStages, List.foldlM_cons, hnext]
      exact hrest

theorem foldlM_stageTexts_iff {w : Text} (hw : Blank w) (stages : List PipelineStage) :
    (stageTexts (w ++ renderPipeline layout stages)).foldlM (parseStage parseF32) parsed =
        (applyStages parseF32 parsed stages).mapError .rejected ↔
      ∀ stage, Reached parseF32 parsed stages stage → ∀ value ∈ stage.values,
        ¬arrow <:+: value.text := by
  induction stages generalizing parsed w with
  | nil =>
    rw [renderPipeline, List.append_nil, stageTexts_blank hw]
    refine iff_of_true rfl ?_
    rintro stage ⟨front, back, result, hnil, -⟩
    exact absurd hnil.symm (List.append_ne_nil_of_right_ne_nil _ (List.cons_ne_nil _ _))
  | cons stage stages ih =>
    by_cases harrow : ∃ value ∈ stage.values, arrow <:+: value.text
    · refine iff_of_false (fun heq => ?_) fun hall => ?_
      · obtain ⟨text, others, htexts, hrefused⟩ :=
          stageTexts_of_arrow parseF32 layout hw harrow stages
        obtain ⟨error, herror, hrejected⟩ := hrefused parsed
        rw [htexts, List.foldlM_cons, herror] at heq
        cases hrun : applyStages parseF32 parsed (stage :: stages) with
        | error message =>
          rw [hrun] at heq
          exact hrejected message (Except.error.inj heq)
        | ok result =>
          rw [hrun] at heq
          exact nomatch heq
      · obtain ⟨value, hvalue, hwithin⟩ := harrow
        exact hall stage (reached_cons parseF32 |>.mpr (Or.inl rfl)) value hvalue hwithin
    · have hstage : ∀ value ∈ stage.values, ¬arrow <:+: value.text :=
        fun value hvalue hwithin => harrow ⟨value, hvalue, hwithin⟩
      rw [stageTexts_renderPipeline layout hw harrow, List.foldlM_cons, parseStage_render,
        applyStages, List.foldlM_cons]
      cases happly : applyStage parseF32 parsed stage with
      | error message =>
        refine iff_of_true rfl fun other hother => ?_
        rcases (reached_cons parseF32).mp hother with rfl | ⟨next, hnext, -⟩
        · exact hstage
        · exact nomatch happly.symm.trans hnext
      | ok next =>
        refine (ih layout.isBlank).trans ⟨fun hrest other hother => ?_, fun hall other hother => ?_⟩
        · rcases (reached_cons parseF32).mp hother with rfl | ⟨next', hnext', hreached⟩
          · exact hstage
          · obtain rfl := Except.ok.inj (happly.symm.trans hnext')
            exact hrest other hreached
        · exact hall other ((reached_cons parseF32).mpr (Or.inr ⟨next, happly, hother⟩))

end DevqlGraphql
end Bitloops
