import Mathlib.Data.List.Perm.Basic
import Bitloops.LanguageAdapter.ResolutionTests

/-!
# The order of the targets

Targets are read from the database in no particular order.  The order is not seen by the tests of a
resolution, but in two other places: of the targets that have the one full name that a test singles
out, the last is taken, and of the namespaces that are declared for a path, the first.

`AnswersAgree` says that neither makes a difference, and `resolveLocalSymbolRef_order_iff` that
this is exactly when the answer is the same for every order.
-/

namespace Bitloops
namespace LanguageAdapter

open Separators FirstUnique

/-- The same facts in another order. -/
structure LocalSourceFacts.Perm (sourceFacts sourceFacts' : LocalSourceFacts) : Prop where
  importRefs : sourceFacts.importRefs.Perm sourceFacts'.importRefs
  packageRefs : sourceFacts.packageRefs.Perm sourceFacts'.packageRefs
  namespaceRefs : sourceFacts.namespaceRefs.Perm sourceFacts'.namespaceRefs

/-- Every path for which namespaces are declared has one of them. -/
structure ChoosesNamespaces (targets : List LocalTargetInfo) (namespaceOf : Text → Option Text) :
    Prop where
  declared : ∀ path ns, namespaceOf path = some ns →
    (path, ns) ∈ targets.filterMap declaredNamespace
  chosen : ∀ path ns, (path, ns) ∈ targets.filterMap declaredNamespace → namespaceOf path ≠ none

/-- The test is the first that singles out a full name, and the target satisfies it. -/
abbrev SelectedTarget (targets : List LocalTargetInfo) :
    List TargetTest → TargetTest → LocalTargetInfo → Prop :=
  Selected LocalTargetInfo.symbolFqn (fun test => test) targets

/-- Whatever namespaces are chosen for the paths, a full name is singled out under all choices or
under none, and all targets that the deciding test selects lead to one answer. -/
def AnswersAgree (language sourcePath edgeKind symbolRef : Text) (sourceFacts : LocalSourceFacts)
    (targets : List LocalTargetInfo) : Prop :=
  ∀ namespaceOf namespaceOf', ChoosesNamespaces targets namespaceOf →
    ChoosesNamespaces targets namespaceOf' → ∀ test target,
    SelectedTarget targets
      (resolutionTests language sourcePath edgeKind symbolRef sourceFacts namespaceOf) test target →
    (∃ test' target', SelectedTarget targets
      (resolutionTests language sourcePath edgeKind symbolRef sourceFacts namespaceOf') test'
        target') ∧
    ∀ test' target', SelectedTarget targets
      (resolutionTests language sourcePath edgeKind symbolRef sourceFacts namespaceOf') test'
        target' → answerOf language edgeKind target = answerOf language edgeKind target'

variable {targets targets' : List LocalTargetInfo} {target : LocalTargetInfo}
  {sourceFacts sourceFacts' : LocalSourceFacts} {namespaceOf : Text → Option Text}
  {language sourcePath edgeKind symbolRef : Text}

/-! ## The order of the facts -/

theorem uniqueSourceValue_perm {values values' : List Text} (h : values.Perm values') :
    uniqueSourceValue values = uniqueSourceValue values' := by
  have hsome : ∀ {values values' : List Text} {value : Text}, values.Perm values' →
      uniqueSourceValue values = some value → uniqueSourceValue values' = some value := by
    intro values values' value hperm hvalue
    have hdedup : values.dedup = [value] := by
      rw [uniqueSourceValue] at hvalue
      split at hvalue
      · rename_i only honly
        rw [honly, Option.some.inj hvalue]
      · exact nomatch hvalue
    have hdedup' : values'.dedup = [value] := List.perm_singleton.mp (hdedup ▸ hperm.symm.dedup)
    rw [uniqueSourceValue, hdedup']
  exact Option.ext fun value => ⟨hsome h, hsome h.symm⟩

theorem javaOwner_perm (h : sourceFacts.Perm sourceFacts') (ownerRef : Text) (tail : List Text) :
    javaOwner ownerRef tail sourceFacts = javaOwner ownerRef tail sourceFacts' := by
  rw [javaOwner, javaOwner, uniqueSourceValue_perm h.packageRefs]

theorem mem_csharpSourceNamespaces_perm (h : sourceFacts.Perm sourceFacts') (ns : Text) :
    ns ∈ csharpSourceNamespaces sourceFacts namespaceOf ↔
      ns ∈ csharpSourceNamespaces sourceFacts' namespaceOf := by
  rw [csharpSourceNamespaces, csharpSourceNamespaces]
  exact (h.namespaceRefs.append (h.importRefs.filterMap _)).mem_iff

theorem resolutionTests_perm (h : sourceFacts.Perm sourceFacts') :
    resolutionTests language sourcePath edgeKind symbolRef sourceFacts namespaceOf =
      resolutionTests language sourcePath edgeKind symbolRef sourceFacts' namespaceOf := by
  have himport : javaImportOwners symbolRef sourceFacts =
      javaImportOwners symbolRef sourceFacts' := by
    simp only [javaImportOwners, javaOwner_perm h]
  have hsymbol : javaSymbolOwners edgeKind symbolRef sourceFacts =
      javaSymbolOwners edgeKind symbolRef sourceFacts' := by
    simp only [javaSymbolOwners, javaOwner_perm h, uniqueSourceValue_perm h.packageRefs]
  have hscoped : scopedTypeTest symbolRef sourceFacts namespaceOf =
      scopedTypeTest symbolRef sourceFacts' namespaceOf := by
    simp only [scopedTypeTest, mem_csharpSourceNamespaces_perm h]
  simp only [resolutionTests, importTests, symbolTests, csharpSymbolTests, himport, hsymbol,
    hscoped]

/-! ## Namespaces -/

/-- Of the namespaces that are declared for a path, the first is its namespace. -/
theorem lookupNamespace_eq (path : Text) :
    lookupNamespace (csharpNamespaceByPath targets) path =
      (findRow Prod.fst path (targets.filterMap declaredNamespace)).map Prod.snd := by
  rw [lookupNamespace, csharpNamespaceByPath, UniqueTable.findRow_foldl_insertOrIgnore]
  rfl

theorem ChoosesNamespaces.perm (hperm : targets.Perm targets')
    (h : ChoosesNamespaces targets namespaceOf) : ChoosesNamespaces targets' namespaceOf where
  declared path ns hns := (hperm.filterMap _).mem_iff.mp (h.declared path ns hns)
  chosen path ns hmem := h.chosen path ns ((hperm.filterMap _).mem_iff.mpr hmem)

theorem choosesNamespaces_lookup :
    ChoosesNamespaces targets (lookupNamespace (csharpNamespaceByPath targets)) where
  declared path ns h := by
    rw [lookupNamespace_eq, findRow] at h
    obtain ⟨row, hrow, rfl⟩ := Option.map_eq_some_iff.mp h
    have hpath : row.1 = path := by simpa using List.find?_some hrow
    exact hpath ▸ List.mem_of_find?_eq_some hrow
  chosen path ns hmem h := by
    rw [lookupNamespace_eq, findRow, Option.map_eq_none_iff, List.find?_eq_none] at h
    exact h (path, ns) hmem (decide_eq_true rfl)

/-- The target declares a namespace that is the one chosen for its path. -/
def declaresChosen (namespaceOf : Text → Option Text) (target : LocalTargetInfo) : Bool :=
  (declaredNamespace target).any fun declared => namespaceOf declared.1 = some declared.2

/-- When the declarations of the chosen namespaces come first, they are what is looked up. -/
theorem lookupNamespace_of_chosen_first {rest : List LocalTargetInfo}
    (h : ChoosesNamespaces targets namespaceOf)
    (hperm : targets.Perm (targets.filter (declaresChosen namespaceOf) ++ rest)) :
    lookupNamespace (csharpNamespaceByPath
      (targets.filter (declaresChosen namespaceOf) ++ rest)) = namespaceOf := by
  funext path
  have hlookup : ChoosesNamespaces targets (lookupNamespace (csharpNamespaceByPath
      (targets.filter (declaresChosen namespaceOf) ++ rest))) :=
    choosesNamespaces_lookup.perm hperm.symm
  cases hns : namespaceOf path with
  | none =>
    refine Option.eq_none_iff_forall_ne_some.mpr fun ns hfound => ?_
    exact h.chosen path ns (hlookup.declared path ns hfound) hns
  | some ns =>
    obtain ⟨declaring, hmem, hdeclares⟩ := List.mem_filterMap.mp (h.declared path ns hns)
    have hchosen : declaring ∈ targets.filter (declaresChosen namespaceOf) :=
      List.mem_filter.mpr ⟨hmem, by simp [declaresChosen, hdeclares, hns]⟩
    have hrow : (path, ns) ∈
        (targets.filter (declaresChosen namespaceOf)).filterMap declaredNamespace :=
      List.mem_filterMap.mpr ⟨declaring, hchosen, hdeclares⟩
    rw [lookupNamespace_eq, findRow, List.filterMap_append, List.find?_append]
    cases hfind : ((targets.filter (declaresChosen namespaceOf)).filterMap
        declaredNamespace).find? fun row => decide (row.1 = path) with
    | none => exact absurd (decide_eq_true rfl) (List.find?_eq_none.mp hfind _ hrow)
    | some row =>
      have hpath : row.1 = path := by simpa using List.find?_some hfind
      obtain ⟨found, hfound, hrowOf⟩ :=
        List.mem_filterMap.mp (List.mem_of_find?_eq_some hfind)
      have hrowChosen : namespaceOf row.1 = some row.2 := by
        have hholds := (List.mem_filter.mp hfound).2
        rw [declaresChosen, hrowOf] at hholds
        exact of_decide_eq_true hholds
      rw [hpath, hns] at hrowChosen
      rw [Option.some_or, Option.map_some, Option.some.inj hrowChosen]

/-- Some order of the targets leads to the chosen namespaces. -/
theorem exists_perm_lookup (h : ChoosesNamespaces targets namespaceOf) :
    ∃ targets', targets.Perm targets' ∧
      lookupNamespace (csharpNamespaceByPath targets') = namespaceOf := by
  have hperm : targets.Perm (targets.filter (declaresChosen namespaceOf) ++
      targets.filter fun target => !declaresChosen namespaceOf target) :=
    (List.filter_append_perm _ targets).symm
  exact ⟨_, hperm, lookupNamespace_of_chosen_first h hperm⟩

/-- So does one in which a target that declares nothing comes last. -/
theorem exists_perm_lookup_last (h : ChoosesNamespaces targets namespaceOf)
    (hmem : target ∈ targets) (hnone : declaredNamespace target = none) :
    ∃ front, targets.Perm (front ++ [target]) ∧
      lookupNamespace (csharpNamespaceByPath (front ++ [target])) = namespaceOf := by
  have hother : target ∈ targets.filter fun target => !declaresChosen namespaceOf target :=
    List.mem_filter.mpr ⟨hmem, by simp [declaresChosen, hnone]⟩
  have hrest := (List.perm_cons_erase hother).trans (List.perm_append_singleton _ _).symm
  have hperm := (List.filter_append_perm (declaresChosen namespaceOf) targets).symm.trans
    (hrest.append_left _)
  rw [← List.append_assoc] at hperm
  refine ⟨_, hperm, ?_⟩
  rw [List.append_assoc] at hperm ⊢
  exact lookupNamespace_of_chosen_first h hperm

/-! ## Tests that depend on the namespaces -/

/-- What is behind the first `::` of a declaration has a `::` of its own. -/
theorem declaredNamespace_of_symbolSuffixMatches {name : Text}
    (h : symbolSuffixMatches target.symbolFqn [name] = true) : declaredNamespace target = none := by
  rw [declaredNamespace]
  split_ifs
  · cases hdeclared : splitFirst "::ns::".toList target.symbolFqn with
    | none => rfl
    | some parts =>
      exfalso
      rw [symbolSuffixMatches] at h
      cases hfirst : splitFirst doubleColon target.symbolFqn with
      | none => exact nomatch hfirst ▸ h
      | some halves =>
        have hne : doubleColon ≠ [] := by decide
        have hfqn : target.symbolFqn = parts.1 ++ doubleColon ++ ("ns".toList ++
            (doubleColon ++ parts.2)) := by
          rw [eq_append_of_splitFirst (by decide) hdeclared, List.append_assoc, List.append_assoc]
          rfl
        have hhalves := eq_append_of_splitFirst hne hfirst
        have hbehind : doubleColon ++ parts.2 <:+ target.symbolFqn := by
          rw [hfqn, ← List.append_assoc]
          exact List.suffix_append _ _
        have htail : halves.2 <:+ target.symbolFqn := by
          rw [hhalves]
          exact List.suffix_append _ _
        have hlength : (doubleColon ++ parts.2).length ≤ halves.2.length := by
          have hle := length_le_of_splitFirst hfirst hfqn
          have hboth := congrArg List.length (hhalves.symm.trans hfqn)
          simp only [List.length_append] at hboth ⊢
          omega
        have hsuffix := List.suffix_of_suffix_length_le hbehind htail hlength
        have htwo := two_le_length_splitAll
          ((List.prefix_append doubleColon parts.2).isInfix.trans hsuffix.isInfix) hne
        rw [hfirst] at h
        rw [of_decide_eq_true h] at htwo
        exact absurd htwo (Nat.not_succ_le_self 1)
  · rfl

theorem declaredNamespace_of_typeSelects {typeName : Text} {inScope : Text → Bool}
    (h : typeSelects typeName inScope target = true) : declaredNamespace target = none := by
  rw [typeSelects, Bool.and_eq_true, Bool.and_eq_true] at h
  exact declaredNamespace_of_symbolSuffixMatches h.2.1

/-- The tests that do not depend on the namespaces come before those that do, and the latter do
not select declarations of namespaces. -/
def FixedFirst (tests : (Text → Option Text) → List TargetTest) : Prop :=
  ∃ (fixed : List TargetTest) (varying : (Text → Option Text) → List TargetTest),
    (∀ namespaceOf, tests namespaceOf = fixed ++ varying namespaceOf) ∧
    ∀ namespaceOf, ∀ test ∈ varying namespaceOf, ∀ target, test target = true →
      declaredNamespace target = none

theorem fixedFirst_const (tests : List TargetTest) : FixedFirst fun _ => tests :=
  ⟨tests, fun _ => [], fun _ => (List.append_nil tests).symm,
    fun _ _ hmem => absurd hmem List.not_mem_nil⟩

/-- Fixed tests, and then a test for types. -/
theorem fixedFirst_typeSelects (fixed : List TargetTest) (typeName : Text)
    (inScope : (Text → Option Text) → Text → Bool) :
    FixedFirst fun namespaceOf => fixed ++ [typeSelects typeName (inScope namespaceOf)] := by
  refine ⟨fixed, fun namespaceOf => [typeSelects typeName (inScope namespaceOf)], fun _ => rfl, ?_⟩
  intro namespaceOf test hmem target hselects
  obtain rfl := List.mem_singleton.mp hmem
  exact declaredNamespace_of_typeSelects hselects

theorem fixedFirst_csharpImportTests (symbolRef : Text) :
    FixedFirst (csharpImportTests symbolRef) := by
  unfold csharpImportTests
  dsimp only
  split_ifs
  · exact fixedFirst_const []
  · cases splitLast '.' (trim symbolRef) with
    | none => exact fixedFirst_const [namespaceSelects (trim symbolRef)]
    | some parts => exact fixedFirst_typeSelects [namespaceSelects (trim symbolRef)] _ _

theorem fixedFirst_csharpSymbolTests (edgeKind symbolRef : Text)
    (sourceFacts : LocalSourceFacts) :
    FixedFirst (csharpSymbolTests edgeKind symbolRef sourceFacts) := by
  unfold csharpSymbolTests
  split_ifs
  · exact fixedFirst_const []
  · exact fixedFirst_typeSelects [] _ _

theorem fixedFirst_resolutionTests (language sourcePath edgeKind symbolRef : Text)
    (sourceFacts : LocalSourceFacts) :
    FixedFirst (resolutionTests language sourcePath edgeKind symbolRef sourceFacts) := by
  unfold resolutionTests importTests symbolTests
  split_ifs
  all_goals first
    | exact fixedFirst_const _
    | exact fixedFirst_csharpImportTests symbolRef
    | exact fixedFirst_csharpSymbolTests edgeKind symbolRef sourceFacts

/-- A declaration of a namespace is selected whatever namespaces the paths have. -/
theorem selectedTarget_of_declares {test : TargetTest} {namespaceOf' : Text → Option Text}
    (h : SelectedTarget targets
      (resolutionTests language sourcePath edgeKind symbolRef sourceFacts namespaceOf) test target)
    (hdeclares : declaredNamespace target ≠ none) :
    SelectedTarget targets
      (resolutionTests language sourcePath edgeKind symbolRef sourceFacts namespaceOf') test
      target := by
  obtain ⟨fixed, varying, htests, hvarying⟩ :=
    fixedFirst_resolutionTests language sourcePath edgeKind symbolRef sourceFacts
  rw [htests] at h ⊢
  rcases h.of_append with hfixed | hmem
  · exact hfixed.append_right _
  · exact absurd (hvarying namespaceOf test hmem target h.sel_eq_true) hdeclares

/-! ## When the answer does not depend on the order -/

/-- What is selected under some choice of namespaces is the answer for some order. -/
theorem exists_perm_resolve {test : TargetTest} (hchoice : ChoosesNamespaces targets namespaceOf)
    (h : SelectedTarget targets
      (resolutionTests language sourcePath edgeKind symbolRef sourceFacts namespaceOf) test
      target) :
    ∃ targets', targets.Perm targets' ∧
      resolveLocalSymbolRef language sourcePath edgeKind symbolRef sourceFacts targets' =
        some (answerOf language edgeKind target) := by
  obtain ⟨front, hperm, hselected⟩ : ∃ front, targets.Perm (front ++ [target]) ∧
      SelectedTarget (front ++ [target]) (resolutionTests language sourcePath edgeKind symbolRef
        sourceFacts (lookupNamespace (csharpNamespaceByPath (front ++ [target])))) test target := by
    by_cases hnone : declaredNamespace target = none
    · obtain ⟨front, hperm, hlookup⟩ := exists_perm_lookup_last hchoice h.mem hnone
      refine ⟨front, hperm, ?_⟩
      rw [hlookup]
      exact h.perm hperm
    · have hperm := (List.perm_cons_erase h.mem).trans (List.perm_append_singleton _ _).symm
      exact ⟨_, hperm, (selectedTarget_of_declares h hnone).perm hperm⟩
  refine ⟨front ++ [target], hperm, ?_⟩
  rw [resolveLocalSymbolRef_eq, firstMatch, firstUnique_of_last hselected, Option.map_some]

/-- An answer comes from a target that is selected under the namespaces that are looked up. -/
theorem exists_selectedTarget {answer : ResolvedLocalTarget}
    (h : resolveLocalSymbolRef language sourcePath edgeKind symbolRef sourceFacts targets =
      some answer) :
    ∃ test target, SelectedTarget targets (resolutionTests language sourcePath edgeKind symbolRef
      sourceFacts (lookupNamespace (csharpNamespaceByPath targets))) test target ∧
      answerOf language edgeKind target = answer := by
  rw [resolveLocalSymbolRef_eq] at h
  obtain ⟨target, hfirst, hanswer⟩ := Option.map_eq_some_iff.mp h
  obtain ⟨test, hselected⟩ := selected_of_firstUnique hfirst
  exact ⟨test, target, hselected, hanswer⟩

theorem resolve_of_answersAgree {answer : ResolvedLocalTarget}
    (hagree : AnswersAgree language sourcePath edgeKind symbolRef sourceFacts targets)
    {targets₁ targets₂ : List LocalTargetInfo} (hperm₁ : targets.Perm targets₁)
    (hperm₂ : targets.Perm targets₂)
    (h : resolveLocalSymbolRef language sourcePath edgeKind symbolRef sourceFacts targets₁ =
      some answer) :
    resolveLocalSymbolRef language sourcePath edgeKind symbolRef sourceFacts targets₂ =
      some answer := by
  obtain ⟨test, target, hselected, rfl⟩ := exists_selectedTarget h
  obtain ⟨⟨test', target', hselected'⟩, hanswers⟩ := hagree _ _
    (choosesNamespaces_lookup.perm hperm₁.symm) (choosesNamespaces_lookup.perm hperm₂.symm)
    test target (hselected.perm hperm₁.symm)
  obtain ⟨found, hfound, hfoundSelected⟩ := (hselected'.perm hperm₂).firstUnique_eq
  rw [resolveLocalSymbolRef_eq, firstMatch, hfound, Option.map_some,
    hanswers test' found (hfoundSelected.perm hperm₂.symm)]

theorem resolve_facts_perm (h : sourceFacts.Perm sourceFacts') :
    resolveLocalSymbolRef language sourcePath edgeKind symbolRef sourceFacts' targets =
      resolveLocalSymbolRef language sourcePath edgeKind symbolRef sourceFacts targets := by
  rw [resolveLocalSymbolRef_eq, resolveLocalSymbolRef_eq, resolutionTests_perm h]

/-- **The answer is the same for every order** of the targets and of the facts exactly when
neither the namespace that is taken for a path nor the target that is taken for a full name makes
a difference. -/
theorem resolveLocalSymbolRef_order_iff (language sourcePath edgeKind symbolRef : Text)
    (sourceFacts : LocalSourceFacts) (targets : List LocalTargetInfo) :
    (∀ sourceFacts' targets', sourceFacts.Perm sourceFacts' → targets.Perm targets' →
      resolveLocalSymbolRef language sourcePath edgeKind symbolRef sourceFacts' targets' =
        resolveLocalSymbolRef language sourcePath edgeKind symbolRef sourceFacts targets) ↔
      AnswersAgree language sourcePath edgeKind symbolRef sourceFacts targets := by
  constructor
  · intro h namespaceOf namespaceOf' hchoice hchoice' test target hselected
    have hfacts : sourceFacts.Perm sourceFacts := ⟨.refl _, .refl _, .refl _⟩
    obtain ⟨targets₁, hperm₁, hfirst⟩ := exists_perm_resolve hchoice hselected
    rw [h sourceFacts targets₁ hfacts hperm₁] at hfirst
    constructor
    · obtain ⟨targets₂, hperm₂, rfl⟩ := exists_perm_lookup hchoice'
      rw [← h sourceFacts targets₂ hfacts hperm₂] at hfirst
      obtain ⟨test', target', hselected', -⟩ := exists_selectedTarget hfirst
      exact ⟨test', target', hselected'.perm hperm₂.symm⟩
    · intro test' target' hselected'
      obtain ⟨targets₂, hperm₂, hsecond⟩ := exists_perm_resolve hchoice' hselected'
      rw [h sourceFacts targets₂ hfacts hperm₂] at hsecond
      exact Option.some.inj (hfirst.symm.trans hsecond)
  · intro hagree sourceFacts' targets' hfacts hperm
    rw [resolve_facts_perm hfacts]
    exact Option.ext fun answer => ⟨resolve_of_answersAgree hagree hperm (List.Perm.refl _),
      resolve_of_answersAgree hagree (List.Perm.refl _) hperm⟩

/-! ### Two methods with one full name -/

/-- The overloads of a method, which have one full name. -/
def overloads : List LocalTargetInfo :=
  [⟨"src/com/acme/Util.java::Util::run".toList, "run(int)".toList, "first".toList,
      "method_declaration".toList⟩,
    ⟨"src/com/acme/Util.java::Util::run".toList, "run(long)".toList, "second".toList,
      "method_declaration".toList⟩]

/-- A call of the method leads to the overload that comes last. -/
theorem overloads_order : ¬∀ sourceFacts' targets',
    LocalSourceFacts.Perm ⟨[], [], []⟩ sourceFacts' → overloads.Perm targets' →
    resolveLocalSymbolRef "java".toList "src/com/acme/Main.java".toList "calls".toList
      "com.acme.Util::run".toList sourceFacts' targets' =
    resolveLocalSymbolRef "java".toList "src/com/acme/Main.java".toList "calls".toList
      "com.acme.Util::run".toList ⟨[], [], []⟩ overloads := by
  intro h
  have hswapped := h ⟨[], [], []⟩ overloads.reverse ⟨.refl _, .refl _, .refl _⟩
    (List.reverse_perm overloads).symm
  exact absurd hswapped (by decide)

/-- Two namespaces in one file: the first decides whether a type of the file is found. -/
example :
    let one : LocalTargetInfo := ⟨"A.cs::ns::One".toList, [], [], "namespace_declaration".toList⟩
    let two : LocalTargetInfo := ⟨"A.cs::ns::Two".toList, [], [], "namespace_declaration".toList⟩
    let found : LocalTargetInfo := ⟨"A.cs::Found".toList, [], [], "class_declaration".toList⟩
    let resolve := resolveLocalSymbolRef "csharp".toList "B.cs".toList "extends".toList
      "Found".toList ⟨[], [], ["One".toList]⟩
    (resolve [one, two, found]).isSome ∧ resolve [two, one, found] = none := by
  decide

/-- Targets with one full name that lead to one answer, and one namespace at most for each path,
are enough. -/
theorem answersAgree_of_unique (language sourcePath edgeKind symbolRef : Text)
    (sourceFacts : LocalSourceFacts)
    (hanswer : ∀ target ∈ targets, ∀ target' ∈ targets, target.symbolFqn = target'.symbolFqn →
      answerOf language edgeKind target = answerOf language edgeKind target')
    (hnamespace : ∀ path ns ns', (path, ns) ∈ targets.filterMap declaredNamespace →
      (path, ns') ∈ targets.filterMap declaredNamespace → ns = ns') :
    AnswersAgree language sourcePath edgeKind symbolRef sourceFacts targets := by
  intro namespaceOf namespaceOf' hchoice hchoice' test target hselected
  have hle : ∀ {namespaceOf namespaceOf'}, ChoosesNamespaces targets namespaceOf →
      ChoosesNamespaces targets namespaceOf' → ∀ path ns, namespaceOf path = some ns →
      namespaceOf' path = some ns := by
    intro namespaceOf namespaceOf' hchoice hchoice' path ns hns
    obtain ⟨ns', hns'⟩ := Option.ne_none_iff_exists'.mp
      (hchoice'.chosen path ns (hchoice.declared path ns hns))
    rw [hns', hnamespace path ns' ns (hchoice'.declared path ns' hns')
      (hchoice.declared path ns hns)]
  have hsame : namespaceOf = namespaceOf' := funext fun path => Option.ext fun ns =>
    ⟨hle hchoice hchoice' path ns, hle hchoice' hchoice path ns⟩
  subst hsame
  refine ⟨⟨test, target, hselected⟩, fun test' target' hselected' => ?_⟩
  exact hanswer target hselected.mem target' hselected'.mem (hselected.unique hselected').2

/-- So the answer is then the same for every order of the targets and of the facts. -/
theorem resolveLocalSymbolRef_perm (language sourcePath edgeKind symbolRef : Text)
    {sourceFacts sourceFacts' : LocalSourceFacts} {targets targets' : List LocalTargetInfo}
    (hanswer : ∀ target ∈ targets, ∀ target' ∈ targets, target.symbolFqn = target'.symbolFqn →
      answerOf language edgeKind target = answerOf language edgeKind target')
    (hnamespace : ∀ path ns ns', (path, ns) ∈ targets.filterMap declaredNamespace →
      (path, ns') ∈ targets.filterMap declaredNamespace → ns = ns')
    (hfacts : sourceFacts.Perm sourceFacts') (htargets : targets.Perm targets') :
    resolveLocalSymbolRef language sourcePath edgeKind symbolRef sourceFacts' targets' =
      resolveLocalSymbolRef language sourcePath edgeKind symbolRef sourceFacts targets := by
  have hagree := answersAgree_of_unique language sourcePath edgeKind symbolRef sourceFacts hanswer
    hnamespace
  rw [resolve_facts_perm hfacts]
  refine Option.ext fun answer => ⟨?_, ?_⟩
  · exact resolve_of_answersAgree hagree htargets (List.Perm.refl _)
  · exact resolve_of_answersAgree hagree (List.Perm.refl _) htargets

/-- Two methods of different names. -/
def twoMethods : List LocalTargetInfo :=
  [⟨"src/com/acme/Util.java::Util::run".toList, "run".toList, "first".toList,
      "method_declaration".toList⟩,
    ⟨"src/com/acme/Util.java::Util::stop".toList, "stop".toList, "second".toList,
      "method_declaration".toList⟩]

theorem twoMethods_reversed :
    resolveLocalSymbolRef "java".toList "src/com/acme/Main.java".toList "calls".toList
      "com.acme.Util::run".toList ⟨[], [], []⟩ twoMethods.reverse =
    resolveLocalSymbolRef "java".toList "src/com/acme/Main.java".toList "calls".toList
      "com.acme.Util::run".toList ⟨[], [], []⟩ twoMethods := by
  have hnone : twoMethods.filterMap declaredNamespace = [] := by decide
  refine resolveLocalSymbolRef_perm _ _ _ _ (by decide) (fun path ns ns' h => ?_)
    ⟨.refl _, .refl _, .refl _⟩ (List.reverse_perm _).symm
  rw [hnone] at h
  exact absurd h List.not_mem_nil

end LanguageAdapter
end Bitloops
