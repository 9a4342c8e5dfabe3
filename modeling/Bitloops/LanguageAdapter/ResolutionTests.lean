import Bitloops.LanguageAdapter.LocalRefs

/-!
# Resolution as a list of tests

Whatever the language, a reference is resolved by tests on the targets that are tried one after
the other: a test decides when the targets that satisfy it have one full name
(`resolveLocalSymbolRef_eq`).  The tests of C# depend on the namespaces that the paths have, which
come from the targets themselves.
-/

namespace Bitloops
namespace LanguageAdapter

open Separators FirstUnique

attribute [local instance] lawfulBEq_text

abbrev TargetTest := LocalTargetInfo → Bool

/-- The result of the first test that singles out one full name. -/
def firstMatch (targets : List LocalTargetInfo) (tests : List TargetTest) :
    Option LocalTargetInfo :=
  firstUnique LocalTargetInfo.symbolFqn (fun test => test) targets tests

def exactTest (candidates : List Text) : TargetTest := fun target => target.symbolFqn ∈ candidates

/-- The owners that an import may name: the whole reference, or all but its last name. -/
def javaImportOwners (symbolRef : Text) (sourceFacts : LocalSourceFacts) : List JavaOwner :=
  if ".*".toList.isSuffixOf symbolRef then []
  else
    (javaOwner symbolRef [] sourceFacts).toList ++
      match splitLast '.' symbolRef with
      | none => []
      | some (ownerRef, memberRef) =>
        if 2 ≤ (ownerRef.splitOn '.').length then
          (javaOwner ownerRef [memberRef] sourceFacts).toList
        else []

/-- The owner that another reference names. -/
def javaSymbolOwners (edgeKind symbolRef : Text) (sourceFacts : LocalSourceFacts) :
    List JavaOwner :=
  match splitFirst doubleColon symbolRef with
  | some (ownerRef, memberRef) => (javaOwner ownerRef [memberRef] sourceFacts).toList
  | none =>
    if edgeKind = "calls".toList then
      match splitLast '.' symbolRef with
      | none => []
      | some (ownerRef, memberRef) => (javaOwner ownerRef [memberRef] sourceFacts).toList
    else if '.' ∈ symbolRef then (javaOwner symbolRef [] sourceFacts).toList
    else
      match uniqueSourceValue sourceFacts.packageRefs with
      | none => []
      | some sourcePackage =>
        (javaOwner (sourcePackage ++ ".".toList ++ symbolRef) [] sourceFacts).toList

/-- A type that an import names by its namespace. -/
def importedTypeTest (namespaceRef typeName : Text) (namespaceOf : Text → Option Text) :
    TargetTest :=
  typeSelects typeName fun symbolFqn => namespaceOf (pathOfSymbolFqn symbolFqn) = some namespaceRef

/-- A type in one of the namespaces that are in scope. -/
def scopedTypeTest (symbolRef : Text) (sourceFacts : LocalSourceFacts)
    (namespaceOf : Text → Option Text) : TargetTest :=
  typeSelects symbolRef fun symbolFqn =>
    (namespaceOf (pathOfSymbolFqn symbolFqn)).any fun ns =>
      ns ∈ csharpSourceNamespaces sourceFacts namespaceOf

def csharpImportTests (symbolRef : Text) (namespaceOf : Text → Option Text) : List TargetTest :=
  let symbolRef := trim symbolRef
  if symbolRef = [] ∨ '=' ∈ symbolRef ∨ (splitFirst doubleColon symbolRef).isSome then []
  else
    namespaceSelects symbolRef ::
      match splitLast '.' symbolRef with
      | none => []
      | some (namespaceRef, typeName) => [importedTypeTest namespaceRef typeName namespaceOf]

def csharpSymbolTests (edgeKind symbolRef : Text) (sourceFacts : LocalSourceFacts)
    (namespaceOf : Text → Option Text) : List TargetTest :=
  if edgeKind = "calls".toList ∨ (splitFirst doubleColon symbolRef).isSome ∨ '.' ∈ symbolRef then []
  else [scopedTypeTest symbolRef sourceFacts namespaceOf]

def goTests (sourcePath symbolRef : Text) : List TargetTest :=
  let tokens := splitAll doubleColon symbolRef
  if tokens.length < 3 ∨ tokens.head? ≠ some "package".toList then []
  else [goSelects sourcePath (tokens.drop 2)]

def importTests (language sourcePath symbolRef : Text) (sourceFacts : LocalSourceFacts)
    (namespaceOf : Text → Option Text) : List TargetTest :=
  if language = "rust".toList then
    if endsWithSelf symbolRef then [exactTest (rustLocalModuleFqnCandidates sourcePath symbolRef)]
    else [exactTest (rustLocalSymbolFqnCandidates sourcePath symbolRef)]
  else if language = "typescript".toList ∨ language = "javascript".toList then
    [exactTest (tsJsLocalImportFqnCandidates sourcePath symbolRef)]
  else if language = "python".toList then
    [exactTest (pythonModulePathCandidates sourcePath symbolRef)]
  else if language = "java".toList then (javaImportOwners symbolRef sourceFacts).map javaSelects
  else if language = "csharp".toList then csharpImportTests symbolRef namespaceOf
  else []

def symbolTests (language sourcePath edgeKind symbolRef : Text) (sourceFacts : LocalSourceFacts)
    (namespaceOf : Text → Option Text) : List TargetTest :=
  if language = "rust".toList then [exactTest (rustLocalSymbolFqnCandidates sourcePath symbolRef)]
  else if language = "typescript".toList ∨ language = "javascript".toList then
    [exactTest (tsJsLocalSymbolFqnCandidates sourcePath symbolRef)]
  else if language = "python".toList then [exactTest (pythonLocalSymbolFqnCandidates symbolRef)]
  else if language = "go".toList then goTests sourcePath symbolRef
  else if language = "java".toList then
    (javaSymbolOwners edgeKind symbolRef sourceFacts).map javaSelects
  else if language = "csharp".toList then
    csharpSymbolTests edgeKind symbolRef sourceFacts namespaceOf
  else []

/-- The tests that decide a reference, when the paths have the namespaces of `namespaceOf`. -/
def resolutionTests (language sourcePath edgeKind symbolRef : Text)
    (sourceFacts : LocalSourceFacts) (namespaceOf : Text → Option Text) : List TargetTest :=
  if edgeKind = "imports".toList then
    importTests (normalizeLanguage language) sourcePath symbolRef sourceFacts namespaceOf
  else
    symbolTests (normalizeLanguage language) sourcePath edgeKind symbolRef sourceFacts namespaceOf

variable {targets : List LocalTargetInfo} {sourceFacts : LocalSourceFacts}
  {sourcePath edgeKind symbolRef : Text}

/-! ## The rules as tests -/

theorem firstMatch_nil : firstMatch targets [] = none := rfl

theorem firstMatch_singleton (test : TargetTest) :
    firstMatch targets [test] = uniqueMatch (targets.filter test) := List.findSome?_singleton

theorem firstMatch_cons (test : TargetTest) (tests : List TargetTest) :
    firstMatch targets (test :: tests) =
      (uniqueMatch (targets.filter test)).or (firstMatch targets tests) := by
  rw [firstMatch, firstUnique, List.findSome?_cons]
  cases hfound : uniqueMatch (targets.filter test) with
  | none =>
    rw [uniqueMatch] at hfound
    rw [hfound]
    rfl
  | some target =>
    rw [uniqueMatch] at hfound
    rw [hfound]
    rfl

theorem firstMatch_append (tests tests' : List TargetTest) :
    firstMatch targets (tests ++ tests') =
      (firstMatch targets tests).or (firstMatch targets tests') :=
  List.findSome?_append

theorem uniqueMatch_of_forall {test : TargetTest} (h : ∀ target ∈ targets, test target = false) :
    uniqueMatch (targets.filter test) = none := by
  rw [List.filter_eq_nil_iff.mpr fun target hmem => by simp [h target hmem]]
  rfl

theorem resolveExactCandidates_eq (candidates : List Text) :
    resolveExactCandidates targets candidates = firstMatch targets [exactTest candidates] := by
  rw [firstMatch_singleton, resolveExactCandidates]
  split_ifs with hempty
  · rw [hempty]
    exact (uniqueMatch_of_forall fun target _ => decide_eq_false List.not_mem_nil).symm
  · rfl

theorem resolveGo_eq : resolveGoSamePackageSymbolRef sourcePath symbolRef targets =
    firstMatch targets (goTests sourcePath symbolRef) := by
  rw [resolveGoSamePackageSymbolRef, goTests]
  split_ifs
  · rfl
  · exact (firstMatch_singleton _).symm

theorem resolveJavaOwnerAndTail_eq (ownerRef : Text) (tail : List Text) :
    resolveJavaOwnerAndTail ownerRef tail sourceFacts targets =
      firstMatch targets ((javaOwner ownerRef tail sourceFacts).toList.map javaSelects) := by
  rw [resolveJavaOwnerAndTail]
  cases javaOwner ownerRef tail sourceFacts with
  | none => rfl
  | some owner => exact (firstMatch_singleton (javaSelects owner)).symm

theorem resolveJavaImportRef_eq : resolveJavaImportRef symbolRef sourceFacts targets =
    firstMatch targets ((javaImportOwners symbolRef sourceFacts).map javaSelects) := by
  rw [resolveJavaImportRef, javaImportOwners]
  split_ifs
  · rfl
  · rw [List.map_append, firstMatch_append, ← resolveJavaOwnerAndTail_eq]
    cases resolveJavaOwnerAndTail symbolRef [] sourceFacts targets with
    | some resolved => rfl
    | none =>
      cases splitLast '.' symbolRef with
      | none => rfl
      | some parts =>
        obtain ⟨ownerRef, memberRef⟩ := parts
        dsimp only
        split_ifs
        · exact resolveJavaOwnerAndTail_eq ownerRef [memberRef]
        · rfl

theorem resolveJavaLocalSymbolRef_eq :
    resolveJavaLocalSymbolRef edgeKind symbolRef sourceFacts targets =
      firstMatch targets ((javaSymbolOwners edgeKind symbolRef sourceFacts).map javaSelects) := by
  rw [resolveJavaLocalSymbolRef, javaSymbolOwners]
  cases splitFirst doubleColon symbolRef with
  | some parts => exact resolveJavaOwnerAndTail_eq parts.1 [parts.2]
  | none =>
    dsimp only
    split_ifs
    · cases splitLast '.' symbolRef with
      | none => rfl
      | some parts => exact resolveJavaOwnerAndTail_eq parts.1 [parts.2]
    · exact resolveJavaOwnerAndTail_eq symbolRef []
    · cases uniqueSourceValue sourceFacts.packageRefs with
      | none => rfl
      | some sourcePackage => exact resolveJavaOwnerAndTail_eq _ []

theorem resolveCsharpImportRef_eq : resolveCsharpImportRef symbolRef targets =
    firstMatch targets
      (csharpImportTests symbolRef (lookupNamespace (csharpNamespaceByPath targets))) := by
  rw [resolveCsharpImportRef, csharpImportTests]
  dsimp only
  split_ifs
  · rfl
  · rw [firstMatch_cons]
    cases uniqueMatch (targets.filter (namespaceSelects (trim symbolRef))) with
    | some target => rfl
    | none =>
      cases splitLast '.' (trim symbolRef) with
      | none => rfl
      | some parts => exact (firstMatch_singleton _).symm

/-- The namespace of a target's full name is the one of its path. -/
theorem lastRow_targetNamespaces {namespaceOf : Text → Option Text} {target : LocalTargetInfo}
    (h : target ∈ targets) :
    (lastRow Prod.fst target.symbolFqn (targets.filterMap fun target =>
      (namespaceOf (pathOfSymbolFqn target.symbolFqn)).map fun ns => (target.symbolFqn, ns))) =
      (namespaceOf (pathOfSymbolFqn target.symbolFqn)).map fun ns => (target.symbolFqn, ns) := by
  cases hns : namespaceOf (pathOfSymbolFqn target.symbolFqn) with
  | none =>
    refine lastRow_eq_none.mpr fun hmem => ?_
    obtain ⟨row, hrow, hkey⟩ := List.mem_map.mp hmem
    obtain ⟨other, -, hother⟩ := List.mem_filterMap.mp hrow
    obtain ⟨ns, hfound, rfl⟩ := Option.map_eq_some_iff.mp hother
    have hsame : other.symbolFqn = target.symbolFqn := hkey
    rw [hsame, hns] at hfound
    exact nomatch hfound
  | some ns =>
    have hrow : (target.symbolFqn, ns) ∈ targets.filterMap fun target =>
        (namespaceOf (pathOfSymbolFqn target.symbolFqn)).map fun ns => (target.symbolFqn, ns) :=
      List.mem_filterMap.mpr ⟨target, h, by rw [hns, Option.map_some]⟩
    cases hlast : lastRow Prod.fst target.symbolFqn (targets.filterMap fun target =>
        (namespaceOf (pathOfSymbolFqn target.symbolFqn)).map fun ns => (target.symbolFqn, ns)) with
    | none => exact absurd (List.mem_map_of_mem hrow) (lastRow_eq_none.mp hlast)
    | some row =>
      obtain ⟨hmem, hkey⟩ := mem_of_lastRow hlast
      obtain ⟨other, -, hother⟩ := List.mem_filterMap.mp hmem
      obtain ⟨ns', hfound, rfl⟩ := Option.map_eq_some_iff.mp hother
      have hsame : other.symbolFqn = target.symbolFqn := hkey
      rw [hsame, hns] at hfound
      rw [hsame, ← Option.some.inj hfound, Option.map_some]

theorem resolveCsharpLocalSymbolRef_eq :
    resolveCsharpLocalSymbolRef edgeKind symbolRef sourceFacts targets =
      firstMatch targets (csharpSymbolTests edgeKind symbolRef sourceFacts
        (lookupNamespace (csharpNamespaceByPath targets))) := by
  rw [resolveCsharpLocalSymbolRef, csharpSymbolTests]
  dsimp only
  generalize lookupNamespace (csharpNamespaceByPath targets) = namespaceOf
  split_ifs with _ hempty
  · rfl
  · refine Eq.symm ((firstMatch_singleton _).trans (uniqueMatch_of_forall fun target _ => ?_))
    rw [scopedTypeTest, typeSelects, hempty]
    cases namespaceOf (pathOfSymbolFqn target.symbolFqn) <;> simp
  · rw [firstMatch_singleton]
    refine congrArg uniqueMatch (List.filter_congr fun target hmem => ?_)
    rw [scopedTypeTest, typeSelects, typeSelects, lastRow_targetNamespaces hmem, Option.any_map]

theorem resolveImportTarget_eq (language : Text) :
    resolveImportTarget language sourcePath symbolRef sourceFacts targets =
      firstMatch targets (importTests language sourcePath symbolRef sourceFacts
        (lookupNamespace (csharpNamespaceByPath targets))) := by
  rw [resolveImportTarget, importTests]
  split_ifs
  · exact resolveExactCandidates_eq _
  · exact resolveExactCandidates_eq _
  · exact resolveExactCandidates_eq _
  · exact resolveExactCandidates_eq _
  · exact resolveJavaImportRef_eq
  · exact resolveCsharpImportRef_eq
  · rfl

theorem resolveSymbolTarget_eq (language : Text) :
    resolveSymbolTarget language sourcePath edgeKind symbolRef sourceFacts targets =
      firstMatch targets (symbolTests language sourcePath edgeKind symbolRef sourceFacts
        (lookupNamespace (csharpNamespaceByPath targets))) := by
  rw [resolveSymbolTarget, symbolTests]
  split_ifs
  · exact resolveExactCandidates_eq _
  · exact resolveExactCandidates_eq _
  · exact resolveExactCandidates_eq _
  · exact resolveGo_eq
  · exact resolveJavaLocalSymbolRef_eq
  · exact resolveCsharpLocalSymbolRef_eq
  · rfl

/-- **Resolution tries tests**, under the namespaces that the targets give their paths. -/
theorem resolveLocalSymbolRef_eq (language : Text) :
    resolveLocalSymbolRef language sourcePath edgeKind symbolRef sourceFacts targets =
      (firstMatch targets (resolutionTests language sourcePath edgeKind symbolRef sourceFacts
        (lookupNamespace (csharpNamespaceByPath targets)))).map (answerOf language edgeKind) := by
  rw [resolveLocalSymbolRef, resolutionTests]
  split_ifs
  · rw [resolveImportTarget_eq]
  · rw [resolveSymbolTarget_eq]

end LanguageAdapter
end Bitloops
