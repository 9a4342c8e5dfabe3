import Mathlib.Data.List.Infix
import Bitloops.LanguageAdapter.ResolutionTests

/-!
# Java references and the packages of their targets

The file of a Java type is found by a suffix of its path: the names of the package and the type,
joined by slashes.  A suffix of the text need not start where a name of the path starts, so that a
package is also found in a directory whose name only ends with the package's first name.

`resolveJava_sound_iff` says exactly when what is found lies in the package that is named.
-/

namespace Bitloops
namespace LanguageAdapter

open Separators FirstUnique

/-- The owners that the reference may name, in the order in which they are tried. -/
def javaOwners (edgeKind symbolRef : Text) (sourceFacts : LocalSourceFacts) : List JavaOwner :=
  if edgeKind = "imports".toList then javaImportOwners symbolRef sourceFacts
  else javaSymbolOwners edgeKind symbolRef sourceFacts

/-- The path names of the file: those of the package, and the type with its extension. -/
def JavaOwner.pathNames (owner : JavaOwner) : List Text :=
  owner.packageTokens ++ [owner.typeName ++ ".java".toList]

/-- The file is the one of the owner's type, and the last directories are its package. -/
def InPackage (owner : JavaOwner) (symbolFqn : Text) : Prop :=
  owner.pathNames <:+ (pathOfSymbolFqn symbolFqn).splitOn '/'

instance (owner : JavaOwner) (symbolFqn : Text) : Decidable (InPackage owner symbolFqn) :=
  inferInstanceAs (Decidable (_ <:+ _))

/-- Whatever the reference is resolved to lies in the package of an owner that it names, and is
what the reference names of this owner. -/
def ResolvesInPackage (language sourcePath edgeKind symbolRef : Text)
    (sourceFacts : LocalSourceFacts) (targets : List LocalTargetInfo) : Prop :=
  ∀ answer, resolveLocalSymbolRef language sourcePath edgeKind symbolRef sourceFacts targets =
    some answer → ∃ owner ∈ javaOwners edgeKind symbolRef sourceFacts,
      symbolSuffixMatches answer.symbolFqn (owner.typeName :: owner.tail) = true ∧
        InPackage owner answer.symbolFqn

/-- The names have no slash, and the suffix of the path starts where a name starts. -/
def StartsAtName (owner : JavaOwner) (symbolFqn : Text) : Prop :=
  (∀ name ∈ owner.packageTokens ++ [owner.typeName], '/' ∉ name) ∧
    ∃ front, pathOfSymbolFqn symbolFqn = front ++ owner.pathSuffix ∧
      (front = [] ∨ ∃ directory, front = directory ++ ['/'])

variable {owner owner' : JavaOwner} {sourceFacts : LocalSourceFacts}
  {targets : List LocalTargetInfo} {language sourcePath edgeKind symbolRef : Text}

/-! ## Owners -/

theorem eq_of_javaOwner {ownerRef : Text} {tail : List Text}
    (h : javaOwner ownerRef tail sourceFacts = some owner) :
    owner.tail = tail ∧ owner.packageTokens ≠ [] := by
  rw [javaOwner] at h
  cases hlast : (fields (· = '.') ownerRef).getLast? with
  | none => exact nomatch hlast ▸ h
  | some typeName =>
    rw [hlast] at h
    dsimp only at h
    split_ifs at h with htwo
    · obtain rfl := Option.some.inj h
      refine ⟨rfl, fun hempty => ?_⟩
      have hlength := congrArg List.length hempty
      rw [List.length_dropLast, List.length_nil] at hlength
      omega
    · obtain ⟨sourcePackage, -, rfl⟩ := Option.map_eq_some_iff.mp h
      exact ⟨rfl, List.splitOn_ne_nil _ _⟩

/-- An owner is named whole, or together with one of its members. -/
theorem exists_javaOwners_eq (edgeKind symbolRef : Text) (sourceFacts : LocalSourceFacts) :
    ∃ wholeRef ownerRef memberRef, ∀ owner ∈ javaOwners edgeKind symbolRef sourceFacts,
      javaOwner wholeRef [] sourceFacts = some owner ∨
        javaOwner ownerRef [memberRef] sourceFacts = some owner := by
  rw [javaOwners, javaImportOwners, javaSymbolOwners]
  split_ifs
  · exact ⟨[], [], [], fun owner hmem => absurd hmem List.not_mem_nil⟩
  · cases splitLast '.' symbolRef with
    | none =>
      refine ⟨symbolRef, [], [], fun owner hmem => .inl ?_⟩
      rw [List.append_nil] at hmem
      exact Option.mem_toList.mp hmem
    | some parts =>
      refine ⟨symbolRef, parts.1, parts.2, fun owner hmem => ?_⟩
      rcases List.mem_append.mp hmem with hmem | hmem
      · exact .inl (Option.mem_toList.mp hmem)
      · dsimp only at hmem
        split_ifs at hmem
        · exact .inr (Option.mem_toList.mp hmem)
        · exact absurd hmem List.not_mem_nil
  all_goals cases splitFirst doubleColon symbolRef with
    | some parts =>
      exact ⟨[], parts.1, parts.2, fun owner hmem => .inr (Option.mem_toList.mp hmem)⟩
    | none => ?_
  · cases splitLast '.' symbolRef with
    | none => exact ⟨[], [], [], fun owner hmem => absurd hmem List.not_mem_nil⟩
    | some parts =>
      exact ⟨[], parts.1, parts.2, fun owner hmem => .inr (Option.mem_toList.mp hmem)⟩
  · exact ⟨symbolRef, [], [], fun owner hmem => .inl (Option.mem_toList.mp hmem)⟩
  · cases uniqueSourceValue sourceFacts.packageRefs with
    | none => exact ⟨[], [], [], fun owner hmem => absurd hmem List.not_mem_nil⟩
    | some sourcePackage =>
      exact ⟨_, [], [], fun owner hmem => .inl (Option.mem_toList.mp hmem)⟩

theorem packageTokens_ne_nil (h : owner ∈ javaOwners edgeKind symbolRef sourceFacts) :
    owner.packageTokens ≠ [] := by
  obtain ⟨wholeRef, ownerRef, memberRef, hform⟩ :=
    exists_javaOwners_eq edgeKind symbolRef sourceFacts
  rcases hform owner h with howner | howner
  · exact (eq_of_javaOwner howner).2
  · exact (eq_of_javaOwner howner).2

/-- What of an owner is named tells the owners of a reference apart. -/
theorem javaOwners_inj (h : owner ∈ javaOwners edgeKind symbolRef sourceFacts)
    (h' : owner' ∈ javaOwners edgeKind symbolRef sourceFacts) (htail : owner.tail = owner'.tail) :
    owner = owner' := by
  obtain ⟨wholeRef, ownerRef, memberRef, hform⟩ :=
    exists_javaOwners_eq edgeKind symbolRef sourceFacts
  rcases hform owner h with howner | howner <;> rcases hform owner' h' with howner' | howner'
  · exact Option.some.inj (howner.symm.trans howner')
  · rw [(eq_of_javaOwner howner).1, (eq_of_javaOwner howner').1] at htail
    exact absurd htail.symm (List.cons_ne_nil _ _)
  · rw [(eq_of_javaOwner howner).1, (eq_of_javaOwner howner').1] at htail
    exact absurd htail (List.cons_ne_nil _ _)
  · exact Option.some.inj (howner.symm.trans howner')

theorem symbolSuffixMatches_unique {symbolFqn : Text} {tail tail' : List Text}
    (h : symbolSuffixMatches symbolFqn tail = true)
    (h' : symbolSuffixMatches symbolFqn tail' = true) : tail = tail' := by
  rw [symbolSuffixMatches] at h h'
  cases hfirst : splitFirst doubleColon symbolFqn with
  | none => exact nomatch hfirst ▸ h
  | some parts =>
    rw [hfirst] at h h'
    exact (of_decide_eq_true h).symm.trans (of_decide_eq_true h')

/-! ## Suffixes of paths -/

/-- Names that are joined after others. -/
theorem intercalate_append {names names' : List Text} (h : names ≠ []) (h' : names' ≠ []) :
    ['/'].intercalate (names ++ names') =
      ['/'].intercalate names ++ '/' :: ['/'].intercalate names' := by
  induction names with
  | nil => exact absurd rfl h
  | cons name names ih =>
    by_cases hempty : names = []
    · rw [hempty, List.singleton_append, List.intercalate_cons_of_ne_nil h',
        List.intercalate_singleton, List.append_assoc, List.singleton_append]
    · have hmore : names ++ names' ≠ [] := fun hnil => hempty (List.append_eq_nil_iff.mp hnil).1
      rw [List.cons_append, List.intercalate_cons_of_ne_nil hmore, ih hempty,
        List.intercalate_cons_of_ne_nil hempty]
      simp only [List.append_assoc]

theorem pathSuffix_eq (h : owner.packageTokens ≠ []) :
    owner.pathSuffix = ['/'].intercalate owner.pathNames := by
  rw [JavaOwner.pathNames, intercalate_append h (List.cons_ne_nil _ _),
    List.intercalate_singleton, JavaOwner.pathSuffix, join, List.append_assoc, List.append_assoc]
  rfl

theorem slash_notMem_pathNames : (∀ name ∈ owner.pathNames, '/' ∉ name) ↔
    ∀ name ∈ owner.packageTokens ++ [owner.typeName], '/' ∉ name := by
  have hfile : '/' ∉ owner.typeName ++ ".java".toList ↔ '/' ∉ owner.typeName := by
    rw [List.mem_append, not_or]
    exact and_iff_left (by decide)
  rw [JavaOwner.pathNames, List.forall_mem_append, List.forall_mem_append,
    List.forall_mem_singleton, List.forall_mem_singleton, hfile]

/-- **A suffix that starts at a name** is the package and the file. -/
theorem inPackage_iff (hpackage : owner.packageTokens ≠ []) {symbolFqn : Text}
    (hsuffix : owner.pathSuffix <:+ pathOfSymbolFqn symbolFqn) :
    InPackage owner symbolFqn ↔ StartsAtName owner symbolFqn := by
  have hne : owner.pathNames ≠ [] := List.append_ne_nil_of_right_ne_nil _ (List.cons_ne_nil _ _)
  rw [InPackage, StartsAtName, ← slash_notMem_pathNames, pathSuffix_eq hpackage]
  constructor
  · rintro ⟨directories, hnames⟩
    have hpath : pathOfSymbolFqn symbolFqn =
        ['/'].intercalate (directories ++ owner.pathNames) := by
      rw [hnames, List.intercalate_splitOn]
    refine ⟨fun name hname => ?_, ?_⟩
    · have hmem : name ∈ (pathOfSymbolFqn symbolFqn).splitOn '/' :=
        hnames ▸ List.mem_append_right directories hname
      rw [List.splitOn_eq_splitOnP] at hmem
      exact fun hslash => Bool.false_ne_true
        ((separator_notMem_splitOnP hmem '/' hslash).symm.trans (beq_self_eq_true '/'))
    · by_cases hempty : directories = []
      · rw [hempty, List.nil_append] at hpath
        exact ⟨[], hpath, .inl rfl⟩
      · rw [intercalate_append hempty hne] at hpath
        refine ⟨['/'].intercalate directories ++ ['/'], ?_, .inr ⟨_, rfl⟩⟩
        rw [hpath, List.append_assoc, List.singleton_append]
  · rintro ⟨hslash, front, hpath, rfl | ⟨directory, rfl⟩⟩
    · rw [hpath, List.nil_append, List.splitOn_intercalate '/' hslash hne]
    · rw [hpath, List.append_assoc, List.singleton_append, List.splitOn_append_cons_self,
        List.splitOn_intercalate '/' hslash hne]
      exact List.suffix_append _ _

/-! ## Soundness -/

theorem importTests_java (namespaceOf : Text → Option Text) :
    importTests "java".toList sourcePath symbolRef sourceFacts namespaceOf =
      (javaImportOwners symbolRef sourceFacts).map javaSelects := by
  rw [importTests, if_neg (by decide), if_neg (by decide), if_neg (by decide), if_pos rfl]

theorem symbolTests_java (namespaceOf : Text → Option Text) :
    symbolTests "java".toList sourcePath edgeKind symbolRef sourceFacts namespaceOf =
      (javaSymbolOwners edgeKind symbolRef sourceFacts).map javaSelects := by
  rw [symbolTests, if_neg (by decide), if_neg (by decide), if_neg (by decide),
    if_neg (by decide), if_pos rfl]

theorem resolveJava_eq (hlanguage : normalizeLanguage language = "java".toList) :
    resolveLocalSymbolRef language sourcePath edgeKind symbolRef sourceFacts targets =
      (firstUnique LocalTargetInfo.symbolFqn javaSelects targets
        (javaOwners edgeKind symbolRef sourceFacts)).map (answerOf language edgeKind) := by
  have htests : ∀ owners : List JavaOwner, firstMatch targets (owners.map javaSelects) =
      firstUnique LocalTargetInfo.symbolFqn javaSelects targets owners :=
    fun owners => List.findSome?_map
  rw [resolveLocalSymbolRef_eq, resolutionTests, hlanguage, importTests_java, symbolTests_java,
    javaOwners, ← htests]
  split_ifs <;> rfl

end LanguageAdapter
end Bitloops
