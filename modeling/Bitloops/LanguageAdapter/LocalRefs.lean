import Bitloops.Foundation.FirstUnique
import Bitloops.Foundation.LastWins
import Bitloops.Foundation.Separators
import Bitloops.LanguageAdapter.RustImports
import Mathlib

/-!
# Local references

An edge of a file names what it refers to by a reference in the words of its language.  The
reference is resolved to one of the artefacts of the repository by the rules of the language: most
of them list the full names that the reference may stand for, and the others go through the paths,
the packages and the namespaces of the targets.

A map that is filled from the targets is a table that is filled in the same order.
-/

namespace Bitloops
namespace LanguageAdapter

open Separators

theorem lawfulBEq_text : LawfulBEq Text := inferInstance

attribute [local instance] lawfulBEq_text

structure LocalTargetInfo where
  symbolFqn : Text
  symbolId : Text
  artefactId : Text
  languageKind : Text
deriving DecidableEq

structure LocalSourceFacts where
  importRefs : List Text
  packageRefs : List Text
  namespaceRefs : List Text

structure ResolvedLocalTarget where
  symbolFqn : Text
  symbolId : Text
  artefactId : Text
  edgeKind : Text
deriving DecidableEq

/-! ## Paths and full names -/

def doubleColon : Text := "::".toList

def join (separator : String) (parts : List Text) : Text := separator.toList.intercalate parts

def stripSuffix (suffix text : Text) : Option Text :=
  if suffix.isSuffixOf text then some (text.take (text.length - suffix.length)) else none

/-- One token of a relative path. -/
def followToken (parts : List Text) (token : Text) : Option (List Text) :=
  if token = [] ∨ token = ".".toList then some parts
  else if token = "..".toList then if parts = [] then none else some parts.dropLast
  else some (parts ++ [token])

def normalizeRelativePath (baseDir relative : Text) : Option Text :=
  match (relative.splitOn '/').foldlM followToken (fields (· = '/') baseDir) with
  | none => none
  | some parts => if parts = [] then none else some (join "/" parts)

def pathDir (path : Text) : Text := ((splitLast '/' path).map Prod.fst).getD []

def pathOfSymbolFqn (symbolFqn : Text) : Text :=
  ((splitFirst doubleColon symbolFqn).map Prod.fst).getD symbolFqn

def symbolSuffixMatches (symbolFqn : Text) (expectedTail : List Text) : Bool :=
  match splitFirst doubleColon symbolFqn with
  | none => false
  | some (_, tail) => splitAll doubleColon tail = expectedTail

/-! ## Unique matches -/

/-- The targets are put into a map by their full names, which has to end up with one entry. -/
def uniqueMatch (found : List LocalTargetInfo) : Option LocalTargetInfo :=
  FirstUnique.uniqueRow LocalTargetInfo.symbolFqn found

def resolveExactCandidates (targets : List LocalTargetInfo) (candidates : List Text) :
    Option LocalTargetInfo :=
  if candidates = [] then none
  else uniqueMatch (targets.filter fun target => target.symbolFqn ∈ candidates)

def uniqueSourceValue (values : List Text) : Option Text :=
  match values.dedup with
  | [value] => some value
  | _ => none

/-! ## Rust -/

def disallowedRustRefToken (token : Text) : Bool :=
  token = [] || token.any fun c =>
    c = '{' || c = '}' || c = '*' || c = ',' || c = '(' || c = ')' || c = ' '

def splitRustRefTokens (symbolRef : Text) : Option (List Text) :=
  let tokens := (splitAll doubleColon (trim symbolRef)).map trim
  if tokens = [] ∨ tokens.any disallowedRustRefToken then none else some tokens

def sourceRootAndModuleSegments (path : Text) : Option (Text × List Text) := do
  let (root, relative) ← splitLast "src".toList (fields (· = '/') path)
  let crateRoot := join "/" (root ++ ["src".toList])
  let fileName ← relative.getLast?
  if fileName = "lib.rs".toList ∨ fileName = "main.rs".toList ∨ fileName = "mod.rs".toList then
    some (crateRoot, relative.dropLast)
  else
    let stem ← stripSuffix ".rs".toList fileName
    some (crateRoot, relative.dropLast ++ [stem])

/-- The modules that are left by the tokens `super` at the front. -/
def leaveModules : List Text → List Text → Option (List Text × List Text)
  | modulePrefix, [] => some (modulePrefix, [])
  | modulePrefix, token :: tokens =>
    if token = "super".toList then
      if modulePrefix = [] then none else leaveModules modulePrefix.dropLast tokens
    else some (modulePrefix, token :: tokens)

/-- The module that the first tokens name, and the tokens that follow them. -/
def startModule (currentModule tokens : List Text) : Option (List Text × List Text) :=
  match tokens with
  | [] => none
  | token :: rest =>
    if token = "crate".toList then some ([], rest)
    else if token = "self".toList then some (currentModule, rest)
    else if token = "super".toList then leaveModules currentModule tokens
    else none

def crateFiles (crateRoot : Text) : List Text :=
  [crateRoot ++ "/lib.rs".toList, crateRoot ++ "/main.rs".toList]

def moduleFiles (crateRoot modulePath : Text) : List Text :=
  if modulePath = [] then crateFiles crateRoot
  else
    [crateRoot ++ "/".toList ++ modulePath ++ ".rs".toList,
      crateRoot ++ "/".toList ++ modulePath ++ "/mod.rs".toList]

def rustLocalSymbolFqnCandidates (path symbolRef : Text) : List Text :=
  match splitRustRefTokens symbolRef, sourceRootAndModuleSegments path with
  | some tokens, some (crateRoot, currentModule) =>
    match startModule currentModule tokens with
    | none => []
    | some (modulePrefix, tail) =>
      match tail.getLast? with
      | none => []
      | some symbolName =>
        if symbolName = [] then []
        else
          let modulePath := join "/" (modulePrefix ++ tail.dropLast)
          (moduleFiles crateRoot modulePath).map fun candidatePath =>
            candidatePath ++ doubleColon ++ symbolName
  | _, _ => []

def rustLocalModuleFqnCandidates (path symbolRef : Text) : List Text :=
  match splitRustRefTokens symbolRef, sourceRootAndModuleSegments path with
  | some tokens, some (crateRoot, currentModule) =>
    match startModule currentModule tokens with
    | none => []
    | some (modulePrefix, tail) =>
      if tail = [] then crateFiles crateRoot
      else
        let moduleTail := if tail.getLast? = some "self".toList then tail.dropLast else tail
        moduleFiles crateRoot (join "/" (modulePrefix ++ moduleTail))
  | _, _ => []

/-- `rsplit("::").next()`, trimmed, is `self`. -/
def endsWithSelf (symbolRef : Text) : Bool :=
  match splitFirst doubleColon.reverse symbolRef.reverse with
  | none => trim symbolRef = "self".toList
  | some (last, _) => trim last.reverse = "self".toList

/-! ## TypeScript and JavaScript -/

def tsJsExtensions : List Text := ["ts".toList, "tsx".toList, "js".toList, "jsx".toList]

def isRelativeModule (moduleRef : Text) : Bool :=
  "./".toList.isPrefixOf moduleRef || "../".toList.isPrefixOf moduleRef

/-- The files that a module path may stand for, each with `suffix` behind it. -/
def tsJsFiles (modulePath suffix : Text) : List Text :=
  tsJsExtensions.flatMap fun ext =>
    [modulePath ++ ".".toList ++ ext ++ suffix, modulePath ++ "/index.".toList ++ ext ++ suffix]

def tsJsLocalSymbolFqnCandidates (sourcePath symbolRef : Text) : List Text :=
  match splitFirst doubleColon symbolRef with
  | none => []
  | some (moduleRef, symbolTail) =>
    if isRelativeModule moduleRef then
      match normalizeRelativePath (pathDir sourcePath) moduleRef with
      | none => []
      | some modulePath => tsJsFiles modulePath (doubleColon ++ symbolTail)
    else []

def tsJsLocalImportFqnCandidates (sourcePath symbolRef : Text) : List Text :=
  if isRelativeModule symbolRef then
    match normalizeRelativePath (pathDir sourcePath) symbolRef with
    | none => []
    | some modulePath => tsJsFiles modulePath []
  else []

/-! ## Python -/

def dotsToSlashes (moduleRef : Text) : Text := moduleRef.map fun c => if c = '.' then '/' else c

def pythonLocalSymbolFqnCandidates (symbolRef : Text) : List Text :=
  match splitFirst doubleColon symbolRef with
  | none => []
  | some (moduleRef, symbolTail) =>
    if moduleRef = [] ∨ moduleRef.head? = some '.' ∨ '/' ∈ moduleRef ∨ ' ' ∈ moduleRef then []
    else
      [dotsToSlashes moduleRef ++ ".py::".toList ++ symbolTail,
        dotsToSlashes moduleRef ++ "/__init__.py::".toList ++ symbolTail]

/-- The candidates for a reference that starts with dots. -/
def pythonRelativeCandidates (sourcePath moduleRef : Text) : List Text :=
  let leadingDots := (moduleRef.takeWhile (· = '.')).length
  let baseParts := fields (· = '/') (pathDir sourcePath)
  if baseParts.length < leadingDots - 1 then []
  else
    let baseParts := baseParts.take (baseParts.length - (leadingDots - 1))
    let remainder := trim (moduleRef.drop leadingDots)
    if remainder = [] then
      let base := join "/" baseParts
      if base = [] then ["__init__.py".toList] else [base ++ "/__init__.py".toList]
    else
      let moduleParts := baseParts ++ fields (· = '.') remainder
      if moduleParts = [] then []
      else
        [join "/" moduleParts ++ ".py".toList, join "/" moduleParts ++ "/__init__.py".toList]

def pythonModulePathCandidates (sourcePath moduleRef : Text) : List Text :=
  let moduleRef := trim moduleRef
  if moduleRef = [] ∨ '/' ∈ moduleRef ∨ ' ' ∈ moduleRef then []
  else if moduleRef.head? = some '.' then pythonRelativeCandidates sourcePath moduleRef
  else
    [dotsToSlashes moduleRef ++ ".py".toList, dotsToSlashes moduleRef ++ "/__init__.py".toList]

/-! ## Go -/

def goSelects (sourcePath : Text) (tail : List Text) (target : LocalTargetInfo) : Bool :=
  ".go".toList.isSuffixOf (pathOfSymbolFqn target.symbolFqn) &&
    (pathDir (pathOfSymbolFqn target.symbolFqn) = pathDir sourcePath &&
      symbolSuffixMatches target.symbolFqn tail)

def resolveGoSamePackageSymbolRef (sourcePath symbolRef : Text) (targets : List LocalTargetInfo) :
    Option LocalTargetInfo :=
  let tokens := splitAll doubleColon symbolRef
  if tokens.length < 3 ∨ tokens.head? ≠ some "package".toList then none
  else uniqueMatch (targets.filter (goSelects sourcePath (tokens.drop 2)))

/-! ## Java -/

/-- A type by its package and its name, and what of it is named. -/
structure JavaOwner where
  packageTokens : List Text
  typeName : Text
  tail : List Text
deriving DecidableEq

/-- The owner that the text names: a type of the source's own package when it has no dot. -/
def javaOwner (ownerRef : Text) (tail : List Text) (sourceFacts : LocalSourceFacts) :
    Option JavaOwner :=
  let ownerTokens := fields (· = '.') ownerRef
  match ownerTokens.getLast? with
  | none => none
  | some typeName =>
    if 2 ≤ ownerTokens.length then some ⟨ownerTokens.dropLast, typeName, tail⟩
    else (uniqueSourceValue sourceFacts.packageRefs).map fun sourcePackage =>
      ⟨sourcePackage.splitOn '.', typeName, tail⟩

def JavaOwner.pathSuffix (owner : JavaOwner) : Text :=
  join "/" owner.packageTokens ++ "/".toList ++ owner.typeName ++ ".java".toList

def javaSelects (owner : JavaOwner) (target : LocalTargetInfo) : Bool :=
  ".java".toList.isSuffixOf (pathOfSymbolFqn target.symbolFqn) &&
    (owner.pathSuffix.isSuffixOf (pathOfSymbolFqn target.symbolFqn) &&
      symbolSuffixMatches target.symbolFqn (owner.typeName :: owner.tail))

def resolveJavaOwnerAndTail (ownerRef : Text) (tail : List Text) (sourceFacts : LocalSourceFacts)
    (targets : List LocalTargetInfo) : Option LocalTargetInfo :=
  (javaOwner ownerRef tail sourceFacts).bind fun owner =>
    uniqueMatch (targets.filter (javaSelects owner))

def resolveJavaImportRef (symbolRef : Text) (sourceFacts : LocalSourceFacts)
    (targets : List LocalTargetInfo) : Option LocalTargetInfo :=
  if ".*".toList.isSuffixOf symbolRef then none
  else
    match resolveJavaOwnerAndTail symbolRef [] sourceFacts targets with
    | some resolved => some resolved
    | none =>
      match splitLast '.' symbolRef with
      | none => none
      | some (ownerRef, memberRef) =>
        if 2 ≤ (ownerRef.splitOn '.').length then
          resolveJavaOwnerAndTail ownerRef [memberRef] sourceFacts targets
        else none

def resolveJavaLocalSymbolRef (edgeKind symbolRef : Text) (sourceFacts : LocalSourceFacts)
    (targets : List LocalTargetInfo) : Option LocalTargetInfo :=
  match splitFirst doubleColon symbolRef with
  | some (ownerRef, memberRef) =>
    resolveJavaOwnerAndTail ownerRef [memberRef] sourceFacts targets
  | none =>
    if edgeKind = "calls".toList then
      match splitLast '.' symbolRef with
      | none => none
      | some (ownerRef, memberRef) =>
        resolveJavaOwnerAndTail ownerRef [memberRef] sourceFacts targets
    else if '.' ∈ symbolRef then resolveJavaOwnerAndTail symbolRef [] sourceFacts targets
    else
      match uniqueSourceValue sourceFacts.packageRefs with
      | none => none
      | some sourcePackage =>
        resolveJavaOwnerAndTail (sourcePackage ++ ".".toList ++ symbolRef) [] sourceFacts targets

/-! ## C# -/

def isNamespaceKind (languageKind : Text) : Bool :=
  languageKind = "namespace_declaration".toList ||
    languageKind = "file_scoped_namespace_declaration".toList

/-- The path and the namespace, when the target declares one. -/
def declaredNamespace (target : LocalTargetInfo) : Option (Text × Text) :=
  if isNamespaceKind target.languageKind then
    (splitFirst "::ns::".toList target.symbolFqn).map fun (_, ns) =>
      (pathOfSymbolFqn target.symbolFqn, ns)
  else none

def csharpNamespaceByPath (targets : List LocalTargetInfo) :
    UniqueTable (Text × Text) Prod.fst :=
  (targets.filterMap declaredNamespace).foldl UniqueTable.insertOrIgnore UniqueTable.empty

def lookupNamespace (namespaceByPath : UniqueTable (Text × Text) Prod.fst) (path : Text) :
    Option Text :=
  (findRow Prod.fst path namespaceByPath.rows).map Prod.snd

/-- The namespace that an import brings into scope. -/
def importedNamespace (namespaceOf : Text → Option Text) (importRef : Text) : Option Text :=
  let importRef := trim importRef
  if importRef = [] then none
  else
    match splitFirst "::ns::".toList importRef with
    | some (_, ns) => some ns
    | none =>
      if (splitFirst doubleColon importRef).isSome then namespaceOf (pathOfSymbolFqn importRef)
      else if '.' ∈ importRef ∧ '=' ∉ importRef then some importRef
      else none

def csharpSourceNamespaces (sourceFacts : LocalSourceFacts) (namespaceOf : Text → Option Text) :
    List Text :=
  sourceFacts.namespaceRefs ++ sourceFacts.importRefs.filterMap (importedNamespace namespaceOf)

/-- The target declares the namespace. -/
def namespaceSelects (symbolRef : Text) (target : LocalTargetInfo) : Bool :=
  isNamespaceKind target.languageKind &&
    match splitFirst "::ns::".toList target.symbolFqn with
    | none => false
    | some (_, ns) => ns = symbolRef

/-- The target is a type of the name, in a file for which the test on its full name holds. -/
def typeSelects (typeName : Text) (inScope : Text → Bool) (target : LocalTargetInfo) : Bool :=
  ".cs".toList.isSuffixOf (pathOfSymbolFqn target.symbolFqn) &&
    (symbolSuffixMatches target.symbolFqn [typeName] && inScope target.symbolFqn)

def resolveCsharpImportRef (symbolRef : Text) (targets : List LocalTargetInfo) :
    Option LocalTargetInfo :=
  let symbolRef := trim symbolRef
  if symbolRef = [] ∨ '=' ∈ symbolRef ∨ (splitFirst doubleColon symbolRef).isSome then none
  else
    let namespaceOf := lookupNamespace (csharpNamespaceByPath targets)
    match uniqueMatch (targets.filter (namespaceSelects symbolRef)) with
    | some target => some target
    | none =>
      match splitLast '.' symbolRef with
      | none => none
      | some (namespaceRef, typeName) =>
        uniqueMatch (targets.filter (typeSelects typeName fun symbolFqn =>
          namespaceOf (pathOfSymbolFqn symbolFqn) = some namespaceRef))

def resolveCsharpLocalSymbolRef (edgeKind symbolRef : Text) (sourceFacts : LocalSourceFacts)
    (targets : List LocalTargetInfo) : Option LocalTargetInfo :=
  if edgeKind = "calls".toList ∨ (splitFirst doubleColon symbolRef).isSome ∨ '.' ∈ symbolRef then
    none
  else
    let namespaceOf := lookupNamespace (csharpNamespaceByPath targets)
    let namespaces := csharpSourceNamespaces sourceFacts namespaceOf
    if namespaces = [] then none
    else
      let targetNamespaces := targets.filterMap fun target =>
        (namespaceOf (pathOfSymbolFqn target.symbolFqn)).map fun ns => (target.symbolFqn, ns)
      uniqueMatch (targets.filter (typeSelects symbolRef fun symbolFqn =>
        (lastRow Prod.fst symbolFqn targetNamespaces).any fun (_, ns) => ns ∈ namespaces))

/-! ## All languages -/

def normalizeLanguage (language : Text) : Text := (trim language).map Char.toLower

def normalizeResolvedEdgeKind (language edgeKind targetLanguageKind : Text) : Text :=
  if language = "csharp".toList ∧ edgeKind = "implements".toList ∧
      ¬(targetLanguageKind = "interface_declaration".toList ∨
        targetLanguageKind = "interface".toList) then "extends".toList
  else edgeKind

def resolveImportTarget (language sourcePath symbolRef : Text) (sourceFacts : LocalSourceFacts)
    (targets : List LocalTargetInfo) : Option LocalTargetInfo :=
  if language = "rust".toList then
    if endsWithSelf symbolRef then
      resolveExactCandidates targets (rustLocalModuleFqnCandidates sourcePath symbolRef)
    else resolveExactCandidates targets (rustLocalSymbolFqnCandidates sourcePath symbolRef)
  else if language = "typescript".toList ∨ language = "javascript".toList then
    resolveExactCandidates targets (tsJsLocalImportFqnCandidates sourcePath symbolRef)
  else if language = "python".toList then
    resolveExactCandidates targets (pythonModulePathCandidates sourcePath symbolRef)
  else if language = "java".toList then resolveJavaImportRef symbolRef sourceFacts targets
  else if language = "csharp".toList then resolveCsharpImportRef symbolRef targets
  else none

def resolveSymbolTarget (language sourcePath edgeKind symbolRef : Text)
    (sourceFacts : LocalSourceFacts) (targets : List LocalTargetInfo) : Option LocalTargetInfo :=
  if language = "rust".toList then
    resolveExactCandidates targets (rustLocalSymbolFqnCandidates sourcePath symbolRef)
  else if language = "typescript".toList ∨ language = "javascript".toList then
    resolveExactCandidates targets (tsJsLocalSymbolFqnCandidates sourcePath symbolRef)
  else if language = "python".toList then
    resolveExactCandidates targets (pythonLocalSymbolFqnCandidates symbolRef)
  else if language = "go".toList then resolveGoSamePackageSymbolRef sourcePath symbolRef targets
  else if language = "java".toList then
    resolveJavaLocalSymbolRef edgeKind symbolRef sourceFacts targets
  else if language = "csharp".toList then
    resolveCsharpLocalSymbolRef edgeKind symbolRef sourceFacts targets
  else none

/-- The answer that a target leads to. -/
def answerOf (language edgeKind : Text) (target : LocalTargetInfo) : ResolvedLocalTarget where
  symbolFqn := target.symbolFqn
  symbolId := target.symbolId
  artefactId := target.artefactId
  edgeKind := normalizeResolvedEdgeKind (normalizeLanguage language) edgeKind target.languageKind

def resolveLocalSymbolRef (language sourcePath edgeKind symbolRef : Text)
    (sourceFacts : LocalSourceFacts) (targets : List LocalTargetInfo) :
    Option ResolvedLocalTarget :=
  let normalized := normalizeLanguage language
  let target :=
    if edgeKind = "imports".toList then
      resolveImportTarget normalized sourcePath symbolRef sourceFacts targets
    else resolveSymbolTarget normalized sourcePath edgeKind symbolRef sourceFacts targets
  target.map (answerOf language edgeKind)

end LanguageAdapter
end Bitloops
