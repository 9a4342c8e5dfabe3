import Bitloops.GitStatus.Porcelain
import Mathlib.Data.Finset.Sort
import Mathlib.Data.List.Lex

/-!
# The two readers of a status

`detectFileChangesForTurnEnd` reads the line form at the end of a turn, `workingTreeChanges` the
`-z` form for the tree of a checkpoint.
-/

namespace Bitloops
namespace GitStatus

open LanguageAdapter (Text trim)
open PostCommit (isInfrastructurePath)
open Utf8Lossy

structure FileChanges where
  modified : List Text := []
  newFiles : List Text := []
  deleted : List Text := []
  deriving DecidableEq

/-! ## Lines -/

/-- What follows the last arrow. -/
def afterLastArrow : Text → Option Text
  | [] => none
  | c :: text =>
    match afterLastArrow text with
    | some rest => some rest
    | none => if arrow.isPrefixOf (c :: text) then some (text.drop 3) else none

/-- The sets of the loop over the lines. -/
structure ChangeSets where
  modified : Finset Text := ∅
  newFiles : Finset Text := ∅
  deleted : Finset Text := ∅

def isSkipped (path : Text) : Bool :=
  path = [] || path.getLast? = some '/' || isLeftOut path

def readLine (previouslyUntracked : Option (List Text)) (sets : ChangeSets) (line : Text) :
    ChangeSets :=
  if line.length < 3 then sets
  else
    let shown := trim (line.drop 3)
    let path := (afterLastArrow shown).getD shown
    if isSkipped path then sets
    else
      let x := line.getD 0 ' '
      let y := line.getD 1 ' '
      if x = '?' ∧ y = '?' then
        if previouslyUntracked.isNone || !(previouslyUntracked.getD []).contains path then
          { sets with newFiles := insert path sets.newFiles }
        else sets
      else if x = 'D' ∨ y = 'D' then { sets with deleted := insert path sets.deleted }
      else if x ≠ ' ' ∨ y ≠ ' ' then { sets with modified := insert path sets.modified }
      else sets

/-! ## Relative paths -/

/-- Slashes and components `.` at the start. -/
def skipSlashes : Text → Text
  | '/' :: path => skipSlashes path
  | '.' :: '/' :: path => skipSlashes path
  | ['.'] => []
  | path => path

/-- Slashes and components `.` at the end, of a path that is turned around. -/
def skipLastSlashes : Text → Text
  | '/' :: path => skipLastSlashes path
  | '.' :: '/' :: path => skipLastSlashes path
  | path => path

/-- `Path::strip_prefix`, for the components of the base. -/
def stripComponents : List Text → Text → Option Text
  | [], path => some (skipSlashes path)
  | part :: parts, path =>
    let rest := (skipSlashes path).drop part.length
    if part.isPrefixOf (skipSlashes path) ∧ (rest = [] ∨ rest.head? = some '/') then
      stripComponents parts rest
    else none

def toRelativePath (absPath cwd : Text) : Text :=
  if absPath.head? ≠ some '/' then absPath
  else if cwd = [] then absPath
  else if cwd.head? ≠ some '/' then []
  else
    match stripComponents ((cwd.splitOn '/').filter fun part => part ≠ [] ∧ part ≠ ['.'])
      absPath with
    | none => []
    | some rest =>
      match (skipLastSlashes rest.reverse).reverse with
      | [] => ['.']
      | relative => relative

def normalize (base : Text) (paths : Finset Text) : List Text :=
  ((paths.sort (· ≤ ·)).map (toRelativePath · base)).filter fun path =>
    path ≠ [] ∧ ¬['.', '.'].isPrefixOf path

/-- Modified, new and deleted files at the end of a turn. -/
def detectFileChangesForTurnEnd (repoRoot : Text) (previouslyUntracked : Option (List Text))
    (stdout : List UInt8) : FileChanges :=
  let sets := (TextLines.textLines (decode stdout)).foldl (readLine previouslyUntracked) {}
  { modified := normalize repoRoot sets.modified
    newFiles := normalize repoRoot sets.newFiles
    deleted := normalize repoRoot sets.deleted }

/-! ## Records -/

/-- What stands before the NULs. -/
def nulRecords (bytes : List UInt8) : List (List UInt8) := (bytes.splitOn 0).dropLast

def addChange (changes : FileChanges) (x y : Char) (file : Text) (oldName : Option Text) :
    FileChanges :=
  if file = [] ∨ isInfrastructurePath (String.ofList file) then changes
  else if file.getLast? = some '/' then changes
  else if x = '?' ∧ y = '?' then { changes with newFiles := changes.newFiles ++ [file] }
  else if x = 'C' ∨ y = 'C' then { changes with newFiles := changes.newFiles ++ [file] }
  else if x = 'R' ∨ y = 'R' then
    { changes with
      deleted := changes.deleted ++ (oldName.toList.filter fun old =>
        old ≠ [] ∧ isInfrastructurePath (String.ofList old) = false)
      modified := changes.modified ++ [file] }
  else if x = 'D' ∨ y = 'D' then { changes with deleted := changes.deleted ++ [file] }
  else if x = 'A' ∨ y = 'A' then { changes with newFiles := changes.newFiles ++ [file] }
  else if x = 'M' ∨ y = 'M' ∨ x = 'T' ∨ y = 'T' then
    { changes with modified := changes.modified ++ [file] }
  else changes

def letterAt (entry : List UInt8) (i : ℕ) : Char := Char.ofNat (entry.getD i 0).toNat

def readRecords (changes : FileChanges) : List (List UInt8) → FileChanges
  | [] => changes
  | entry :: rest =>
    if entry.length < 4 ∨ entry.getD 2 0 ≠ 0x20 then readRecords changes rest
    else
      let x := letterAt entry 0
      let y := letterAt entry 1
      let file := decode (entry.drop 3)
      if x = 'R' ∨ y = 'R' ∨ x = 'C' ∨ y = 'C' then
        match rest with
        | [] => changes
        | old :: rest => readRecords (addChange changes x y file (some (decode old))) rest
      else readRecords (addChange changes x y file none) rest

/-- Modified, new and deleted files of the working tree. -/
def workingTreeChanges (stdout : List UInt8) : FileChanges := readRecords {} (nulRecords stdout)

end GitStatus
end Bitloops
