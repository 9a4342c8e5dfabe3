import Bitloops.Foundation.TextLines
import Bitloops.Foundation.Utf8Lossy
import Bitloops.LanguageAdapter.RustImports
import Bitloops.PostCommit.Turns

/-!
# What git writes of a status

The line form puts a path with spaces or special characters in quotes and writes a rename as
`old -> new`; the `-z` form writes raw paths, and the old path after the new one.  Entries are of
files, each path once, and of files that the program does not leave out.
-/

namespace Bitloops
namespace GitStatus

open LanguageAdapter (Text)
open PostCommit (isDirOrDescendant isInfrastructurePath normalizedPath)
open Utf8Lossy

/-! ## Paths -/

def isProtectedPath (path : String) : Bool :=
  [".git", ".worktrees", ".bitloops-test-state", ".claude", ".github/hooks", ".codex", ".cursor",
    ".gemini"].any fun dir => isDirOrDescendant (normalizedPath path) dir.toList

/-- Infrastructure and protected paths. -/
def isLeftOut (path : Text) : Bool :=
  isInfrastructurePath (String.ofList path) || isProtectedPath (String.ofList path)

/-- A path of a file below the root of the repository. -/
structure RepoPath where
  text : Text
  components : ∀ part ∈ text.splitOn '/', part ≠ [] ∧ part ≠ ['.'] ∧ part ≠ ['.', '.']
  noNul : Char.ofNat 0 ∉ text

/-! ## Entries -/

/-- What happened to a file in the index, or in the worktree. -/
inductive Letter where
  | unmodified
  | modified
  | typeChanged
  | added
  | deleted
  | renamed
  | copied
  | unmerged
  deriving DecidableEq

def Letter.char : Letter → Char
  | .unmodified => ' '
  | .modified => 'M'
  | .typeChanged => 'T'
  | .added => 'A'
  | .deleted => 'D'
  | .renamed => 'R'
  | .copied => 'C'
  | .unmerged => 'U'

inductive Change where
  | untracked
  | tracked (x y : Letter) (changed : ¬(x = .unmodified ∧ y = .unmodified))
  deriving DecidableEq

namespace Change

def code : Change → Char × Char
  | untracked => ('?', '?')
  | tracked x y _ => (x.char, y.char)

def has (letter : Letter) : Change → Bool
  | untracked => false
  | tracked x y _ => x = letter || y = letter

/-- Renames and copies, which git shows with the old path. -/
def moves (change : Change) : Bool := change.has .renamed || change.has .copied

/-- No other letter than the one of a conflict. -/
def OnlyUnmerged (change : Change) : Prop :=
  change ≠ .untracked ∧ ∀ letter ∈ [Letter.modified, .typeChanged, .added, .deleted, .renamed,
    .copied], change.has letter = false

instance (change : Change) : Decidable change.OnlyUnmerged := inferInstanceAs (Decidable (_ ∧ _))

end Change

structure StatusEntry where
  change : Change
  path : RepoPath
  /-- Read of renames and copies only. -/
  origPath : RepoPath
  reported : isLeftOut path.text = false

/-- Git lists every path once. -/
structure Status where
  entries : List StatusEntry
  once : (entries.map fun e => e.path.text).Nodup

/-! ## Quotes -/

def octalDigit (n : ℕ) : Char := Char.ofNat (48 + n % 8)

def octalEscape (byte : UInt8) : Text :=
  ['\\', octalDigit (byte.toNat / 64), octalDigit (byte.toNat / 8), octalDigit byte.toNat]

/-- A quote, a backslash, a control character, or no ASCII character. -/
def isSpecial (c : Char) : Bool := c = '"' || c = '\\' || c.toNat < 0x20 || 0x7F ≤ c.toNat

def namedEscapes : List (ℕ × Char) :=
  [(7, 'a'), (8, 'b'), (9, 't'), (10, 'n'), (11, 'v'), (12, 'f'), (13, 'r'), (34, '"'), (92, '\\')]

def escapeChar (c : Char) : Text :=
  match namedEscapes.lookup c.toNat with
  | some letter => ['\\', letter]
  | none => if isSpecial c then (String.utf8EncodeChar c).flatMap octalEscape else [c]

def quoteCStyle (path : Text) : Text := '"' :: (path.flatMap escapeChar ++ ['"'])

/-- The line form also quotes paths with spaces. -/
def NeedsQuotes (path : Text) : Prop := ∃ c ∈ path, isSpecial c ∨ c = ' '

instance (path : Text) : Decidable (NeedsQuotes path) :=
  inferInstanceAs (Decidable (∃ c ∈ path, _))

def shownPath (path : Text) : Text := if NeedsQuotes path then quoteCStyle path else path

/-! ## The two forms -/

def arrow : Text := " -> ".toList

def shownPaths (e : StatusEntry) : Text :=
  if e.change.moves then shownPath e.origPath.text ++ arrow ++ shownPath e.path.text
  else shownPath e.path.text

def statusLine (e : StatusEntry) : Text :=
  e.change.code.1 :: e.change.code.2 :: ' ' :: shownPaths e

/-- `git status --porcelain`. -/
def lineOutput (status : Status) : List UInt8 :=
  encode (TextLines.joinLines (status.entries.map statusLine))

def statusRecords (e : StatusEntry) : List Text :=
  (e.change.code.1 :: e.change.code.2 :: ' ' :: e.path.text) ::
    if e.change.moves then [e.origPath.text] else []

/-- `git status --porcelain=v1 -z`. -/
def nulOutput (status : Status) : List UInt8 :=
  (status.entries.flatMap statusRecords).flatMap fun record => encode record ++ [0]

end GitStatus
end Bitloops
