import Bitloops.CommitHunks.Hunks

/-!
# The patch of a commit

A commit adds, deletes, modifies and renames files.  `renderCommit` is the patch that git prints
for it with `--unified=0`, and `commitHunks` what is to be read from the patch.

Git quotes a path with a control character, a quote or a backslash in it; the other paths stand in
the patch as they are, and a tab follows a path with a space in a `---` or `+++` line.
-/

namespace Bitloops
namespace CommitHunks

open LanguageAdapter (Text trim isWhitespace)
open TextLines

/-! ## Changes of files -/

/-- A path that git does not quote. -/
structure GitPath where
  text : Text
  unquoted : ∀ c ∈ text, 0x20 ≤ c.toNat ∧ c.toNat ≠ 0x7F ∧ c ≠ '"' ∧ c ≠ '\\'
  components : ∀ part ∈ text.splitOn '/', part ≠ [] ∧ part ≠ ".".toList ∧ part ≠ "..".toList

/-- The name of a blob, which is not the null name. -/
structure Blob where
  hex : Text
  digits : ∀ c ∈ hex, c.isAlphanum = true
  notNull : ∃ c ∈ hex, c ≠ '0'

structure FileMode where
  text : Text
  digits : ∀ c ∈ text, c.isDigit = true

/-- Lines that are deleted and lines that are added in their place.  The heading is the line that
git finds to be the start of the function; files of more than 1023 MiB are not compared, so line
numbers are small. -/
structure DiffHunk where
  oldStart : ℕ
  newStart : ℕ
  heading : Text := []
  deleted : List Text
  added : List Text
  oldEndsInLine : Bool := true
  newEndsInLine : Bool := true
  changed : deleted ≠ [] ∨ added ≠ []
  oneLine : ∀ line ∈ deleted ++ added, '\n' ∉ line
  headingLine : '\n' ∉ heading
  headingEnd : ∀ c ∈ heading.getLast?, isWhitespace c = false
  oldFits : oldStart + deleted.length < 2 ^ 31
  newFits : newStart + added.length < 2 ^ 31

structure ContentChange where
  oldBlob : Blob
  newBlob : Blob
  mode : Option FileMode
  hunks : List DiffHunk
  hunks_ne_nil : hunks ≠ []

inductive FileChange where
  | added (path : GitPath) (mode : FileMode) (blob : Blob) (hunks : List DiffHunk)
  | deleted (path : GitPath) (mode : FileMode) (blob : Blob) (hunks : List DiffHunk)
  | modified (path : GitPath) (modes : Option (FileMode × FileMode))
    (content : Option ContentChange)
  | renamed (before after : GitPath) (hne : before.text ≠ after.text)
    (modes : Option (FileMode × FileMode)) (similarity : ℕ) (content : Option ContentChange)

/-! ## The patch -/

def natText (n : ℕ) : Text := n.repr.toList

/-- The count stands in a range when it is not one. -/
def renderRange (start count : ℕ) : Text :=
  if count = 1 then natText start else natText start ++ ',' :: natText count

def noNewlineMarker : Text := "\\ No newline at end of file".toList

namespace DiffHunk

def headerLine (hunk : DiffHunk) : Text :=
  "@@ -".toList ++ renderRange hunk.oldStart hunk.deleted.length ++ " +".toList ++
    renderRange hunk.newStart hunk.added.length ++ " @@".toList ++
    (if hunk.heading = [] then [] else ' ' :: hunk.heading)

def bodyLines (hunk : DiffHunk) : List Text :=
  hunk.deleted.map ('-' :: ·) ++
    (if hunk.oldEndsInLine ∨ hunk.deleted = [] then [] else [noNewlineMarker]) ++
    hunk.added.map ('+' :: ·) ++
    (if hunk.newEndsInLine ∨ hunk.added = [] then [] else [noNewlineMarker])

def lines (hunk : DiffHunk) : List Text := hunk.headerLine :: hunk.bodyLines

end DiffHunk

/-- A side of the file, as it stands behind `---` and `+++`. -/
def label (mark : String) : Option GitPath → Text
  | none => "/dev/null".toList
  | some path =>
    mark.toList ++ path.text ++ (if ' ' ∈ path.text then ['\t'] else [])

def hunkLines (before after : Option GitPath) (hunks : List DiffHunk) : List Text :=
  ("--- ".toList ++ label "a/" before) :: ("+++ ".toList ++ label "b/" after) ::
    hunks.flatMap DiffHunk.lines

def nullBlob : Text := List.replicate 40 '0'

def indexLine (old new : Text) (mode : Option FileMode) : Text :=
  "index ".toList ++ old ++ "..".toList ++ new ++ (mode.elim [] fun mode => ' ' :: mode.text)

def modeLines (modes : Option (FileMode × FileMode)) : List Text :=
  modes.elim [] fun modes =>
    ["old mode ".toList ++ modes.1.text, "new mode ".toList ++ modes.2.text]

def contentLines (before after : GitPath) (content : Option ContentChange) : List Text :=
  content.elim [] fun content =>
    indexLine content.oldBlob.hex content.newBlob.hex content.mode ::
      hunkLines (some before) (some after) content.hunks

def diffGitLine (before after : GitPath) : Text :=
  "diff --git ".toList ++ ("a/".toList ++ before.text) ++ ' ' :: ("b/".toList ++ after.text)

namespace FileChange

/-- The lines after the `diff --git` line. -/
def detailLines : FileChange → List Text
  | added path mode blob hunks =>
    ("new file mode ".toList ++ mode.text) :: indexLine nullBlob blob.hex none ::
      (if hunks = [] then [] else hunkLines none (some path) hunks)
  | deleted path mode blob hunks =>
    ("deleted file mode ".toList ++ mode.text) :: indexLine blob.hex nullBlob none ::
      (if hunks = [] then [] else hunkLines (some path) none hunks)
  | modified path modes content => modeLines modes ++ contentLines path path content
  | renamed before after _ modes similarity content =>
    modeLines modes ++
      [("similarity index ".toList ++ natText similarity) ++ ['%'],
        "rename from ".toList ++ before.text, "rename to ".toList ++ after.text] ++
      contentLines before after content

def before : FileChange → GitPath
  | added path _ _ _ => path
  | deleted path _ _ _ => path
  | modified path _ _ => path
  | renamed before _ _ _ _ _ => before

def after : FileChange → GitPath
  | added path _ _ _ => path
  | deleted path _ _ _ => path
  | modified path _ _ => path
  | renamed _ after _ _ _ _ => after

def lines (file : FileChange) : List Text :=
  diffGitLine file.before file.after :: file.detailLines

end FileChange

def renderCommit (files : List FileChange) : Text :=
  joinLines (files.flatMap FileChange.lines)

/-! ## What is to be read -/

/-- The lines with their numbers. -/
def numbered (start : ℤ) (lines : List Text) : List CommitHunkLine :=
  lines.zipIdx.map fun (content, i) => ⟨start + i, content⟩

namespace FileChange

def hunks : FileChange → List DiffHunk
  | added _ _ _ hunks => hunks
  | deleted _ _ _ hunks => hunks
  | modified _ _ content => content.elim [] ContentChange.hunks
  | renamed _ _ _ _ _ content => content.elim [] ContentChange.hunks

def summary : FileChange → SectionHeader
  | added path _ blob _ =>
    { pathBefore := none, pathAfter := some path.text, changeKind := some "added".toList
      newBlobSha := some blob.hex }
  | deleted path _ blob _ =>
    { pathBefore := some path.text, pathAfter := none, changeKind := some "deleted".toList
      oldBlobSha := some blob.hex }
  | modified path _ content =>
    { pathBefore := some path.text, pathAfter := some path.text
      changeKind := some "modified".toList
      oldBlobSha := content.map fun content => content.oldBlob.hex
      newBlobSha := content.map fun content => content.newBlob.hex }
  | renamed before after _ _ _ content =>
    { pathBefore := some before.text, pathAfter := some after.text
      changeKind := some "renamed".toList
      oldBlobSha := content.map fun content => content.oldBlob.hex
      newBlobSha := content.map fun content => content.newBlob.hex }

end FileChange

section Reading

variable (uuid : Text → Text) (repoId commitSha : Text)

def DiffHunk.commitHunk (delta : CommitFileDelta) (hunkIndex : ℤ) (hunk : DiffHunk) : CommitHunk :=
  { hunkId := uuid (barred [repoId, commitSha, delta.deltaId, decimal hunkIndex,
      decimal hunk.oldStart, decimal hunk.deleted.length, decimal hunk.newStart,
      decimal hunk.added.length])
    deltaId := delta.deltaId
    commitSha
    pathBefore := delta.pathBefore
    pathAfter := delta.pathAfter
    hunkIndex
    oldStart := hunk.oldStart
    oldLineCount := hunk.deleted.length
    newStart := hunk.newStart
    newLineCount := hunk.added.length
    addedLines := numbered hunk.newStart hunk.added
    deletedLines := numbered hunk.oldStart hunk.deleted
    patch := ['\n'].intercalate hunk.lines }

namespace FileChange

def delta (file : FileChange) : CommitFileDelta := fileDelta uuid repoId commitSha file.summary

def commitHunks (file : FileChange) : List CommitHunk :=
  file.hunks.zipIdx.map fun (hunk, i) =>
    hunk.commitHunk uuid repoId commitSha (file.delta uuid repoId commitSha) (i + 1)

end FileChange

/-- The files of a commit with their hunks. -/
def commitHunks (files : List FileChange) : ParsedCommitHunks :=
  { fileDeltas := files.map (FileChange.delta uuid repoId commitSha)
    hunks := files.flatMap (FileChange.commitHunks uuid repoId commitSha) }

end Reading

end CommitHunks
end Bitloops
