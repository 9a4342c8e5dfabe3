import Bitloops.DevqlGraphql.Parser
import Bitloops.Foundation.TextLines

/-!
# Parsing the hunks of a commit

`git show` prints the changes of a commit file by file.  The sections of the files are cut at their
`diff --git` lines, and the hunks of a section at its `@@` lines.  What a line of a section says is
told from its first characters.
-/

namespace Bitloops
namespace CommitHunks

open LanguageAdapter (Text trim isWhitespace)
open DevqlGraphql (parseI32)
open Separators TextLines

/-! ## What is parsed -/

structure CommitHunkLine where
  lineNumber : ℤ
  content : Text
  deriving DecidableEq

structure CommitFileDelta where
  deltaId : Text
  commitSha : Text
  pathBefore : Option Text
  pathAfter : Option Text
  changeKind : Text
  oldBlobSha : Option Text
  newBlobSha : Option Text
  isBinary : Bool
  deriving DecidableEq

structure CommitHunk where
  hunkId : Text
  deltaId : Text
  commitSha : Text
  pathBefore : Option Text
  pathAfter : Option Text
  hunkIndex : ℤ
  oldStart : ℤ
  oldLineCount : ℤ
  newStart : ℤ
  newLineCount : ℤ
  addedLines : List CommitHunkLine
  deletedLines : List CommitHunkLine
  patch : Text
  deriving DecidableEq

structure ParsedCommitHunks where
  fileDeltas : List CommitFileDelta := []
  hunks : List CommitHunk := []
  deriving DecidableEq

/-! ## Paths and blobs -/

/-- `strip_prefix`. -/
def stripPrefix (front text : Text) : Option Text :=
  if front.isPrefixOf text then some (text.drop front.length) else none

def startsWith (front : String) (text : Text) : Bool := front.toList.isPrefixOf text

/-- `replace('\\', "/")`. -/
def slashed (text : Text) : Text := text.map fun c => if c = '\\' then '/' else c

def normalizeRepoPath (path : Text) : Text :=
  (Daemon.stripDotSlash (slashed (trim path))).dropWhile (· = '/')

/-- `trim_matches('"')`. -/
def trimQuotes (text : Text) : Text :=
  ((text.dropWhile (· = '"')).reverse.dropWhile (· = '"')).reverse

def normaliseDiffPath (raw : Text) (front : Option Text) : Option Text :=
  let value := slashed (trimQuotes (trim raw))
  if value = "/dev/null".toList ∨ value = [] then none
  else some (normalizeRepoPath (((front.bind fun front => stripPrefix front value)).getD value))

def normaliseBlobSha (raw : Text) : Option Text :=
  let value := trim raw
  if value = [] ∨ value.all (· = '0') then none else some value

def parseIndexBlobPair (raw : Text) : Option Text × Option Text :=
  let pair := (fields isWhitespace raw).head?.getD []
  let (old, new) := (splitFirst "..".toList pair).getD (pair, [])
  (normaliseBlobSha old, normaliseBlobSha new)

def parseDiffGitHeaderPaths (line : Text) : Option Text × Option Text :=
  match stripPrefix "diff --git ".toList line with
  | none => (none, none)
  | some rest =>
    let parts := fields isWhitespace rest
    ((parts[0]?).bind fun raw => normaliseDiffPath raw (some "a/".toList),
      (parts[1]?).bind fun raw => normaliseDiffPath raw (some "b/".toList))

def inferChangeKind : Option Text → Option Text → Text
  | none, some _ => "added".toList
  | some _, none => "deleted".toList
  | some before, some after => if before ≠ after then "renamed".toList else "modified".toList
  | none, none => "modified".toList

/-! ## Hunk headers -/

structure HunkHeader where
  oldStart : ℤ
  oldLineCount : ℤ
  newStart : ℤ
  newLineCount : ℤ
  deriving DecidableEq

inductive HunkError where
  | invalidHeader
  | missingOldRange
  | missingNewRange
  | invalidRange (raw : Text)
  | invalidNumber (raw : Text)
  deriving DecidableEq

def parseNumber (raw : Text) : Except HunkError ℤ :=
  match parseI32 raw with
  | some n => .ok n
  | none => .error (.invalidNumber raw)

def parseHunkRange (raw : Text) (mark : Char) : Except HunkError (ℤ × ℤ) :=
  match stripPrefix [mark] raw with
  | none => .error (.invalidRange raw)
  | some range => do
    let (start, count) := (splitOnce ',' range).getD (range, "1".toList)
    return (← parseNumber start, ← parseNumber count)

def parseHunkHeader (line : Text) : Except HunkError HunkHeader :=
  match (stripPrefix "@@ ".toList line).bind fun rest => splitFirst " @@".toList rest with
  | none => .error .invalidHeader
  | some (header, _) =>
    match fields isWhitespace header with
    | [] => .error .missingOldRange
    | [_] => .error .missingNewRange
    | oldPart :: newPart :: _ => do
      let (oldStart, oldLineCount) ← parseHunkRange oldPart '-'
      let (newStart, newLineCount) ← parseHunkRange newPart '+'
      return ⟨oldStart, oldLineCount, newStart, newLineCount⟩

/-! ## The section of a file -/

structure SectionHeader where
  pathBefore : Option Text
  pathAfter : Option Text
  changeKind : Option Text := none
  oldBlobSha : Option Text := none
  newBlobSha : Option Text := none
  isBinary : Bool := false
  deriving DecidableEq

/-- What a line says about the file. -/
def headerStep (header : SectionHeader) (line : Text) : SectionHeader :=
  if startsWith "new file mode " line then { header with changeKind := some "added".toList }
  else if startsWith "deleted file mode " line then
    { header with changeKind := some "deleted".toList }
  else if let some raw := stripPrefix "rename from ".toList line then
    { header with
      pathBefore := normaliseDiffPath raw none
      changeKind := some "renamed".toList }
  else if let some raw := stripPrefix "rename to ".toList line then
    { header with pathAfter := normaliseDiffPath raw none, changeKind := some "renamed".toList }
  else if let some raw := stripPrefix "copy from ".toList line then
    { header with pathBefore := normaliseDiffPath raw none, changeKind := some "copied".toList }
  else if let some raw := stripPrefix "copy to ".toList line then
    { header with pathAfter := normaliseDiffPath raw none, changeKind := some "copied".toList }
  else if let some raw := stripPrefix "index ".toList line then
    { header with
      oldBlobSha := (parseIndexBlobPair raw).1
      newBlobSha := (parseIndexBlobPair raw).2 }
  else if let some raw := stripPrefix "--- ".toList line then
    { header with pathBefore := normaliseDiffPath raw (some "a/".toList) }
  else if let some raw := stripPrefix "+++ ".toList line then
    { header with pathAfter := normaliseDiffPath raw (some "b/".toList) }
  else if startsWith "Binary files " line then { header with isBinary := true }
  else header

structure HunkBody where
  oldLine : ℤ
  newLine : ℤ
  addedLines : List CommitHunkLine := []
  deletedLines : List CommitHunkLine := []

def bodyStep (body : HunkBody) (line : Text) : HunkBody :=
  match line with
  | '+' :: content =>
    if startsWith "+++ " line then body
    else
      { body with
        addedLines := body.addedLines ++ [⟨body.newLine, content⟩]
        newLine := body.newLine + 1 }
  | '-' :: content =>
    if startsWith "--- " line then body
    else
      { body with
        deletedLines := body.deletedLines ++ [⟨body.oldLine, content⟩]
        oldLine := body.oldLine + 1 }
  | ' ' :: _ => { body with oldLine := body.oldLine + 1, newLine := body.newLine + 1 }
  | _ => body

section Parsing

variable (uuid : Text → Text) (repoId commitSha : Text)

/-- The texts, separated by bars. -/
def barred (parts : List Text) : Text := ['|'].intercalate parts

def decimal (n : ℤ) : Text := (toString n).toList

def fileDelta (header : SectionHeader) : CommitFileDelta :=
  let changeKind :=
    header.changeKind.getD (inferChangeKind header.pathBefore header.pathAfter)
  { deltaId := uuid (barred [repoId, commitSha, header.pathBefore.getD [],
      header.pathAfter.getD [], changeKind, header.oldBlobSha.getD [], header.newBlobSha.getD []])
    commitSha
    pathBefore := header.pathBefore
    pathAfter := header.pathAfter
    changeKind
    oldBlobSha := header.oldBlobSha
    newBlobSha := header.newBlobSha
    isBinary := header.isBinary }

/-- The hunk with an index; a hunk without changed lines is left out. -/
def hunkOf (delta : CommitFileDelta) (hunkIndex : ℤ) (line : Text) (lines : List Text) :
    Except HunkError (Option CommitHunk) := do
  let header ← parseHunkHeader line
  let bodyLines := lines.takeWhile fun line => !startsWith "diff --git " line
  let body := bodyLines.foldl bodyStep { oldLine := header.oldStart, newLine := header.newStart }
  if body.addedLines = [] ∧ body.deletedLines = [] then return none
  else
    return some
      { hunkId := uuid (barred [repoId, commitSha, delta.deltaId, decimal hunkIndex,
          decimal header.oldStart, decimal header.oldLineCount, decimal header.newStart,
          decimal header.newLineCount])
        deltaId := delta.deltaId
        commitSha
        pathBefore := delta.pathBefore
        pathAfter := delta.pathAfter
        hunkIndex
        oldStart := header.oldStart
        oldLineCount := header.oldLineCount
        newStart := header.newStart
        newLineCount := header.newLineCount
        addedLines := body.addedLines
        deletedLines := body.deletedLines
        patch := ['\n'].intercalate (line :: bodyLines) }

def parseFileDiffSection (lines : List Text) (parsed : ParsedCommitHunks) :
    Except HunkError ParsedCommitHunks :=
  match lines with
  | [] => .ok parsed
  | diffHeader :: _ => do
    let (pathBefore, pathAfter) := parseDiffGitHeaderPaths diffHeader
    let header := lines.foldl headerStep { pathBefore, pathAfter }
    let delta := fileDelta uuid repoId commitSha header
    let hunks ← (blocks (startsWith "@@ ") lines).2.zipIdx.mapM fun ((line, lines), i) =>
      hunkOf uuid repoId commitSha delta (i + 1) line lines
    return { fileDeltas := parsed.fileDeltas ++ [delta]
             hunks := parsed.hunks ++ hunks.filterMap id }

def parseCommitHunksFromGitShow (rawDiff : Text) : Except HunkError ParsedCommitHunks :=
  (blocks (startsWith "diff --git ") (textLines rawDiff)).2.foldlM
    (fun parsed (line, lines) => parseFileDiffSection uuid repoId commitSha (line :: lines) parsed)
    {}

end Parsing

end CommitHunks
end Bitloops
