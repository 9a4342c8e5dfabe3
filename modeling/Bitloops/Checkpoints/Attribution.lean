import Mathlib.Data.List.SplitOn
import Mathlib.Data.Rat.Cast.Order
import Bitloops.Foundation.OrderBy
import Bitloops.Foundation.UniqueTable

/-!
# Who wrote the committed lines

The lines of a commit are attributed to the agent and to the user by comparing three trees: the
base before the session, the shadow tree of the session and the head.  What the user did between
the prompts has been counted when each prompt came in.

A `BTreeMap` is a table with unique keys; `i32` arithmetic is that of `Int32`.  The results of
`f64` operations are rounded, and the rounding is a parameter.
-/

namespace Bitloops
namespace Checkpoints
namespace Attribution

/-! ## Trees and maps -/

/-- The text files of a tree with their contents. -/
structure TreeSnapshot where
  files : UniqueTable (String × String) Prod.fst

/-- `BTreeMap<String, i32>`. -/
abbrev LineCounts := UniqueTable (String × Int32) Prod.fst

/-- `map.get(file).copied().unwrap_or(0)`. -/
def LineCounts.count (counts : LineCounts) (file : String) : Int32 :=
  ((findRow Prod.fst file counts.rows).map Prod.snd).getD 0

structure PromptAttribution where
  checkpointNumber : Int32
  userLinesAdded : Int32 := 0
  userLinesRemoved : Int32 := 0
  agentLinesAdded : Int32 := 0
  agentLinesRemoved : Int32 := 0
  userAddedPerFile : LineCounts := .empty

structure InitialAttribution where
  agentLines : Int32
  humanAdded : Int32
  humanModified : Int32
  humanRemoved : Int32
  totalCommitted : Int32
  agentPercentage : ℚ
  deriving DecidableEq

/-- How `f64` results are rounded: integers up to `2 ^ 53` are exact. -/
structure F64Rounding where
  round : ℚ → ℚ
  monotone : ∀ x y, x ≤ y → round x ≤ round y
  exact : ∀ n : ℤ, |n| ≤ 2 ^ 53 → round n = n

def getFileContent (tree : Option TreeSnapshot) (path : String) : String :=
  (tree.bind fun t => (findRow Prod.fst path t.files.rows).map Prod.snd).getD ""

def getAllChangedFilesBetweenTrees (left right : Option TreeSnapshot) : List String :=
  let paths := fun tree : Option TreeSnapshot => (tree.map (·.files.rows)).getD []
  let content := fun (tree : Option TreeSnapshot) path =>
    tree.bind fun t => (findRow Prod.fst path t.files.rows).map Prod.snd
  sortDedup
    (((paths left).filter fun row => content right row.1 ≠ some row.2).map Prod.fst ++
      ((paths right).filter fun row => content left row.1 = none).map Prod.fst)

/-! ## Comparing lines -/

abbrev Line := List Char

def splitLines (content : String) : List Line :=
  if content.isEmpty then []
  else
    let parts := content.toList.splitOn '\n'
    if content.toList.getLast? = some '\n' then parts.dropLast else parts

def countLinesStr (content : String) : Int32 := Int32.ofNat (splitLines content).length

/-- The entries of a row of the table after the first, from those of the row above. -/
def lcsRow (line : Line) : List Line → List ℕ → ℕ → List ℕ
  | right :: rest, diagonal :: above :: row, before =>
    let entry := if line = right then diagonal + 1 else max above before
    entry :: lcsRow line rest (above :: row) entry
  | _, _, _ => []

def lcsTable (left right : List Line) : List ℕ :=
  left.foldl (fun row line => 0 :: lcsRow line right row 0) (List.replicate (right.length + 1) 0)

def lcsLineCount (left right : List Line) : ℕ :=
  if left.isEmpty || right.isEmpty then 0 else (lcsTable left right).getLast?.getD 0

/-- The lines that are unchanged, added and removed. -/
structure LineDiff where
  unchanged : Int32
  added : Int32
  removed : Int32
  deriving DecidableEq

def diffLines (checkpointContent committedContent : String) : LineDiff :=
  if checkpointContent = committedContent then ⟨countLinesStr committedContent, 0, 0⟩
  else if checkpointContent.isEmpty then ⟨0, countLinesStr committedContent, 0⟩
  else if committedContent.isEmpty then ⟨0, 0, countLinesStr checkpointContent⟩
  else
    let a := splitLines checkpointContent
    let b := splitLines committedContent
    let unchanged := Int32.ofNat (lcsLineCount a b)
    let removed := max (Int32.ofNat a.length - unchanged) 0
    let added := max (Int32.ofNat b.length - unchanged) 0
    ⟨unchanged, added, removed⟩

/-! ## Attribution -/

def estimateUserSelfModifications
    (accumulatedUserAddedPerFile postCheckpointUserRemovedPerFile : LineCounts) : Int32 :=
  postCheckpointUserRemovedPerFile.rows.foldl
    (fun selfModified row => selfModified + min row.2 (accumulatedUserAddedPerFile.count row.1)) 0

/-- `*map.entry(file).or_default() += added`. -/
def LineCounts.addTo (counts : LineCounts) (row : String × Int32) : LineCounts :=
  counts.upsert (row.1, counts.count row.1 + row.2)

def accumulatedUserRemoved (promptAttributions : List PromptAttribution) : Int32 :=
  promptAttributions.foldl (fun n pa => n + pa.userLinesRemoved) 0

def accumulatedUserAddedPerFile (promptAttributions : List PromptAttribution) : LineCounts :=
  promptAttributions.foldl (fun counts pa => pa.userAddedPerFile.rows.foldl LineCounts.addTo counts)
    .empty

/-- What the loop over the touched files accumulates. -/
structure TouchedTotals where
  totalAgentAndUserWork : Int32 := 0
  postCheckpointUserAdded : Int32 := 0
  postCheckpointUserRemoved : Int32 := 0
  postCheckpointUserRemovedPerFile : LineCounts := .empty

section Trees

variable (baseTree shadowTree headTree : Option TreeSnapshot)

def addTouchedFile (totals : TouchedTotals) (filePath : String) : TouchedTotals :=
  let work := diffLines (getFileContent baseTree filePath) (getFileContent shadowTree filePath)
  let post := diffLines (getFileContent shadowTree filePath) (getFileContent headTree filePath)
  { totalAgentAndUserWork := totals.totalAgentAndUserWork + work.added
    postCheckpointUserAdded := totals.postCheckpointUserAdded + post.added
    postCheckpointUserRemoved := totals.postCheckpointUserRemoved + post.removed
    postCheckpointUserRemovedPerFile :=
      if 0 < post.removed then
        totals.postCheckpointUserRemovedPerFile.upsert (filePath, post.removed)
      else totals.postCheckpointUserRemovedPerFile }

def touchedTotals (filesTouched : List String) : TouchedTotals :=
  filesTouched.foldl (addTouchedFile baseTree shadowTree headTree) {}

/-- The changed files that the agent has not touched. -/
def committedNonAgentFiles (touched : String → Bool) : List String :=
  (getAllChangedFilesBetweenTrees baseTree headTree).filter fun filePath => !touched filePath

def allUserEditsToNonAgentFiles (touched : String → Bool) : Int32 :=
  (committedNonAgentFiles baseTree headTree touched).foldl
    (fun n filePath => n +
      (diffLines (getFileContent baseTree filePath) (getFileContent headTree filePath)).added) 0

end Trees

/-- The lines that the user added in the files, between the prompts. -/
def accumulatedTo (accumulated : LineCounts) (p : String → Bool) : Int32 :=
  (accumulated.rows.filter fun row => p row.1).foldl (fun n row => n + row.2) 0

/-- `agent as f64 / total as f64 * 100.0`. -/
def agentPercentage (f64 : F64Rounding) (agentLines totalCommitted : Int32) : ℚ :=
  if 0 < totalCommitted then
    f64.round (f64.round ((agentLines.toInt : ℚ) / totalCommitted.toInt) * 100)
  else 0

/-- The counts that everything else follows from. -/
structure Counts where
  totalAgentAndUserWork : Int32
  postCheckpointUserAdded : Int32
  postCheckpointUserRemoved : Int32
  allUserEditsToNonAgentFiles : Int32
  accumulatedToAgentFiles : Int32
  accumulatedToCommittedNonAgentFiles : Int32
  accumulatedUserRemoved : Int32
  userSelfModified : Int32

def initialAttribution (f64 : F64Rounding) (c : Counts) : InitialAttribution :=
  let totalAgentAdded := max (c.totalAgentAndUserWork - c.accumulatedToAgentFiles) 0
  let postToNonAgentFiles :=
    max (c.allUserEditsToNonAgentFiles - c.accumulatedToCommittedNonAgentFiles) 0
  let relevantAccumulatedUser :=
    c.accumulatedToAgentFiles + c.accumulatedToCommittedNonAgentFiles
  let totalUserAdded :=
    relevantAccumulatedUser + c.postCheckpointUserAdded + postToNonAgentFiles
  let totalUserRemoved := c.accumulatedUserRemoved + c.postCheckpointUserRemoved
  let totalHumanModified := min totalUserAdded totalUserRemoved
  let humanModifiedAgent := max (totalHumanModified - c.userSelfModified) 0
  let pureUserAdded := totalUserAdded - totalHumanModified
  let pureUserRemoved := totalUserRemoved - totalHumanModified
  let sum := totalAgentAdded + pureUserAdded - pureUserRemoved
  let totalCommitted := if sum ≤ 0 then max totalAgentAdded 0 else sum
  let agentLinesInCommit := max (totalAgentAdded - pureUserRemoved - humanModifiedAgent) 0
  { agentLines := agentLinesInCommit
    humanAdded := pureUserAdded
    humanModified := totalHumanModified
    humanRemoved := pureUserRemoved
    totalCommitted
    agentPercentage := agentPercentage f64 agentLinesInCommit totalCommitted }

/-- What is counted for the touched files. -/
def countsOf (baseTree shadowTree headTree : Option TreeSnapshot) (filesTouched : List String)
    (promptAttributions : List PromptAttribution) : Counts :=
  let accumulated := accumulatedUserAddedPerFile promptAttributions
  let totals := touchedTotals baseTree shadowTree headTree filesTouched
  let committed := committedNonAgentFiles baseTree headTree filesTouched.contains
  { totalAgentAndUserWork := totals.totalAgentAndUserWork
    postCheckpointUserAdded := totals.postCheckpointUserAdded
    postCheckpointUserRemoved := totals.postCheckpointUserRemoved
    allUserEditsToNonAgentFiles :=
      allUserEditsToNonAgentFiles baseTree headTree filesTouched.contains
    accumulatedToAgentFiles := accumulatedTo accumulated filesTouched.contains
    accumulatedToCommittedNonAgentFiles := accumulatedTo accumulated fun file =>
      !filesTouched.contains file && committed.contains file
    accumulatedUserRemoved := accumulatedUserRemoved promptAttributions
    userSelfModified :=
      estimateUserSelfModifications accumulated totals.postCheckpointUserRemovedPerFile }

def calculateAttributionWithAccumulated (f64 : F64Rounding)
    (baseTree shadowTree headTree : Option TreeSnapshot) (filesTouched : List String)
    (promptAttributions : List PromptAttribution) : Option InitialAttribution :=
  if filesTouched.isEmpty then none
  else some (initialAttribution f64
    (countsOf baseTree shadowTree headTree filesTouched promptAttributions))

/-! ## Attribution of a prompt -/

def addWorktreeFile (baseTree lastCheckpointTree : Option TreeSnapshot)
    (result : PromptAttribution) (file : String × String) : PromptAttribution :=
  let reference := getFileContent (lastCheckpointTree <|> baseTree) file.1
  let user := diffLines reference file.2
  let agent := diffLines (getFileContent baseTree file.1) (getFileContent lastCheckpointTree file.1)
  { checkpointNumber := result.checkpointNumber
    userLinesAdded := result.userLinesAdded + user.added
    userLinesRemoved := result.userLinesRemoved + user.removed
    agentLinesAdded :=
      if lastCheckpointTree.isSome then result.agentLinesAdded + agent.added
      else result.agentLinesAdded
    agentLinesRemoved :=
      if lastCheckpointTree.isSome then result.agentLinesRemoved + agent.removed
      else result.agentLinesRemoved
    userAddedPerFile :=
      if 0 < user.added then result.userAddedPerFile.upsert (file.1, user.added)
      else result.userAddedPerFile }

def calculatePromptAttribution (baseTree lastCheckpointTree : Option TreeSnapshot)
    (worktreeFiles : UniqueTable (String × String) Prod.fst) (checkpointNumber : Int32) :
    PromptAttribution :=
  worktreeFiles.rows.foldl (addWorktreeFile baseTree lastCheckpointTree) { checkpointNumber }

end Attribution
end Checkpoints
end Bitloops
