import Bitloops.Checkpoints.Storage
import Bitloops.Foundation.OrderBy
import Bitloops.Interactions.Types

/-!
# What a commit takes from the turns

Turns that touch committed files are condensed into a checkpoint.  The functions here read what a
checkpoint needs from the turns of a session, and find the files of a turn that are left for a
later commit.  Git is asked for trees and for the hashes of files in them.
-/

namespace Bitloops
namespace PostCommit

open Checkpoints Interactions

/-! ## Paths -/

/-- `trim_start_matches("./")`. -/
def trimDotSlash : List Char → List Char
  | '.' :: '/' :: rest => trimDotSlash rest
  | text => text

def normalizedPath (path : String) : List Char :=
  let slashed := path.toList.map fun c => if c = '\\' then '/' else c
  ((trimDotSlash slashed).reverse.dropWhile (· = '/')).reverse

def isDirOrDescendant (path dir : List Char) : Bool :=
  path = dir || (dir ++ ['/']).isPrefixOf path

def isInfrastructurePath (path : String) : Bool :=
  let normalized := normalizedPath path
  [".bitloops-test-state", ".bitloops/stores", "stores"].any
      (fun dir => isDirOrDescendant normalized dir.toList) ||
    normalized = "config.toml".toList || normalized = ".bitloops.local.toml".toList

/-! ## Files left for a later commit -/

/-- What git says of trees. -/
structure GitTrees where
  hasTree : String → Bool
  fileHashInTree : String → String → Option String

def subtractFilesByName (filesTouched committedFiles : List String) : List String :=
  filesTouched.filter fun file => !isInfrastructurePath file && !committedFiles.contains file

/-- A committed file is left when the commit has another content than the session. -/
def isRemaining (git : GitTrees) (sessionTreeHash head : String) (committedFiles : List String)
    (filePath : String) : Bool :=
  if isInfrastructurePath filePath then false
  else if !committedFiles.contains filePath then true
  else
    match git.fileHashInTree sessionTreeHash filePath with
    | none => false
    | some sessionHash =>
      match git.fileHashInTree head filePath with
      | some commitHash => commitHash ≠ sessionHash
      | none => true

def filesWithRemainingAgentChangesFromTree (git : GitTrees) (sessionTreeHash : Option String)
    (head : String) (filesTouched committedFiles : List String) : List String :=
  if !git.hasTree head then subtractFilesByName filesTouched committedFiles
  else
    match sessionTreeHash.filter fun value => !isBlank value with
    | none => subtractFilesByName filesTouched committedFiles
    | some sessionTreeHash =>
      filesTouched.filter (isRemaining git sessionTreeHash head committedFiles)

/-! ## What a checkpoint needs -/

def turnOverlapsCommittedFiles (committedFiles : List String) (turn : InteractionTurn) : Bool :=
  turn.filesModified.any committedFiles.contains

def aggregateTurnFiles (turns : List InteractionTurn) : List String :=
  sortDedup (turns.flatMap fun turn => turn.filesModified.filter fun file => !isBlank file)

def aggregateTurnPrompts (turns : List InteractionTurn) : List String :=
  (turns.map fun turn => trimText turn.prompt).filter (· ≠ "")

def aggregateTurnTokenUsage (turns : List InteractionTurn) : Option TokenUsageMetadata :=
  turns.foldl (fun usage turn => aggregateTokenUsage usage turn.tokenUsage) none

def transcriptContent (turns : List InteractionTurn) : String :=
  String.join (turns.map (·.transcriptFragment))

def truncateRunes (text : String) (maxRunes : ℕ) (suffix : String) : String :=
  if text.length ≤ maxRunes then text
  else String.ofList (text.toList.take (maxRunes - suffix.length)) ++ suffix

def generateContextFromPrompts (prompts : List String) : String :=
  if prompts.isEmpty then ""
  else
    String.join ("# Session Context\n\n## User Prompts\n\n" ::
      prompts.zipIdx.map fun (prompt, i) =>
        "### Prompt " ++ (i + 1).repr ++ "\n\n" ++ truncateRunes prompt 500 "..." ++ "\n\n")

/-! ## Sessions -/

/-- The turns of each session, in the order of the sessions. -/
def turnsBySession (turns : List InteractionTurn) : List (String × List InteractionTurn) :=
  (sortDedup (turns.map (·.sessionId))).map fun sessionId =>
    (sessionId, turns.filter (·.sessionId = sessionId))

def sortTurns (turns : List InteractionTurn) : List InteractionTurn :=
  orderBy (fun turn => toLex (turn.turnNumber.toNat, toLex (turn.startedAt, turn.turnId))) turns

def contributingTurns (committedFiles : List String) (turns : List InteractionTurn) :
    List InteractionTurn :=
  (sortTurns turns).filter (turnOverlapsCommittedFiles committedFiles)

end PostCommit
end Bitloops
