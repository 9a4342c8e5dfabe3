import Bitloops.CommitHunks.Hunks
import Bitloops.Foundation.Decimals
import Bitloops.Foundation.Separators
import Bitloops.Foundation.TextLines
import Bitloops.Foundation.UniqueTable

/-!
# Ingesting LCOV reports

`parseLcovReport` reads a report line by line into the coverage of its files, and
`ingestLcovWithLookup` crosses the lines and branches of each file with the ranges of the artefacts
that a lookup gives for it.
-/

namespace Bitloops
namespace TestHarness

open CommitHunks (stripPrefix slashed)
open Decimals Separators TextLines
open LanguageAdapter (Text trim)

/-! ## Records -/

structure CoverageHitRecord where
  captureId : Text
  productionSymbolId : Text
  filePath : Text
  line : ℤ
  branchId : ℤ
  covered : Bool
  hitCount : ℤ
  deriving DecidableEq

structure CoverageDiagnosticRecord where
  diagnosticId : Text
  captureId : Text
  repoId : Text
  commitSha : Text
  path : Option Text
  line : Option ℕ
  severity : Text
  code : Text
  message : Text
  deriving DecidableEq

structure LcovBranchCoverage where
  line : ℤ
  branchId : ℤ
  hitCount : ℤ
  deriving DecidableEq

structure LcovFileCoverage where
  sourceFile : Text
  lineHits : UniqueTable (ℤ × ℤ) Prod.fst := .empty
  branches : List LcovBranchCoverage := []

/-- What the records of a capture have in common. -/
structure Capture where
  captureId : Text
  repoId : Text
  commitSha : Text

/-! ## Parsing -/

/-- `parse::<i64>`. -/
def parseInt64 (text : Text) : Option ℤ := parseSigned (-2 ^ 63) (2 ^ 63 - 1) text

/-- The nearest value of an `i64`. -/
def saturate (n : ℤ) : ℤ := max (-2 ^ 63) (min n (2 ^ 63 - 1))

/-- `block_no.saturating_mul(1000).saturating_add(branch_no)`. -/
def lcovBranchId (blockNo branchNo : ℤ) : ℤ := saturate (saturate (blockNo * 1000) + branchNo)

def normalizeLcovPath (path : Text) : Text := slashed (trim path)

/-- The line and its count; fields after them are not looked at. -/
def parseDa (trimmed da : Text) : Except Text (ℤ × ℤ) :=
  match splitAll [','] da with
  | lineNoRaw :: hitCountRaw :: _ =>
    match parseInt64 lineNoRaw, parseInt64 hitCountRaw with
    | some lineNo, some hitCount => .ok (lineNo, hitCount)
    | _, _ => .error ("unparseable DA values: '".toList ++ trimmed ++ "'".toList)
  | _ => .error ("malformed DA line: '".toList ++ trimmed ++ "'".toList)

/-- The line, the block, the branch and the text of the count. -/
def parseBrda (trimmed brda : Text) : Except Text (ℤ × ℤ × ℤ × Text) :=
  match splitAll [','] brda with
  | [lineNoRaw, blockNoRaw, branchNoRaw, taken] =>
    match parseInt64 lineNoRaw, parseInt64 blockNoRaw, parseInt64 branchNoRaw with
    | some lineNo, some blockNo, some branchNo => .ok (lineNo, blockNo, branchNo, taken)
    | _, _, _ => .error ("unparseable BRDA values: '".toList ++ trimmed ++ "'".toList)
  | _ => .error ("malformed BRDA line (expected 4 fields): '".toList ++ trimmed ++ "'".toList)

def takenCount (taken : Text) : ℤ := if taken = ['-'] then 0 else (parseInt64 taken).getD 0

structure LcovParse where
  files : List LcovFileCoverage := []
  diagnostics : List CoverageDiagnosticRecord := []
  current : Option LcovFileCoverage := none
  diagIdx : ℕ := 0

def LcovParse.makeDiag (capture : Capture) (state : LcovParse) (lineNum : ℕ) (sourceFile : Text)
    (message : Text) : LcovParse :=
  { state with
    diagnostics := state.diagnostics ++
      [{ diagnosticId := "diag:".toList ++ capture.captureId ++ ":parse:".toList ++
          Nat.toDigits 10 state.diagIdx
         captureId := capture.captureId
         repoId := capture.repoId
         commitSha := capture.commitSha
         path := some sourceFile
         line := some lineNum
         severity := "warning".toList
         code := "malformed_line".toList
         message := message }]
    diagIdx := state.diagIdx + 1 }

def parseLcovLine (capture : Capture) (state : LcovParse) (lineNum : ℕ) (line : Text) :
    LcovParse :=
  let trimmed := trim line
  match stripPrefix "SF:".toList trimmed with
  | some path =>
    { state with
      files := state.files ++ state.current.toList
      current := some { sourceFile := normalizeLcovPath path } }
  | none =>
    if trimmed = "end_of_record".toList then
      { state with files := state.files ++ state.current.toList, current := none }
    else
      match state.current with
      | none => state
      | some active =>
        match stripPrefix "DA:".toList trimmed with
        | some da =>
          match parseDa trimmed da with
          | .error message => state.makeDiag capture lineNum active.sourceFile message
          | .ok hit =>
            { state with current := some { active with lineHits := active.lineHits.upsert hit } }
        | none =>
          match stripPrefix "BRDA:".toList trimmed with
          | some brda =>
            match parseBrda trimmed brda with
            | .error message => state.makeDiag capture lineNum active.sourceFile message
            | .ok (lineNo, blockNo, branchNo, taken) =>
              { state with
                current := some
                  { active with
                    branches := active.branches ++
                      [⟨lineNo, lcovBranchId blockNo branchNo, takenCount taken⟩] } }
          | none => state

/-- The lines from a line number on. -/
def parseLcovLines (capture : Capture) : LcovParse → ℕ → List Text → LcovParse
  | state, _, [] => state
  | state, lineNum, line :: lines =>
    parseLcovLines capture (parseLcovLine capture state lineNum line) (lineNum + 1) lines

inductive LcovError (ε : Type) where
  | noRecords (lcovPath : Text)
  | lookup (error : ε)

/-- `raw` is the text of the file. -/
def parseLcovReport {ε : Type} (capture : Capture) (lcovPath raw : Text) :
    Except (LcovError ε) (List LcovFileCoverage × List CoverageDiagnosticRecord) :=
  let state := parseLcovLines capture {} 1 (textLines raw)
  let files := state.files ++ state.current.toList
  if files = [] then .error (.noRecords lcovPath) else .ok (files, state.diagnostics)

/-! ## Ingesting -/

/-- An artefact with its first and its last line. -/
structure Artefact where
  symbolId : Text
  startLine : ℤ
  endLine : ℤ
  deriving DecidableEq

def Artefact.covers (artefact : Artefact) (line : ℤ) : Bool :=
  artefact.startLine ≤ line ∧ line ≤ artefact.endLine

def artefactHits (capture : Capture) (file : LcovFileCoverage) (artefact : Artefact) :
    List CoverageHitRecord :=
  (file.lineHits.rows.filter fun hit => artefact.covers hit.1).map (fun hit =>
    { captureId := capture.captureId
      productionSymbolId := artefact.symbolId
      filePath := file.sourceFile
      line := hit.1
      branchId := -1
      covered := hit.2 > 0
      hitCount := hit.2 }) ++
  (file.branches.filter fun branch => artefact.covers branch.line).map fun branch =>
    { captureId := capture.captureId
      productionSymbolId := artefact.symbolId
      filePath := file.sourceFile
      line := branch.line
      branchId := branch.branchId
      covered := branch.hitCount > 0
      hitCount := branch.hitCount }

def unmappedDiagnostic (capture : Capture) (diagIdx : ℕ) (sourceFile : Text) :
    CoverageDiagnosticRecord where
  diagnosticId := "diag:".toList ++ capture.captureId ++ ":unmapped:".toList ++
    Nat.toDigits 10 diagIdx
  captureId := capture.captureId
  repoId := capture.repoId
  commitSha := capture.commitSha
  path := some sourceFile
  line := none
  severity := "warning".toList
  code := "unmapped_file".toList
  message := "coverage file '".toList ++ sourceFile ++
    "' has no matching production artefacts".toList

variable {ε : Type}

def ingestLcovFiles (capture : Capture) (loadArtefacts : Text → Except ε (List Artefact)) :
    List CoverageHitRecord → List CoverageDiagnosticRecord → ℕ → List LcovFileCoverage →
      Except (LcovError ε) (List CoverageHitRecord × List CoverageDiagnosticRecord)
  | hits, diagnostics, _, [] => .ok (hits, diagnostics)
  | hits, diagnostics, diagIdx, file :: files =>
    match loadArtefacts file.sourceFile with
    | .error error => .error (.lookup error)
    | .ok artefacts =>
      if artefacts = [] then
        ingestLcovFiles capture loadArtefacts hits
          (diagnostics ++ [unmappedDiagnostic capture diagIdx file.sourceFile]) (diagIdx + 1) files
      else
        ingestLcovFiles capture loadArtefacts
          (hits ++ artefacts.flatMap (artefactHits capture file)) diagnostics diagIdx files

def ingestLcovWithLookup (capture : Capture) (lcovPath raw : Text)
    (loadArtefacts : Text → Except ε (List Artefact)) :
    Except (LcovError ε) (List CoverageHitRecord × List CoverageDiagnosticRecord) := do
  let (report, diagnostics) ← parseLcovReport capture lcovPath raw
  ingestLcovFiles capture loadArtefacts [] diagnostics diagnostics.length report

end TestHarness
end Bitloops
