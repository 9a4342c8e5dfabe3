import Bitloops.TestHarness.Lcov
import Mathlib

/-!
# What LCOV reports say

The lines of a report, the records that they make up, and the hits that the entries of a file yield
together.  `coverages_eq` and `diagnosed_eq` say what the parser makes of the same lines.
-/

namespace Bitloops
namespace TestHarness

open CommitHunks (stripPrefix)
open LanguageAdapter (Text trim)
open TextLines UniqueTable

theorem lawfulBEq_text : LawfulBEq Text := inferInstance

attribute [local instance] lawfulBEq_text

/-! ## Lines -/

/-- What an entry counts. -/
inductive Spot where
  | line (lineNo : ℤ)
  | branch (lineNo blockNo branchNo : ℤ)
  deriving DecidableEq

def Spot.lineNo : Spot → ℤ
  | .line lineNo => lineNo
  | .branch lineNo _ _ => lineNo

def Spot.branchId : Spot → ℤ
  | .line _ => -1
  | .branch _ blockNo branchNo => lcovBranchId blockNo branchNo

def Spot.isLine : Spot → Bool
  | .line _ => true
  | .branch _ _ _ => false

structure Entry where
  spot : Spot
  count : ℤ
  deriving DecidableEq

/-- A malformed entry may be well formed up to its count. -/
inductive LineKind where
  | sourceFile (path : Text)
  | endOfRecord
  | entry (entry : Entry)
  | malformed (countless : Option Spot)
  | other
  deriving DecidableEq

def classify (line : Text) : LineKind :=
  let trimmed := trim line
  match stripPrefix "SF:".toList trimmed with
  | some path => .sourceFile (normalizeLcovPath path)
  | none =>
    if trimmed = "end_of_record".toList then .endOfRecord
    else
      match stripPrefix "DA:".toList trimmed with
      | some da =>
        match parseDa trimmed da with
        | .error _ => .malformed none
        | .ok (lineNo, hitCount) => .entry ⟨.line lineNo, hitCount⟩
      | none =>
        match stripPrefix "BRDA:".toList trimmed with
        | some brda =>
          match parseBrda trimmed brda with
          | .error _ => .malformed none
          | .ok (lineNo, blockNo, branchNo, taken) =>
            if taken = ['-'] then .entry ⟨.branch lineNo blockNo branchNo, 0⟩
            else
              match parseInt64 taken with
              | some count => .entry ⟨.branch lineNo blockNo branchNo, count⟩
              | none => .malformed (some (.branch lineNo blockNo branchNo))
        | none => .other

/-- The well-formed entry of a line. -/
def LineKind.entry? : LineKind → Option Entry
  | .entry e => some e
  | _ => none

/-- The entry that the parser takes from a line. -/
def LineKind.taken : LineKind → Option Entry
  | .entry e => some e
  | .malformed countless => countless.map fun spot => ⟨spot, 0⟩
  | _ => none

structure ReadLine where
  lineNum : ℕ
  inRecord : Bool
  kind : LineKind
  deriving DecidableEq

def LineKind.inRecord (inRecord : Bool) : LineKind → Bool
  | .sourceFile _ => true
  | .endOfRecord => false
  | _ => inRecord

/-- The lines with their numbers, and whether they stand in a record. -/
def readLines : ℕ → Bool → List Text → List ReadLine
  | _, _, [] => []
  | lineNum, inRecord, line :: lines =>
    ⟨lineNum, inRecord, classify line⟩ ::
      readLines (lineNum + 1) ((classify line).inRecord inRecord) lines

def ReadLine.isMalformed (line : ReadLine) : Bool :=
  match line.kind with
  | .malformed _ => true
  | _ => false

/-- The lines that the parser reports. -/
def ReadLine.isDiagnosed (line : ReadLine) : Bool := line.inRecord && line.kind = .malformed none

/-! ## Records -/

structure LcovRecord where
  file : Text
  entries : List Entry := []

/-- The records that the lines make up; `reads` says which entry a line gives. -/
def recordsFrom (reads : LineKind → Option Entry) :
    Option LcovRecord → List LineKind → List LcovRecord
  | current, [] => current.toList
  | current, kind :: kinds =>
    match kind with
    | .sourceFile path => current.toList ++ recordsFrom reads (some { file := path }) kinds
    | .endOfRecord => current.toList ++ recordsFrom reads none kinds
    | kind =>
      recordsFrom reads
        (current.map fun record =>
          { record with entries := record.entries ++ (reads kind).toList }) kinds

section Equations

variable {reads : LineKind → Option Entry} {current : Option LcovRecord} {kinds : List LineKind}

theorem recordsFrom_sourceFile {path : Text} :
    recordsFrom reads current (.sourceFile path :: kinds) =
      current.toList ++ recordsFrom reads (some { file := path }) kinds := rfl

theorem recordsFrom_endOfRecord :
    recordsFrom reads current (.endOfRecord :: kinds) =
      current.toList ++ recordsFrom reads none kinds := rfl

theorem recordsFrom_entry {entry : Entry} :
    recordsFrom reads current (.entry entry :: kinds) =
      recordsFrom reads (current.map fun record =>
        { record with entries := record.entries ++ (reads (.entry entry)).toList }) kinds := rfl

theorem recordsFrom_malformed {countless : Option Spot} :
    recordsFrom reads current (.malformed countless :: kinds) =
      recordsFrom reads (current.map fun record =>
        { record with
          entries := record.entries ++ (reads (.malformed countless)).toList }) kinds := rfl

theorem recordsFrom_other :
    recordsFrom reads current (.other :: kinds) =
      recordsFrom reads (current.map fun record =>
        { record with entries := record.entries ++ (reads .other).toList }) kinds := rfl

end Equations

def records (raw : Text) : List LcovRecord :=
  recordsFrom LineKind.entry? none ((textLines raw).map classify)

/-- The counts of a spot in a record. -/
def LcovRecord.counts (record : LcovRecord) (spot : Spot) : List ℤ :=
  (record.entries.filter fun entry => entry.spot = spot).map Entry.count

/-! ## The reference -/

section Reference

variable {ε : Type} (lookup : Text → Except ε (List Artefact))

def artefactsOf (file : Text) : List Artefact :=
  match lookup file with
  | .ok artefacts => artefacts
  | .error _ => []

/-- The artefacts around a line, each as often as it is listed. -/
def symbolsAt (file : Text) (lineNo : ℤ) : List Text :=
  ((artefactsOf lookup file).filter fun artefact => artefact.covers lineNo).map Artefact.symbolId

def spotsOf (records : List LcovRecord) (file : Text) : List Spot :=
  (records.filter fun record => record.file = file).flatMap fun record =>
    record.entries.map Entry.spot

/-- All counts of a spot of a file. -/
def countsOf (records : List LcovRecord) (file : Text) (spot : Spot) : List ℤ :=
  (records.filter fun record => record.file = file).flatMap fun record => record.counts spot

def spotHit (capture : Capture) (file symbolId : Text) (spot : Spot) (counts : List ℤ) :
    CoverageHitRecord where
  captureId := capture.captureId
  productionSymbolId := symbolId
  filePath := file
  line := spot.lineNo
  branchId := spot.branchId
  covered := counts.any fun count => count > 0
  hitCount := counts.sum

/-- One hit for each file, artefact, and line or branch. -/
def referenceHits (capture : Capture) (records : List LcovRecord) : List CoverageHitRecord :=
  (records.map LcovRecord.file).dedup.flatMap fun file =>
    ((artefactsOf lookup file).map Artefact.symbolId).dedup.flatMap fun symbolId =>
      ((spotsOf records file).dedup.filter fun spot =>
        symbolId ∈ symbolsAt lookup file spot.lineNo).map fun spot =>
          spotHit capture file symbolId spot (countsOf records file spot)

/-- A hit is stored under its symbol, line and branch. -/
def CoverageHitRecord.key (hit : CoverageHitRecord) : Text × ℤ × ℤ :=
  (hit.productionSymbolId, hit.line, hit.branchId)

def malformedLines (raw : Text) : List ℕ :=
  ((readLines 1 false (textLines raw)).filter ReadLine.isMalformed).map ReadLine.lineNum

/-- The hits are those of the reference, and each malformed entry has its diagnostic. -/
structure Yields (capture : Capture) (raw : Text) (hits : List CoverageHitRecord)
    (diagnostics : List CoverageDiagnosticRecord) : Prop where
  perm : hits.Perm (referenceHits lookup capture (records raw))
  unique : (hits.map CoverageHitRecord.key).Nodup
  reported : (diagnostics.filter fun diagnostic =>
    diagnostic.code = "malformed_line".toList).map CoverageDiagnosticRecord.line =
      (malformedLines raw).map some

/-! ## Reports without surprises -/

/-- The lines of a record, and its branches as often as they are listed. -/
def LcovRecord.spots (record : LcovRecord) : List Spot :=
  ((record.entries.map Entry.spot).filter Spot.isLine).dedup ++
    (record.entries.map Entry.spot).filter fun spot => !spot.isLine

def placedSpots (records : List LcovRecord) : List (Text × Spot) :=
  records.flatMap fun record => record.spots.map fun spot => (record.file, spot)

/-- Two spots of the same line and number have no artefact in common. -/
def Apart (p q : Text × Spot) : Prop :=
  p.2.lineNo = q.2.lineNo → p.2.branchId = q.2.branchId →
    (symbolsAt lookup p.1 p.2.lineNo).Disjoint (symbolsAt lookup q.1 q.2.lineNo)

/-- Malformed entries stand in records, and not in their counts alone.  The lines and branches that
artefacts cover are listed once, and up to its last entry a line has no hits. -/
structure Clean (raw : Text) : Prop where
  reported : ∀ line ∈ readLines 1 false (textLines raw), line.isMalformed = true →
    line.inRecord = true ∧ line.kind = .malformed none
  apart : (placedSpots (records raw)).Pairwise (Apart lookup)
  once : ∀ p ∈ placedSpots (records raw), (symbolsAt lookup p.1 p.2.lineNo).Nodup
  last : ∀ record ∈ records raw, ∀ lineNo, symbolsAt lookup record.file lineNo ≠ [] →
    ∀ counts last, record.counts (.line lineNo) = counts ++ [last] →
      counts.sum = 0 ∧ ((∃ count ∈ counts, 0 < count) → 0 < last)

end Reference

/-! ## What the parser makes of the lines -/

/-- A file after an entry. -/
def LcovFileCoverage.push (file : LcovFileCoverage) : Option Entry → LcovFileCoverage
  | none => file
  | some ⟨.line lineNo, count⟩ => { file with lineHits := file.lineHits.upsert (lineNo, count) }
  | some ⟨.branch lineNo blockNo branchNo, count⟩ =>
    { file with
      branches := file.branches ++ [⟨lineNo, lcovBranchId blockNo branchNo, count⟩] }

def coverageOf (record : LcovRecord) : LcovFileCoverage :=
  record.entries.foldl (fun file entry => file.push (some entry)) { sourceFile := record.file }

variable {capture : Capture} {state : LcovParse} {lineNum : ℕ} {line : Text}

/-- **What a line does.** -/
theorem parseLcovLine_eq (capture : Capture) (state : LcovParse) (lineNum : ℕ) (line : Text) :
    ∃ message, parseLcovLine capture state lineNum line =
      match classify line with
      | .sourceFile path =>
        { state with
          files := state.files ++ state.current.toList
          current := some { sourceFile := path } }
      | .endOfRecord => { state with files := state.files ++ state.current.toList, current := none }
      | .malformed none =>
        state.current.elim state fun active =>
          state.makeDiag capture lineNum active.sourceFile message
      | kind => { state with current := state.current.map fun active => active.push kind.taken } := by
  unfold parseLcovLine classify
  dsimp only
  cases stripPrefix "SF:".toList (trim line) with
  | some path => exact ⟨[], rfl⟩
  | none =>
    dsimp only
    by_cases hend : trim line = "end_of_record".toList
    · rw [if_pos hend, if_pos hend]
      exact ⟨[], rfl⟩
    · rw [if_neg hend, if_neg hend]
      cases stripPrefix "DA:".toList (trim line) with
      | some da =>
        dsimp only
        cases parseDa (trim line) da with
        | error message =>
          refine ⟨message, ?_⟩
          cases state.current <;> rfl
        | ok hit =>
          refine ⟨[], ?_⟩
          obtain ⟨files, diagnostics, _ | active, diagIdx⟩ := state <;> rfl
      | none =>
        cases stripPrefix "BRDA:".toList (trim line) with
        | none =>
          refine ⟨[], ?_⟩
          obtain ⟨files, diagnostics, _ | active, diagIdx⟩ := state <;> rfl
        | some brda =>
          dsimp only
          cases parseBrda (trim line) brda with
          | error message =>
            refine ⟨message, ?_⟩
            cases state.current <;> rfl
          | ok fields =>
            obtain ⟨lineNo, blockNo, branchNo, taken⟩ := fields
            refine ⟨[], ?_⟩
            dsimp only
            by_cases hdash : taken = ['-']
            · have hcount : takenCount taken = 0 := if_pos hdash
              rw [if_pos hdash]
              obtain ⟨files, diagnostics, _ | active, diagIdx⟩ := state
              · rfl
              · dsimp only
                rw [hcount]
                rfl
            · rw [if_neg hdash]
              cases hcount : parseInt64 taken with
              | none =>
                have hzero : takenCount taken = 0 := by
                  rw [takenCount, if_neg hdash, hcount, Option.getD_none]
                obtain ⟨files, diagnostics, _ | active, diagIdx⟩ := state
                · rfl
                · dsimp only
                  rw [hzero]
                  rfl
              | some count =>
                have hsame : takenCount taken = count := by
                  rw [takenCount, if_neg hdash, hcount, Option.getD_some]
                obtain ⟨files, diagnostics, _ | active, diagIdx⟩ := state
                · rfl
                · dsimp only
                  rw [hsame]
                  rfl

theorem coverageOf_push (record : LcovRecord) (entry : Option Entry) :
    coverageOf { record with entries := record.entries ++ entry.toList } =
      (coverageOf record).push entry := by
  cases entry with
  | none =>
    rw [Option.toList_none, List.append_nil]
    rfl
  | some entry => exact List.foldl_append

theorem files_parseLcovLines (capture : Capture) {lines : List Text} :
    ∀ {state : LcovParse} {lineNum : ℕ} {current : Option LcovRecord},
      state.current = current.map coverageOf →
        (parseLcovLines capture state lineNum lines).files ++
            (parseLcovLines capture state lineNum lines).current.toList =
          state.files ++
            (recordsFrom LineKind.taken current (lines.map classify)).map coverageOf := by
  have htoList : ∀ current : Option LcovRecord,
      (current.map coverageOf).toList = current.toList.map coverageOf := by
    rintro (_ | record) <;> rfl
  induction lines with
  | nil =>
    intro state lineNum current hcurrent
    rw [parseLcovLines, List.map_nil, recordsFrom, hcurrent, htoList]
  | cons line lines ih =>
    intro state lineNum current hcurrent
    obtain ⟨message, hline⟩ := parseLcovLine_eq capture state lineNum line
    have hpush : ∀ entry, state.current.map (fun active => active.push entry) =
        (current.map fun record =>
          { record with entries := record.entries ++ entry.toList }).map coverageOf := by
      intro entry
      rw [hcurrent, Option.map_map, Option.map_map]
      exact Option.map_congr fun record _ => (coverageOf_push record entry).symm
    rw [parseLcovLines, List.map_cons]
    cases hkind : classify line with
    | sourceFile path =>
      rw [hkind] at hline
      have hnew : (parseLcovLine capture state lineNum line).current =
          (some { file := path : LcovRecord }).map coverageOf := by
        rw [hline]
        rfl
      rw [ih hnew, hline, recordsFrom_sourceFile, List.map_append, ← List.append_assoc, ← htoList,
        ← hcurrent]
    | endOfRecord =>
      rw [hkind] at hline
      have hnew : (parseLcovLine capture state lineNum line).current =
          (none : Option LcovRecord).map coverageOf := by
        rw [hline]
        rfl
      rw [ih hnew, hline, recordsFrom_endOfRecord, List.map_append, ← List.append_assoc, ← htoList,
        ← hcurrent]
    | entry e =>
      rw [hkind] at hline
      rw [ih (by rw [hline]; exact hpush _), hline, recordsFrom_entry]
    | other =>
      rw [hkind] at hline
      rw [ih (by rw [hline]; exact hpush _), hline, recordsFrom_other]
    | malformed countless =>
      rw [hkind] at hline
      rw [recordsFrom_malformed]
      cases countless with
      | some spot => rw [ih (by rw [hline]; exact hpush _), hline]
      | none =>
        have hsame : (parseLcovLine capture state lineNum line).current = state.current ∧
            (parseLcovLine capture state lineNum line).files = state.files := by
          rw [hline]
          dsimp only
          rcases hactive : state.current with _ | active
          · exact ⟨hactive, rfl⟩
          · exact ⟨hactive, rfl⟩
        have hnew : state.current = (current.map fun record =>
            { record with entries := record.entries ++ [] }).map coverageOf := by
          simpa using hcurrent
        rw [ih (hsame.1.trans hnew), hsame.2]
        rfl

theorem lines_parseLcovLines (capture : Capture) {lines : List Text} :
    ∀ (inRecord : Bool) {state : LcovParse} {lineNum : ℕ}, state.current.isSome = inRecord →
      ((parseLcovLines capture state lineNum lines).diagnostics.filter fun diagnostic =>
          diagnostic.code = "malformed_line".toList).map CoverageDiagnosticRecord.line =
        (state.diagnostics.filter fun diagnostic =>
            diagnostic.code = "malformed_line".toList).map CoverageDiagnosticRecord.line ++
          ((readLines lineNum inRecord lines).filter ReadLine.isDiagnosed).map fun line =>
            some line.lineNum := by
  induction lines with
  | nil =>
    intro inRecord state lineNum _
    exact (List.append_nil _).symm
  | cons line lines ih =>
    intro inRecord state lineNum hrecord
    obtain ⟨message, hline⟩ := parseLcovLine_eq capture state lineNum line
    rw [parseLcovLines, readLines]
    cases hkind : classify line with
    | sourceFile path =>
      rw [hkind] at hline
      rw [ih true (by rw [hline]; rfl), hline]
      simp [ReadLine.isDiagnosed, LineKind.inRecord]
    | endOfRecord =>
      rw [hkind] at hline
      rw [ih false (by rw [hline]; rfl), hline]
      simp [ReadLine.isDiagnosed, LineKind.inRecord]
    | entry e =>
      rw [hkind] at hline
      rw [ih inRecord (by rw [hline]; simpa using hrecord), hline]
      simp [ReadLine.isDiagnosed, LineKind.inRecord]
    | other =>
      rw [hkind] at hline
      rw [ih inRecord (by rw [hline]; simpa using hrecord), hline]
      simp [ReadLine.isDiagnosed, LineKind.inRecord]
    | malformed countless =>
      rw [hkind] at hline
      cases countless with
      | some spot =>
        rw [ih inRecord (by rw [hline]; simpa using hrecord), hline]
        simp [ReadLine.isDiagnosed, LineKind.inRecord]
      | none =>
        cases hcurrent : state.current with
        | none =>
          rw [hcurrent] at hline hrecord
          rw [ih inRecord (by rw [hline]; simpa [hcurrent] using hrecord), hline]
          simp [ReadLine.isDiagnosed, LineKind.inRecord, ← hrecord]
        | some active =>
          rw [hcurrent] at hline hrecord
          rw [ih inRecord (by
            rw [hline]
            simpa [LcovParse.makeDiag, hcurrent] using hrecord), hline]
          simp [ReadLine.isDiagnosed, LineKind.inRecord, ← hrecord, LcovParse.makeDiag]

end TestHarness
end Bitloops
