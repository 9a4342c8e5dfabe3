import Bitloops.Foundation.PartByPart
import Bitloops.TestHarness.LcovReference
import Mathlib.Data.List.Count
import Mathlib.Data.List.Pairwise

/-!
# The ingest and its reference

The hits of the ingest, one for each pair of a reading of a file and an artefact around it, and the
reports for which they are those of the reference: `lcov_ingest_iff`.
-/

namespace Bitloops
namespace TestHarness

open LanguageAdapter (Text)
open TextLines UniqueTable

variable {ε : Type} {capture : Capture} {lookup : Text → Except ε (List Artefact)}

/-! ## The files one after the other -/

def fileHits (capture : Capture) (lookup : Text → Except ε (List Artefact))
    (file : LcovFileCoverage) : List CoverageHitRecord :=
  (artefactsOf lookup file.sourceFile).flatMap (artefactHits capture file)

theorem ingestLcovFiles_eq_ok {files : List LcovFileCoverage} {hits hits' : List CoverageHitRecord}
    {diagnostics diagnostics' : List CoverageDiagnosticRecord} {diagIdx : ℕ}
    (h : ingestLcovFiles capture lookup hits diagnostics diagIdx files =
      .ok (hits', diagnostics')) :
    hits' = hits ++ files.flatMap (fileHits capture lookup) ∧
      (diagnostics'.filter fun diagnostic => diagnostic.code = "malformed_line".toList) =
        diagnostics.filter fun diagnostic => diagnostic.code = "malformed_line".toList := by
  induction files generalizing hits diagnostics diagIdx with
  | nil =>
    rw [ingestLcovFiles] at h
    obtain ⟨rfl, rfl⟩ := Prod.mk.inj (Except.ok.inj h)
    exact ⟨(List.append_nil _).symm, rfl⟩
  | cons file files ih =>
    rw [ingestLcovFiles] at h
    cases hlookup : lookup file.sourceFile with
    | error error =>
      rw [hlookup] at h
      exact nomatch h
    | ok artefacts =>
      have hartefacts : artefactsOf lookup file.sourceFile = artefacts := by
        rw [artefactsOf, hlookup]
      rw [hlookup] at h
      dsimp only at h
      split_ifs at h with hnone
      · obtain ⟨hhits, hdiagnostics⟩ := ih h
        have hnothing : fileHits capture lookup file = [] := by
          rw [fileHits, hartefacts, hnone, List.flatMap_nil]
        have hcode : decide ((unmappedDiagnostic capture diagIdx file.sourceFile).code =
            "malformed_line".toList) = false := by
          show decide ("unmapped_file".toList = "malformed_line".toList) = false
          decide
        refine ⟨by rw [hhits, List.flatMap_cons, hnothing, List.nil_append], ?_⟩
        rw [hdiagnostics, List.filter_append, List.filter_singleton, hcode]
        exact List.append_nil _
      · obtain ⟨hhits, hdiagnostics⟩ := ih h
        refine ⟨?_, hdiagnostics⟩
        rw [hhits, List.flatMap_cons, fileHits, hartefacts, List.append_assoc]

theorem exists_error_of_ingestLcovFiles {files : List LcovFileCoverage}
    {hits : List CoverageHitRecord} {diagnostics : List CoverageDiagnosticRecord} {diagIdx : ℕ}
    {error : LcovError ε}
    (h : ingestLcovFiles capture lookup hits diagnostics diagIdx files = .error error) :
    ∃ file ∈ files, ∃ e, lookup file.sourceFile = .error e := by
  induction files generalizing hits diagnostics diagIdx with
  | nil => exact nomatch h
  | cons file files ih =>
    rw [ingestLcovFiles] at h
    cases hlookup : lookup file.sourceFile with
    | error e => exact ⟨file, List.mem_cons_self, e, hlookup⟩
    | ok artefacts =>
      rw [hlookup] at h
      dsimp only at h
      split_ifs at h
      all_goals
        obtain ⟨other, hother, herror⟩ := ih h
        exact ⟨other, List.mem_cons_of_mem _ hother, herror⟩

/-! ## The coverage of a record -/

theorem sourceFile_coverageOf (record : LcovRecord) :
    (coverageOf record).sourceFile = record.file := by
  obtain ⟨file, entries⟩ := record
  induction entries using List.reverseRecOn with
  | nil => rfl
  | append_singleton entries entry ih =>
    refine (congrArg LcovFileCoverage.sourceFile
      (coverageOf_push ⟨file, entries⟩ (some entry))).trans (Eq.trans ?_ ih)
    obtain ⟨_ | _, count⟩ := entry <;> rfl

def Entry.toBranch (entry : Entry) : Option LcovBranchCoverage :=
  match entry.spot with
  | .line _ => none
  | .branch lineNo blockNo branchNo => some ⟨lineNo, lcovBranchId blockNo branchNo, entry.count⟩

theorem branches_coverageOf (record : LcovRecord) :
    (coverageOf record).branches = record.entries.filterMap Entry.toBranch := by
  obtain ⟨file, entries⟩ := record
  induction entries using List.reverseRecOn with
  | nil => rfl
  | append_singleton entries entry ih =>
    rw [show (⟨file, entries ++ [entry]⟩ : LcovRecord) =
      { (⟨file, entries⟩ : LcovRecord) with entries := entries ++ (some entry).toList } from rfl,
      coverageOf_push ⟨file, entries⟩ (some entry), List.filterMap_append, ← ih]
    obtain ⟨_ | _, count⟩ := entry
    · exact (List.append_nil _).symm
    · rfl

/-- The table holds the last count of each line. -/
theorem mem_lineHits_coverageOf {record : LcovRecord} {lineNo count : ℤ} :
    (lineNo, count) ∈ (coverageOf record).lineHits.rows ↔
      (record.counts (.line lineNo)).getLast? = some count := by
  obtain ⟨file, entries⟩ := record
  induction entries using List.reverseRecOn with
  | nil => simp [coverageOf, LcovRecord.counts]
  | append_singleton entries entry ih =>
    rw [show (⟨file, entries ++ [entry]⟩ : LcovRecord) =
      { (⟨file, entries⟩ : LcovRecord) with entries := entries ++ (some entry).toList } from rfl,
      coverageOf_push ⟨file, entries⟩ (some entry)]
    obtain ⟨_ | _, last⟩ := entry
    · rename_i lineNo'
      rw [LcovFileCoverage.push, mem_upsert, ih]
      by_cases hsame : lineNo' = lineNo
      · subst hsame
        simp [LcovRecord.counts, List.filter_append, eq_comm]
      · have hother : lineNo ≠ lineNo' := fun heq => hsame heq.symm
        simp [LcovRecord.counts, List.filter_append, hsame, hother]
    · rw [LcovFileCoverage.push, ih]
      simp [LcovRecord.counts, List.filter_append]

/-! ## Readings -/

/-- A line or branch of a file with its number and its count. -/
structure Reading where
  lineNo : ℤ
  branchId : ℤ
  count : ℤ

def LcovFileCoverage.readings (file : LcovFileCoverage) : List Reading :=
  file.lineHits.rows.map (fun hit => ⟨hit.1, -1, hit.2⟩) ++
    file.branches.map fun branch => ⟨branch.line, branch.branchId, branch.hitCount⟩

def readingHit (capture : Capture) (file symbolId : Text) (reading : Reading) :
    CoverageHitRecord where
  captureId := capture.captureId
  productionSymbolId := symbolId
  filePath := file
  line := reading.lineNo
  branchId := reading.branchId
  covered := reading.count > 0
  hitCount := reading.count

theorem artefactHits_eq (capture : Capture) (file : LcovFileCoverage) (artefact : Artefact) :
    artefactHits capture file artefact =
      (file.readings.filter fun reading => artefact.covers reading.lineNo).map
        (readingHit capture file.sourceFile artefact.symbolId) := by
  rw [LcovFileCoverage.readings, List.filter_append, List.map_append, List.filter_map,
    List.filter_map, List.map_map, List.map_map]
  rfl

/-- What a record says of a spot: the last count of a line, every count of a branch. -/
def LcovRecord.Reads (record : LcovRecord) (spot : Spot) (count : ℤ) : Prop :=
  if spot.isLine then (record.counts spot).getLast? = some count else count ∈ record.counts spot

theorem mem_readings_coverageOf {record : LcovRecord} {reading : Reading} :
    reading ∈ (coverageOf record).readings ↔
      ∃ spot count, record.Reads spot count ∧
        reading = ⟨spot.lineNo, spot.branchId, count⟩ := by
  rw [LcovFileCoverage.readings, List.mem_append, List.mem_map, List.mem_map, branches_coverageOf]
  constructor
  · rintro (⟨⟨lineNo, count⟩, hmem, rfl⟩ | ⟨branch, hmem, rfl⟩)
    · exact ⟨.line lineNo, count, mem_lineHits_coverageOf.mp hmem, rfl⟩
    · obtain ⟨⟨_ | ⟨lineNo, blockNo, branchNo⟩, count⟩, hentry, hbranch⟩ :=
        List.mem_filterMap.mp hmem
      · exact nomatch hbranch
      · obtain rfl := Option.some.inj hbranch
        refine ⟨.branch lineNo blockNo branchNo, count, ?_, rfl⟩
        exact List.mem_map.mpr ⟨_, List.mem_filter.mpr ⟨hentry, decide_eq_true rfl⟩, rfl⟩
  · rintro ⟨_ | ⟨lineNo, blockNo, branchNo⟩, count, hreads, rfl⟩
    · exact Or.inl ⟨(_, count), mem_lineHits_coverageOf.mpr hreads, rfl⟩
    · obtain ⟨⟨spot, _⟩, hentry, rfl⟩ := List.mem_map.mp hreads
      obtain ⟨hentry, hspot⟩ := List.mem_filter.mp hentry
      obtain rfl := of_decide_eq_true hspot
      exact Or.inr ⟨_, List.mem_filterMap.mpr ⟨_, hentry, rfl⟩, rfl⟩

theorem counts_ne_nil_iff {record : LcovRecord} {spot : Spot} :
    record.counts spot ≠ [] ↔ spot ∈ record.entries.map Entry.spot := by
  rw [LcovRecord.counts, Ne, List.map_eq_nil_iff, List.filter_eq_nil_iff, List.mem_map]
  simp

theorem mem_spots_iff {record : LcovRecord} {spot : Spot} :
    spot ∈ record.spots ↔ spot ∈ record.entries.map Entry.spot := by
  rw [LcovRecord.spots, List.mem_append, List.mem_dedup, List.mem_filter, List.mem_filter]
  cases spot.isLine <;> simp

theorem mem_spots_of_reads {record : LcovRecord} {spot : Spot} {count : ℤ}
    (h : record.Reads spot count) : spot ∈ record.spots := by
  rw [mem_spots_iff, ← counts_ne_nil_iff]
  rintro hnil
  rw [LcovRecord.Reads, hnil] at h
  split_ifs at h
  · exact nomatch h
  · exact List.not_mem_nil h

theorem exists_reads {record : LcovRecord} {spot : Spot}
    (h : spot ∈ record.entries.map Entry.spot) : ∃ count, record.Reads spot count := by
  have hne := counts_ne_nil_iff.mpr h
  unfold LcovRecord.Reads
  split_ifs
  · exact ⟨_, List.getLast?_eq_some_getLast hne⟩
  · exact List.exists_mem_of_ne_nil _ hne

/-- The readings of a record are those of its spots, up to the counts. -/
theorem keys_readings_perm (record : LcovRecord) :
    ((coverageOf record).readings.map fun reading => (reading.lineNo, reading.branchId)).Perm
      (record.spots.map fun spot => (spot.lineNo, spot.branchId)) := by
  rw [LcovFileCoverage.readings, LcovRecord.spots, List.map_append, List.map_append, List.map_map,
    List.map_map]
  refine List.Perm.append ?_ (List.Perm.of_eq ?_)
  · have hlines : ((coverageOf record).lineHits.rows.map Prod.fst).Perm
        (((record.entries.map Entry.spot).filter Spot.isLine).dedup.map Spot.lineNo) := by
      refine (List.perm_ext_iff_of_nodup (coverageOf record).lineHits.unique ?_).mpr fun lineNo => ?_
      · refine List.Nodup.map_on ?_ (List.nodup_dedup _)
        intro spot hspot spot' hspot' heq
        have hline := (List.mem_filter.mp (List.mem_dedup.mp hspot)).2
        have hline' := (List.mem_filter.mp (List.mem_dedup.mp hspot')).2
        cases spot with
        | branch => exact nomatch hline
        | line lineNo =>
          cases spot' with
          | branch => exact nomatch hline'
          | line lineNo' => exact congrArg Spot.line heq
      · have hspot : lineNo ∈ (((record.entries.map Entry.spot).filter Spot.isLine).dedup.map
            Spot.lineNo) ↔ Spot.line lineNo ∈ record.entries.map Entry.spot := by
          simp only [List.mem_map (f := Spot.lineNo), List.mem_dedup, List.mem_filter]
          constructor
          · rintro ⟨_ | _, ⟨hmem, hline⟩, rfl⟩
            · exact hmem
            · exact nomatch hline
          · exact fun hmem => ⟨_, ⟨hmem, rfl⟩, rfl⟩
        rw [hspot, List.mem_map]
        constructor
        · rintro ⟨⟨_, count⟩, hmem, rfl⟩
          rw [← counts_ne_nil_iff]
          exact List.getLast?_isSome.mp (Option.isSome_of_mem (mem_lineHits_coverageOf.mp hmem))
        · intro hmem
          obtain ⟨count, hreads⟩ := exists_reads hmem
          exact ⟨(lineNo, count), mem_lineHits_coverageOf.mpr hreads, rfl⟩
    have hkeys := hlines.map fun lineNo => (lineNo, (-1 : ℤ))
    rw [List.map_map, List.map_map] at hkeys
    refine hkeys.trans (List.Perm.of_eq (List.map_congr_left fun spot hspot => ?_))
    have hline := (List.mem_filter.mp (List.mem_dedup.mp hspot)).2
    cases spot with
    | branch => exact nomatch hline
    | line lineNo => rfl
  · rw [branches_coverageOf]
    induction record.entries with
    | nil => rfl
    | cons entry entries ih =>
      obtain ⟨_ | ⟨lineNo, blockNo, branchNo⟩, count⟩ := entry
      · exact ih
      · exact congrArg (List.cons (lineNo, lcovBranchId blockNo branchNo)) ih

/-! ## The keys of the hits -/

variable {rs : List LcovRecord}

/-- The hits of the records. -/
def recordHits (capture : Capture) (lookup : Text → Except ε (List Artefact))
    (rs : List LcovRecord) : List CoverageHitRecord :=
  (rs.map coverageOf).flatMap (fileHits capture lookup)

def spotKeys (lookup : Text → Except ε (List Artefact)) (p : Text × Spot) :
    List (Text × ℤ × ℤ) :=
  (symbolsAt lookup p.1 p.2.lineNo).map fun symbolId => (symbolId, p.2.lineNo, p.2.branchId)

theorem keys_fileHits_perm (capture : Capture) (lookup : Text → Except ε (List Artefact))
    (record : LcovRecord) :
    ((fileHits capture lookup (coverageOf record)).map CoverageHitRecord.key).Perm
      (record.spots.flatMap fun spot => spotKeys lookup (record.file, spot)) := by
  have hkeys : (fileHits capture lookup (coverageOf record)).map CoverageHitRecord.key =
      (artefactsOf lookup record.file).flatMap fun artefact =>
        (((coverageOf record).readings.map fun reading =>
          (reading.lineNo, reading.branchId)).filter fun key => artefact.covers key.1).map
            fun key => (artefact.symbolId, key) := by
    rw [fileHits, List.map_flatMap, sourceFile_coverageOf]
    refine List.flatMap_congr fun artefact _ => ?_
    rw [artefactHits_eq, List.filter_map, List.map_map, List.map_map]
    rfl
  rw [hkeys]
  refine (PartByPart.flatMap_filter_perm _ _
    (fun (artefact : Artefact) (key : ℤ × ℤ) => artefact.covers key.1)
    fun artefact key => (artefact.symbolId, key)).trans ?_
  refine ((keys_readings_perm record).flatMap_right _).trans (List.Perm.of_eq ?_)
  rw [List.flatMap_map]
  refine List.flatMap_congr fun spot _ => ?_
  rw [spotKeys, symbolsAt, List.map_map]
  rfl

/-- The keys of the hits, spot by spot. -/
theorem keys_recordHits_perm (capture : Capture) (lookup : Text → Except ε (List Artefact))
    (rs : List LcovRecord) :
    ((recordHits capture lookup rs).map CoverageHitRecord.key).Perm
      ((placedSpots rs).flatMap (spotKeys lookup)) := by
  induction rs with
  | nil => exact .nil
  | cons record rs ih =>
    have hplaced : (placedSpots (record :: rs)).flatMap (spotKeys lookup) =
        (record.spots.flatMap fun spot => spotKeys lookup (record.file, spot)) ++
          (placedSpots rs).flatMap (spotKeys lookup) := by
      rw [placedSpots, List.flatMap_cons, List.flatMap_append, List.flatMap_map]
      rfl
    rw [hplaced]
    rw [recordHits, List.map_cons, List.flatMap_cons, List.map_append]
    exact (keys_fileHits_perm capture lookup record).append ih

theorem disjoint_spotKeys_iff {p q : Text × Spot} :
    (spotKeys lookup p).Disjoint (spotKeys lookup q) ↔ Apart lookup p q := by
  constructor
  · intro h hline hbranch symbolId hp hq
    refine h (List.mem_map_of_mem hp) ?_
    rw [hline, hbranch]
    exact List.mem_map_of_mem hq
  · intro h key hp hq
    obtain ⟨symbolId, hmem, rfl⟩ := List.mem_map.mp hp
    obtain ⟨symbolId', hmem', heq⟩ := List.mem_map.mp hq
    obtain ⟨hsymbol, hplace⟩ := Prod.mk.inj heq
    obtain ⟨hline, hbranch⟩ := Prod.mk.inj hplace
    exact h hline.symm hbranch.symm hmem (hsymbol ▸ hmem')

/-- **When no two hits share a key.** -/
theorem nodup_keys_iff :
    ((recordHits capture lookup rs).map CoverageHitRecord.key).Nodup ↔
      (placedSpots rs).Pairwise (Apart lookup) ∧
        ∀ p ∈ placedSpots rs, (symbolsAt lookup p.1 p.2.lineNo).Nodup := by
  have hinj : ∀ p : Text × Spot, (spotKeys lookup p).Nodup ↔
      (symbolsAt lookup p.1 p.2.lineNo).Nodup := fun p =>
    List.nodup_map_iff fun _ _ heq => (Prod.mk.inj heq).1
  rw [(keys_recordHits_perm capture lookup rs).nodup_iff, List.nodup_flatMap, and_comm]
  refine and_congr (Iff.of_eq (congrArg (fun R => (placedSpots rs).Pairwise R) ?_)) ?_
  · funext p q
    exact propext disjoint_spotKeys_iff
  · exact forall₂_congr fun p _ => hinj p

/-! ## One record for each spot -/

theorem mem_placedSpots {file : Text} {spot : Spot} :
    (file, spot) ∈ placedSpots rs ↔ ∃ record ∈ rs, record.file = file ∧ spot ∈ record.spots := by
  simp [placedSpots, and_comm]

theorem count_placedSpots_append (first rest : List LcovRecord) (p : Text × Spot) :
    (placedSpots (first ++ rest)).count p =
      (placedSpots first).count p + (placedSpots rest).count p := by
  rw [placedSpots, List.flatMap_append, List.count_append]
  rfl

theorem count_placedSpots_cons (record : LcovRecord) (rest : List LcovRecord) (spot : Spot) :
    (placedSpots (record :: rest)).count (record.file, spot) =
      record.spots.count spot + (placedSpots rest).count (record.file, spot) := by
  have hinj : Function.Injective fun spot : Spot => (record.file, spot) :=
    fun _ _ heq => (Prod.mk.inj heq).2
  rw [placedSpots, List.flatMap_cons, List.count_append, List.count_map_of_injective _ _ hinj]
  rfl

theorem countsOf_eq_nil {file : Text} {spot : Spot} (h : (file, spot) ∉ placedSpots rs) :
    countsOf rs file spot = [] := by
  rw [countsOf, List.flatMap_eq_nil_iff]
  intro record hrecord
  obtain ⟨hmem, hfile⟩ := List.mem_filter.mp hrecord
  by_contra hne
  refine h (mem_placedSpots.mpr ⟨record, hmem, of_decide_eq_true hfile, ?_⟩)
  exact mem_spots_iff.mpr (counts_ne_nil_iff.mp hne)

/-- A spot that artefacts cover has its counts in one record. -/
theorem countsOf_eq_counts (hapart : (placedSpots rs).Pairwise (Apart lookup))
    {record : LcovRecord} (hrecord : record ∈ rs) {spot : Spot} (hspot : spot ∈ record.spots)
    (hcovered : symbolsAt lookup record.file spot.lineNo ≠ []) :
    countsOf rs record.file spot = record.counts spot ∧ record.spots.count spot = 1 := by
  obtain ⟨first, rest, rfl⟩ := List.append_of_mem hrecord
  have hself : ¬ Apart lookup (record.file, spot) (record.file, spot) := by
    intro h
    obtain ⟨symbolId, hsymbol⟩ := List.exists_mem_of_ne_nil _ hcovered
    exact h rfl rfl hsymbol hsymbol
  have hone := PartByPart.count_le_one_of_pairwise hapart hself
  rw [count_placedSpots_append, count_placedSpots_cons] at hone
  have hmem := List.count_pos_iff.mpr hspot
  have hfirst : countsOf first record.file spot = [] :=
    countsOf_eq_nil (List.count_eq_zero.mp (by omega))
  have hrest : countsOf rest record.file spot = [] :=
    countsOf_eq_nil (List.count_eq_zero.mp (by omega))
  refine ⟨?_, by omega⟩
  have hsplit : countsOf (first ++ record :: rest) record.file spot =
      countsOf first record.file spot ++ (record.counts spot ++
        countsOf rest record.file spot) := by
    rw [countsOf, List.filter_append, List.flatMap_append, List.filter_cons,
      if_pos (decide_eq_true rfl), List.flatMap_cons]
    rfl
  rw [hsplit, hfirst, hrest, List.nil_append, List.append_nil]

/-- A branch that stands in a record once has one count there. -/
theorem length_counts_of_count {record : LcovRecord} {spot : Spot} (hbranch : spot.isLine = false)
    (hone : record.spots.count spot = 1) : (record.counts spot).length = 1 := by
  have hlines : ((record.entries.map Entry.spot).filter Spot.isLine).dedup.count spot = 0 := by
    rw [List.count_eq_zero, List.mem_dedup, List.mem_filter, hbranch]
    exact fun h => Bool.false_ne_true h.2
  rw [LcovRecord.spots, List.count_append, hlines, Nat.zero_add, List.count_filter (by
    rw [hbranch]
    rfl)] at hone
  rw [LcovRecord.counts, List.length_map, ← hone, List.count, List.countP_map,
    List.countP_eq_length_filter]
  refine congrArg List.length (List.filter_congr fun entry _ => ?_)
  exact (beq_eq_decide _ _).symm

/-! ## The hits of both -/

theorem mem_recordHits {hit : CoverageHitRecord} :
    hit ∈ recordHits capture lookup rs ↔
      ∃ record ∈ rs, ∃ spot count, record.Reads spot count ∧
        ∃ symbolId ∈ symbolsAt lookup record.file spot.lineNo,
          hit = readingHit capture record.file symbolId ⟨spot.lineNo, spot.branchId, count⟩ := by
  rw [recordHits, List.flatMap_map, List.mem_flatMap]
  refine exists_congr fun record => and_congr_right fun _ => ?_
  simp only [fileHits, sourceFile_coverageOf, List.mem_flatMap, artefactHits_eq, List.mem_map,
    List.mem_filter, symbolsAt]
  constructor
  · rintro ⟨artefact, hartefact, reading, ⟨hreading, hcovers⟩, rfl⟩
    obtain ⟨spot, count, hreads, rfl⟩ := mem_readings_coverageOf.mp hreading
    exact ⟨spot, count, hreads, _, ⟨artefact, ⟨hartefact, hcovers⟩, rfl⟩, rfl⟩
  · rintro ⟨spot, count, hreads, _, ⟨artefact, ⟨hartefact, hcovers⟩, rfl⟩, rfl⟩
    exact ⟨artefact, hartefact, _,
      ⟨mem_readings_coverageOf.mpr ⟨spot, count, hreads, rfl⟩, hcovers⟩, rfl⟩

theorem mem_spotsOf {file : Text} {spot : Spot} :
    spot ∈ spotsOf rs file ↔ ∃ record ∈ rs, record.file = file ∧ spot ∈ record.spots := by
  simp only [spotsOf, List.mem_flatMap, List.mem_filter, decide_eq_true_eq, mem_spots_iff,
    and_assoc]

theorem mem_referenceHits {hit : CoverageHitRecord} :
    hit ∈ referenceHits lookup capture rs ↔
      ∃ record ∈ rs, ∃ spot ∈ record.spots,
        ∃ symbolId ∈ symbolsAt lookup record.file spot.lineNo,
          hit = spotHit capture record.file symbolId spot (countsOf rs record.file spot) := by
  have hsymbol : ∀ {file symbolId : Text} {lineNo : ℤ},
      symbolId ∈ symbolsAt lookup file lineNo →
        symbolId ∈ (artefactsOf lookup file).map Artefact.symbolId := fun h =>
    List.map_subset _ (List.filter_subset_self _) h
  simp only [referenceHits, List.mem_flatMap, List.mem_dedup, List.mem_map (f := LcovRecord.file),
    List.mem_map (l := List.filter _ _), List.mem_filter, decide_eq_true_eq]
  constructor
  · rintro ⟨_, -, symbolId, -, spot, ⟨hspot, hcovered⟩, rfl⟩
    obtain ⟨record, hrecord, rfl, hmem⟩ := mem_spotsOf.mp hspot
    exact ⟨record, hrecord, spot, hmem, symbolId, hcovered, rfl⟩
  · rintro ⟨record, hrecord, spot, hspot, symbolId, hcovered, rfl⟩
    exact ⟨record.file, ⟨record, hrecord, rfl⟩, symbolId, hsymbol hcovered, spot,
      ⟨mem_spotsOf.mpr ⟨record, hrecord, rfl, hspot⟩, hcovered⟩, rfl⟩

instance : Std.Symm (Apart lookup) where
  symm _ _ h hline hbranch := (h hline.symm hbranch.symm).symm

theorem nodup_referenceHits (hapart : (placedSpots rs).Pairwise (Apart lookup)) :
    (referenceHits lookup capture rs).Nodup := by
  refine List.nodup_flatMap.mpr ⟨fun file _ => List.nodup_flatMap.mpr ⟨fun symbolId _ => ?_, ?_⟩, ?_⟩
  · refine List.Nodup.map_on ?_ ((List.nodup_dedup _).filter _)
    intro spot hspot spot' hspot' heq
    obtain ⟨hmem, hcovered⟩ := List.mem_filter.mp hspot
    obtain ⟨hmem', hcovered'⟩ := List.mem_filter.mp hspot'
    by_contra hne
    have hpair : (file, spot) ≠ (file, spot') := fun h => hne (Prod.mk.inj h).2
    have happ := hapart.forall (mem_placedSpots.mpr (mem_spotsOf.mp (List.mem_dedup.mp hmem)))
      (mem_placedSpots.mpr (mem_spotsOf.mp (List.mem_dedup.mp hmem'))) hpair
    exact happ (congrArg CoverageHitRecord.line heq) (congrArg CoverageHitRecord.branchId heq)
      (of_decide_eq_true hcovered) (of_decide_eq_true hcovered')
  · refine (List.nodup_dedup _).imp fun {symbolId symbolId'} hne hit hhit hhit' => hne ?_
    obtain ⟨spot, -, rfl⟩ := List.mem_map.mp hhit
    obtain ⟨spot', -, heq⟩ := List.mem_map.mp hhit'
    exact (congrArg CoverageHitRecord.productionSymbolId heq).symm
  · refine (List.nodup_dedup _).imp fun {file file'} hne hit hhit hhit' => hne ?_
    obtain ⟨symbolId, -, hmem⟩ := List.mem_flatMap.mp hhit
    obtain ⟨symbolId', -, hmem'⟩ := List.mem_flatMap.mp hhit'
    obtain ⟨spot, -, rfl⟩ := List.mem_map.mp hmem
    obtain ⟨spot', -, heq⟩ := List.mem_map.mp hmem'
    exact (congrArg CoverageHitRecord.filePath heq).symm

/-- The counts of a line up to its last entry add nothing. -/
def SettledLines (lookup : Text → Except ε (List Artefact)) (rs : List LcovRecord) : Prop :=
  ∀ record ∈ rs, ∀ lineNo, symbolsAt lookup record.file lineNo ≠ [] →
    ∀ counts last, record.counts (.line lineNo) = counts ++ [last] →
      counts.sum = 0 ∧ ((∃ count ∈ counts, 0 < count) → 0 < last)

theorem spotHit_eq_readingHit_iff {file symbolId : Text} {spot : Spot} {counts : List ℤ}
    {count : ℤ} :
    spotHit capture file symbolId spot counts =
        readingHit capture file symbolId ⟨spot.lineNo, spot.branchId, count⟩ ↔
      counts.sum = count ∧ ((∃ c ∈ counts, 0 < c) ↔ 0 < count) := by
  have hcovered : counts.any (fun c => c > 0) = decide (count > 0) ↔
      ((∃ c ∈ counts, 0 < c) ↔ 0 < count) := by
    rw [Bool.eq_iff_iff, List.any_eq_true, decide_eq_true_iff]
    simp only [decide_eq_true_eq, gt_iff_lt]
  rw [← hcovered, spotHit, readingHit, CoverageHitRecord.mk.injEq]
  constructor
  · rintro ⟨-, -, -, -, -, hany, hsum⟩
    exact ⟨hsum, hany⟩
  · rintro ⟨hsum, hany⟩
    exact ⟨rfl, rfl, rfl, rfl, rfl, hany, hsum⟩

theorem sum_append_last_iff {counts : List ℤ} {last : ℤ} :
    ((counts ++ [last]).sum = last ∧ ((∃ c ∈ counts ++ [last], 0 < c) ↔ 0 < last)) ↔
      counts.sum = 0 ∧ ((∃ c ∈ counts, 0 < c) → 0 < last) := by
  rw [List.sum_append, List.sum_singleton]
  refine and_congr (by omega) ⟨fun h hbefore => ?_, fun h => ⟨?_, fun hlast => ?_⟩⟩
  · obtain ⟨c, hc, hpos⟩ := hbefore
    exact h.mp ⟨c, List.mem_append_left _ hc, hpos⟩
  · rintro ⟨c, hc, hpos⟩
    rcases List.mem_append.mp hc with hc | hc
    · exact h ⟨c, hc, hpos⟩
    · exact List.mem_singleton.mp hc ▸ hpos
  · exact ⟨last, List.mem_append_right _ List.mem_cons_self, hlast⟩

/-- A reading has the counts of its spot. -/
theorem readingHit_eq_spotHit (hapart : (placedSpots rs).Pairwise (Apart lookup))
    (hlast : SettledLines lookup rs) {record : LcovRecord} (hrecord : record ∈ rs) {spot : Spot}
    {count : ℤ} (hreads : record.Reads spot count) {symbolId : Text}
    (hcovered : symbolId ∈ symbolsAt lookup record.file spot.lineNo) :
    readingHit capture record.file symbolId ⟨spot.lineNo, spot.branchId, count⟩ =
      spotHit capture record.file symbolId spot (countsOf rs record.file spot) := by
  have hne : symbolsAt lookup record.file spot.lineNo ≠ [] := List.ne_nil_of_mem hcovered
  obtain ⟨hcounts, hone⟩ := countsOf_eq_counts hapart hrecord (mem_spots_of_reads hreads) hne
  rw [hcounts, eq_comm, spotHit_eq_readingHit_iff]
  rw [LcovRecord.Reads] at hreads
  split_ifs at hreads with hline
  · obtain ⟨before, hsplit⟩ := List.getLast?_eq_some_iff.mp hreads
    cases spot with
    | branch => exact nomatch hline
    | line lineNo =>
      rw [hsplit, sum_append_last_iff]
      exact hlast record hrecord lineNo hne before count hsplit
  · obtain ⟨c, hc⟩ := List.length_eq_one_iff.mp
      (length_counts_of_count (Bool.not_eq_true _ ▸ hline) hone)
    rw [hc] at hreads ⊢
    obtain rfl := List.mem_singleton.mp hreads
    simp

/-- **When the hits are those of the reference.** -/
theorem recordHits_iff :
    ((recordHits capture lookup rs).Perm (referenceHits lookup capture rs) ∧
        ((recordHits capture lookup rs).map CoverageHitRecord.key).Nodup) ↔
      (placedSpots rs).Pairwise (Apart lookup) ∧
        (∀ p ∈ placedSpots rs, (symbolsAt lookup p.1 p.2.lineNo).Nodup) ∧
          SettledLines lookup rs := by
  rw [nodup_keys_iff]
  constructor
  · rintro ⟨hperm, hapart, honce⟩
    refine ⟨hapart, honce, fun record hrecord lineNo hne counts last hsplit => ?_⟩
    obtain ⟨symbolId, hsymbol⟩ := List.exists_mem_of_ne_nil _ hne
    have hreads : record.Reads (.line lineNo) last := by
      show (record.counts (.line lineNo)).getLast? = some last
      rw [hsplit, List.getLast?_concat]
    have hspot := mem_spots_of_reads hreads
    have hread : readingHit capture record.file symbolId ⟨lineNo, -1, last⟩ ∈
        recordHits capture lookup rs :=
      mem_recordHits.mpr ⟨record, hrecord, .line lineNo, last, hreads, symbolId, hsymbol, rfl⟩
    have hreference : spotHit capture record.file symbolId (.line lineNo)
        (countsOf rs record.file (.line lineNo)) ∈ recordHits capture lookup rs :=
      hperm.mem_iff.mpr (mem_referenceHits.mpr
        ⟨record, hrecord, .line lineNo, hspot, symbolId, hsymbol, rfl⟩)
    -- both hits have the same key
    have hsame := List.inj_on_of_nodup_map (nodup_keys_iff.mpr ⟨hapart, honce⟩) hreference hread rfl
    have hboth := (@spotHit_eq_readingHit_iff capture record.file symbolId (.line lineNo) _ _).mp hsame
    rw [(countsOf_eq_counts hapart hrecord hspot hne).1, hsplit] at hboth
    exact sum_append_last_iff.mp hboth
  · rintro ⟨hapart, honce, hlast⟩
    refine ⟨?_, hapart, honce⟩
    refine (List.perm_ext_iff_of_nodup (nodup_keys_iff.mpr ⟨hapart, honce⟩).of_map
      (nodup_referenceHits hapart)).mpr fun hit => ?_
    rw [mem_recordHits, mem_referenceHits]
    refine exists_congr fun record => and_congr_right fun hrecord => ⟨?_, ?_⟩
    · rintro ⟨spot, count, hreads, symbolId, hsymbol, rfl⟩
      exact ⟨spot, mem_spots_of_reads hreads, symbolId, hsymbol,
        readingHit_eq_spotHit hapart hlast hrecord hreads hsymbol⟩
    · rintro ⟨spot, hspot, symbolId, hsymbol, rfl⟩
      obtain ⟨count, hreads⟩ := exists_reads (mem_spots_iff.mp hspot)
      exact ⟨spot, count, hreads, symbolId, hsymbol,
        (readingHit_eq_spotHit hapart hlast hrecord hreads hsymbol).symm⟩

/-! ## Reports -/

theorem recordsFrom_congr {reads reads' : LineKind → Option Entry} {kinds : List LineKind}
    (h : ∀ kind ∈ kinds, reads kind = reads' kind) (current : Option LcovRecord) :
    recordsFrom reads current kinds = recordsFrom reads' current kinds := by
  induction kinds generalizing current with
  | nil => rfl
  | cons kind kinds ih =>
    obtain ⟨hkind, hrest⟩ := List.forall_mem_cons.mp h
    cases kind with
    | sourceFile path => rw [recordsFrom_sourceFile, recordsFrom_sourceFile, ih hrest]
    | endOfRecord => rw [recordsFrom_endOfRecord, recordsFrom_endOfRecord, ih hrest]
    | entry entry => rw [recordsFrom_entry, recordsFrom_entry, ih hrest, hkind]
    | malformed countless => rw [recordsFrom_malformed, recordsFrom_malformed, ih hrest, hkind]
    | other => rw [recordsFrom_other, recordsFrom_other, ih hrest, hkind]

/-- Which files the records are for does not depend on their entries. -/
theorem files_recordsFrom {reads reads' : LineKind → Option Entry} {kinds : List LineKind}
    {current current' : Option LcovRecord}
    (h : current.map LcovRecord.file = current'.map LcovRecord.file) :
    (recordsFrom reads current kinds).map LcovRecord.file =
      (recordsFrom reads' current' kinds).map LcovRecord.file := by
  have htoList : ∀ {current current' : Option LcovRecord},
      current.map LcovRecord.file = current'.map LcovRecord.file →
        current.toList.map LcovRecord.file = current'.toList.map LcovRecord.file := by
    rintro (_ | record) (_ | record') h <;> simp_all
  induction kinds generalizing current current' with
  | nil => exact htoList h
  | cons kind kinds ih =>
    have hpush : ∀ entries entries' : List Entry,
        (current.map fun record => { record with entries := record.entries ++ entries }).map
            LcovRecord.file =
          (current'.map fun record => { record with entries := record.entries ++ entries' }).map
            LcovRecord.file := by
      intro entries entries'
      rw [Option.map_map, Option.map_map]
      exact h
    cases kind with
    | sourceFile path =>
      rw [recordsFrom_sourceFile, recordsFrom_sourceFile, List.map_append, List.map_append,
        htoList h, @ih (some { file := path }) (some { file := path }) rfl]
    | endOfRecord =>
      rw [recordsFrom_endOfRecord, recordsFrom_endOfRecord, List.map_append, List.map_append,
        htoList h, @ih none none rfl]
    | entry entry => exact ih (hpush _ _)
    | malformed countless => exact ih (hpush _ _)
    | other => exact ih (hpush _ _)

theorem map_kind_readLines (lines : List Text) (lineNum : ℕ) (inRecord : Bool) :
    (readLines lineNum inRecord lines).map ReadLine.kind = lines.map classify := by
  induction lines generalizing lineNum inRecord with
  | nil => rfl
  | cons line lines ih => rw [readLines, List.map_cons, List.map_cons, ih]

theorem diagnosed_iff {lines : List ReadLine} :
    ((lines.filter ReadLine.isDiagnosed).map fun line => some line.lineNum) =
        (lines.filter ReadLine.isMalformed).map (fun line => some line.lineNum) ↔
      ∀ line ∈ lines, line.isMalformed = true →
        line.inRecord = true ∧ line.kind = .malformed none := by
  rw [PartByPart.map_filter_eq_iff]
  · simp [ReadLine.isDiagnosed]
  · intro line h
    rw [ReadLine.isDiagnosed, Bool.and_eq_true, decide_eq_true_iff] at h
    rw [ReadLine.isMalformed, h.2]

/-- The parser takes the entries of the records when no entry is malformed in its count alone. -/
theorem recordsFrom_taken {raw : Text}
    (h : ∀ line ∈ readLines 1 false (textLines raw), line.isMalformed = true →
      line.inRecord = true ∧ line.kind = .malformed none) :
    recordsFrom LineKind.taken none ((textLines raw).map classify) = records raw := by
  refine recordsFrom_congr (fun kind hkind => ?_) none
  rw [← map_kind_readLines (textLines raw) 1 false] at hkind
  obtain ⟨line, hline, rfl⟩ := List.mem_map.mp hkind
  cases hkind : line.kind with
  | malformed countless =>
    have hnone := (h line hline (by rw [ReadLine.isMalformed, hkind])).2
    rw [hkind] at hnone
    rw [hnone]
    rfl
  | _ => rfl

theorem parseLcovReport_eq (capture : Capture) (lcovPath raw : Text) :
    ∃ diagnostics,
      @parseLcovReport ε capture lcovPath raw =
        (if (recordsFrom LineKind.taken none ((textLines raw).map classify)).map coverageOf = [] then
          .error (.noRecords lcovPath)
        else .ok ((recordsFrom LineKind.taken none ((textLines raw).map classify)).map coverageOf,
          diagnostics)) ∧
      (diagnostics.filter fun diagnostic =>
          diagnostic.code = "malformed_line".toList).map CoverageDiagnosticRecord.line =
        ((readLines 1 false (textLines raw)).filter ReadLine.isDiagnosed).map
          fun line => some line.lineNum := by
  have hfiles := @files_parseLcovLines capture (textLines raw) {} 1 none rfl
  refine ⟨_, ?_, @lines_parseLcovLines capture (textLines raw) false {} 1 rfl⟩
  rw [parseLcovReport, hfiles]
  rfl

/-- **The ingest and its reference.** -/
theorem lcov_ingest_iff (capture : Capture) (lcovPath raw : Text)
    (lookup : Text → Except ε (List Artefact)) :
    match ingestLcovWithLookup capture lcovPath raw lookup with
    | .error _ =>
      records raw = [] ∨ ∃ record ∈ records raw, ∃ error, lookup record.file = .error error
    | .ok (hits, diagnostics) =>
      Yields lookup capture raw hits diagnostics ↔ Clean lookup raw := by
  obtain ⟨diagnostics, hparse, hlines⟩ := @parseLcovReport_eq ε capture lcovPath raw
  have hsame : (recordsFrom LineKind.taken none ((textLines raw).map classify)).map
      LcovRecord.file = (records raw).map LcovRecord.file := files_recordsFrom rfl
  generalize hrs : recordsFrom LineKind.taken none ((textLines raw).map classify) = rs at *
  rw [ingestLcovWithLookup, hparse]
  by_cases hnone : rs.map coverageOf = []
  · rw [if_pos hnone]
    left
    rw [List.map_eq_nil_iff.mp hnone] at hsame
    exact List.map_eq_nil_iff.mp hsame.symm
  · rw [if_neg hnone]
    dsimp only [bind, Except.bind]
    cases hingest : ingestLcovFiles capture lookup [] diagnostics diagnostics.length
        (rs.map coverageOf) with
    | error error =>
      right
      obtain ⟨file, hfile, herror⟩ := exists_error_of_ingestLcovFiles hingest
      obtain ⟨taken, htaken, rfl⟩ := List.mem_map.mp hfile
      rw [sourceFile_coverageOf] at herror
      have hmem : taken.file ∈ (records raw).map LcovRecord.file :=
        hsame ▸ List.mem_map_of_mem htaken
      obtain ⟨record, hrecord, heq⟩ := List.mem_map.mp hmem
      exact ⟨record, hrecord, heq ▸ herror⟩
    | ok result =>
      obtain ⟨hits, reported⟩ := result
      obtain ⟨hhits, hreported⟩ := ingestLcovFiles_eq_ok hingest
      have hrecords : hits = recordHits capture lookup rs := hhits
      have hdiagnosed : (reported.filter fun diagnostic =>
          diagnostic.code = "malformed_line".toList).map CoverageDiagnosticRecord.line =
            (malformedLines raw).map some ↔
          ∀ line ∈ readLines 1 false (textLines raw), line.isMalformed = true →
            line.inRecord = true ∧ line.kind = .malformed none := by
        rw [hreported, hlines, malformedLines, List.map_map]
        exact diagnosed_iff
      constructor
      · rintro ⟨hperm, hunique, hdiagnostics⟩
        have hclean := hdiagnosed.mp hdiagnostics
        rw [recordsFrom_taken hclean] at hrs
        subst hrs
        obtain ⟨hapart, honce, hlast⟩ := recordHits_iff.mp ⟨hrecords ▸ hperm, hrecords ▸ hunique⟩
        exact ⟨hclean, hapart, honce, hlast⟩
      · rintro ⟨hclean, hapart, honce, hlast⟩
        rw [recordsFrom_taken hclean] at hrs
        subst hrs
        obtain ⟨hperm, hunique⟩ := recordHits_iff.mpr ⟨hapart, honce, hlast⟩
        exact ⟨hrecords ▸ hperm, hrecords ▸ hunique, hdiagnosed.mpr hclean⟩

def oneArtefact (_ : Text) : Except Unit (List Artefact) := .ok [⟨['f'], 1, 9⟩]

def repeatedLine : Text := "SF:a.rs\nDA:1,2\nDA:1,3\nend_of_record\n".toList

/-- Of two entries for a line the first is lost. -/
theorem repeated_line_overwritten :
    match ingestLcovWithLookup ⟨[], [], []⟩ [] repeatedLine oneArtefact with
    | .error _ => False
    | .ok (hits, diagnostics) =>
      ¬ Yields oneArtefact ⟨[], [], []⟩ repeatedLine hits diagnostics := by
  have hcode : (ingestLcovWithLookup ⟨[], [], []⟩ [] repeatedLine oneArtefact).toOption.map
      (fun result => result.1.map CoverageHitRecord.hitCount) = some [3] := by decide
  have hreference : (referenceHits oneArtefact ⟨[], [], []⟩ (records repeatedLine)).map
      CoverageHitRecord.hitCount = [5] := by decide
  cases hresult : ingestLcovWithLookup ⟨[], [], []⟩ [] repeatedLine oneArtefact with
  | error error =>
    rw [hresult] at hcode
    exact nomatch hcode
  | ok result =>
    obtain ⟨hits, diagnostics⟩ := result
    rw [hresult] at hcode
    intro hyields
    have hcounts := hyields.perm.map CoverageHitRecord.hitCount
    have hhits : hits.map CoverageHitRecord.hitCount = [3] := Option.some.inj hcode
    rw [hreference, hhits] at hcounts
    exact absurd (List.singleton_perm_singleton.mp hcounts) (by decide)

end TestHarness
end Bitloops
