import Mathlib.Algebra.Order.Field.Basic
import Mathlib.Tactic.Linarith
import Mathlib.Tactic.Positivity
import Bitloops.Checkpoints.Attribution
import Bitloops.Foundation.Int32Sums

/-!
# The bounds of an attribution

The lines of the agent are at most the lines of the commit, and nothing is negative, as long as
the counts are small enough for sums in 32 bits.  The order of the touched files does not matter;
a file that is listed twice counts twice.
-/

namespace Bitloops
namespace Checkpoints
namespace Attribution

open Int32Sums

/-! ## Comparing lines -/

variable {x y : String}

def linesIn (content : String) : ℤ := (splitLines content).length

/-- A row is at most one above the row before it. -/
theorem lcsRow_le {line : Line} {right : List Line} {row : List ℕ} {before bound : ℕ}
    (hrow : ∀ n ∈ row, n ≤ bound) (hbefore : before ≤ bound + 1) :
    ∀ n ∈ lcsRow line right row before, n ≤ bound + 1 := by
  induction right generalizing row before with
  | nil => exact fun _ hn => absurd hn (by simp [lcsRow])
  | cons head rest ih =>
    match row, hrow with
    | [], _ => exact fun _ hn => absurd hn (by simp [lcsRow])
    | [_], _ => exact fun _ hn => absurd hn (by simp [lcsRow])
    | diagonal :: above :: row, hrow =>
      have hdiagonal := hrow diagonal List.mem_cons_self
      have habove := hrow above (List.mem_cons_of_mem _ List.mem_cons_self)
      have hentry : (if line = head then diagonal + 1 else max above before) ≤ bound + 1 := by
        split_ifs <;> omega
      intro n hn
      rcases List.mem_cons.mp hn with rfl | hn
      · exact hentry
      · exact ih (fun n hn => hrow n (List.mem_cons_of_mem _ hn)) hentry n hn

theorem lcsTable_le (left right : List Line) : ∀ n ∈ lcsTable left right, n ≤ left.length := by
  have hfold : ∀ (left : List Line) (row : List ℕ) (bound : ℕ), (∀ n ∈ row, n ≤ bound) →
      ∀ n ∈ left.foldl (fun row line => 0 :: lcsRow line right row 0) row,
        n ≤ bound + left.length := by
    intro left
    induction left with
    | nil => exact fun row bound hrow => hrow
    | cons line left ih =>
      intro row bound hrow n hn
      have hnext : ∀ n ∈ 0 :: lcsRow line right row 0, n ≤ bound + 1 := by
        intro n hn
        rcases List.mem_cons.mp hn with rfl | hn
        · exact Nat.zero_le _
        · exact lcsRow_le hrow (Nat.zero_le _) n hn
      have hbound := ih _ (bound + 1) hnext n hn
      rw [List.length_cons]
      omega
  intro n hn
  have hbound := hfold left (List.replicate (right.length + 1) 0) 0
    (fun n hn => (List.eq_of_mem_replicate hn).le) n hn
  omega

/-- No more lines are common than there are. -/
theorem lcsLineCount_le (left right : List Line) : lcsLineCount left right ≤ left.length := by
  unfold lcsLineCount
  split_ifs
  · exact Nat.zero_le _
  · cases hlast : (lcsTable left right).getLast? with
    | none => exact Nat.zero_le _
    | some n => exact lcsTable_le left right n (List.mem_of_getLast? hlast)

/-- The added lines are among those of the new content, the removed ones among those of the old. -/
structure DiffBounds (x y : String) (d : LineDiff) : Prop where
  added_nonneg : 0 ≤ d.added.toInt
  added_le : d.added.toInt ≤ linesIn y
  removed_nonneg : 0 ≤ d.removed.toInt
  removed_le : d.removed.toInt ≤ linesIn x

theorem toInt_countLinesStr (h : linesIn x < 2 ^ 31) : (countLinesStr x).toInt = linesIn x :=
  Int32.toInt_ofNat_of_lt (by unfold linesIn at h; omega)

theorem diffBounds (hx : linesIn x < 2 ^ 31) (hy : linesIn y < 2 ^ 31) :
    DiffBounds x y (diffLines x y) := by
  have hx0 : 0 ≤ linesIn x := Int.natCast_nonneg _
  have hy0 : 0 ≤ linesIn y := Int.natCast_nonneg _
  have hzero : (0 : Int32).toInt = 0 := rfl
  unfold diffLines
  split_ifs
  · exact ⟨hzero.ge, hzero.le.trans hy0, hzero.ge, hzero.le.trans hx0⟩
  · exact ⟨by rw [toInt_countLinesStr hy]; exact hy0, (toInt_countLinesStr hy).le, hzero.ge,
      hzero.le.trans hx0⟩
  · exact ⟨hzero.ge, hzero.le.trans hy0, by rw [toInt_countLinesStr hx]; exact hx0,
      (toInt_countLinesStr hx).le⟩
  · have hcommon := lcsLineCount_le (splitLines x) (splitLines y)
    have ha : (Int32.ofNat (splitLines x).length).toInt = linesIn x := toInt_countLinesStr hx
    have hb : (Int32.ofNat (splitLines y).length).toInt = linesIn y := toInt_countLinesStr hy
    have hunchanged : (Int32.ofNat (lcsLineCount (splitLines x) (splitLines y))).toInt =
        lcsLineCount (splitLines x) (splitLines y) :=
      Int32.toInt_ofNat_of_lt (by unfold linesIn at hx; omega)
    have hremoved := toInt_sub_of_mem (a := Int32.ofNat (splitLines x).length)
      (b := Int32.ofNat (lcsLineCount (splitLines x) (splitLines y)))
      (by unfold linesIn at *; omega) (by unfold linesIn at *; omega)
    have hadded := toInt_sub_of_mem (a := Int32.ofNat (splitLines y).length)
      (b := Int32.ofNat (lcsLineCount (splitLines x) (splitLines y)))
      (by unfold linesIn at *; omega) (by unfold linesIn at *; omega)
    constructor <;> simp only [toInt_max, hremoved, hadded, ha, hb, hunchanged, hzero] <;>
      unfold linesIn at * <;> omega

/-! ## Sums over a map -/

variable {counts : LineCounts} {row : String × Int32} {p q : String → Bool}

/-- The sum of the counts. -/
def sumOf (counts : LineCounts) : ℤ := total Prod.snd counts.rows

def NonNegative (counts : LineCounts) : Prop := ∀ row ∈ counts.rows, 0 ≤ row.2.toInt

theorem count_of_mem (h : row ∈ counts.rows) : counts.count row.1 = row.2 := by
  have hfound : findRow Prod.fst row.1 counts.rows = some row :=
    UniqueTable.findRow_eq_some.mpr ⟨h, rfl⟩
  rw [LineCounts.count, hfound]
  rfl

theorem count_of_notMem {file : String} (h : file ∉ counts.rows.map Prod.fst) :
    counts.count file = 0 := by
  have hnone : findRow Prod.fst file counts.rows = none :=
    UniqueTable.findRow_eq_none.mpr fun row hrow hkey => h (List.mem_map.mpr ⟨row, hrow, hkey⟩)
  rw [LineCounts.count, hnone]
  rfl

theorem NonNegative.count (h : NonNegative counts) (file : String) :
    0 ≤ (counts.count file).toInt := by
  by_cases hfile : file ∈ counts.rows.map Prod.fst
  · obtain ⟨row, hrow, rfl⟩ := List.mem_map.mp hfile
    rw [count_of_mem hrow]
    exact h row hrow
  · rw [count_of_notMem hfile]
    rfl

theorem NonNegative.sumOf (h : NonNegative counts) : 0 ≤ sumOf counts := total_nonneg h

theorem NonNegative.upsert (row : String × Int32) (h : NonNegative counts)
    (hrow : 0 ≤ row.2.toInt) :
    NonNegative (counts.upsert row) := by
  intro row' hrow'
  rcases UniqueTable.mem_upsert.mp hrow' with rfl | ⟨hold, -⟩
  · exact hrow
  · exact h row' hold

/-- A row that is replaced in a list gives up its count. -/
theorem total_replace {rows : List (String × Int32)} {old : String × Int32}
    (hunique : (rows.map Prod.fst).Nodup) (hold : old ∈ rows) (hkey : old.1 = row.1) :
    total Prod.snd (rows.map fun x => if x.1 = row.1 then row else x) + old.2.toInt =
      total Prod.snd rows + row.2.toInt := by
  induction rows with
  | nil => exact absurd hold List.not_mem_nil
  | cons head rows ih =>
    rw [List.map_cons, List.nodup_cons] at hunique
    rw [List.map_cons, total_cons, total_cons]
    rcases List.mem_cons.mp hold with rfl | hold
    · have hrest : rows.map (fun x => if x.1 = row.1 then row else x) = rows := by
        refine (List.map_congr_left fun x hx => if_neg fun h => hunique.1 ?_).trans (List.map_id _)
        exact List.mem_map.mpr ⟨x, hx, h.trans hkey.symm⟩
      rw [hrest, if_pos hkey]
      omega
    · have hother : head.1 ≠ row.1 := fun h =>
        hunique.1 (List.mem_map.mpr ⟨old, hold, hkey.trans h.symm⟩)
      have hrest := ih hunique.2 hold
      rw [if_neg hother]
      omega

/-- The new count takes the place of the old one. -/
theorem sumOf_upsert (counts : LineCounts) (row : String × Int32) :
    sumOf (counts.upsert row) + (counts.count row.1).toInt = sumOf counts + row.2.toInt := by
  unfold sumOf UniqueTable.upsert
  split_ifs with hkey
  · obtain ⟨old, hold, hsame⟩ := List.mem_map.mp hkey
    have hcount : counts.count row.1 = old.2 := hsame ▸ count_of_mem hold
    rw [hcount]
    exact total_replace counts.unique hold hsame
  · rw [count_of_notMem hkey]
    simp [total]

theorem sumOf_empty : sumOf .empty = 0 := rfl

/-- Counts that are added to a map. -/
theorem addTo_bounds (hcounts : NonNegative counts) (hrow : 0 ≤ row.2.toInt)
    (hsmall : sumOf counts + row.2.toInt < 2 ^ 31) :
    NonNegative (counts.addTo row) ∧ sumOf (counts.addTo row) = sumOf counts + row.2.toInt := by
  have hold := hcounts.count row.1
  have hle : (counts.count row.1).toInt ≤ sumOf counts := by
    have h := sumOf_upsert counts (row.1, 0)
    have hrest := (NonNegative.upsert (row.1, 0) hcounts le_rfl).sumOf
    have hzero : (0 : Int32).toInt = 0 := rfl
    dsimp only at h
    omega
  have hadd := toInt_add_of_mem (a := counts.count row.1) (b := row.2) (by omega) (by omega)
  have hsum := sumOf_upsert counts (row.1, counts.count row.1 + row.2)
  unfold LineCounts.addTo
  refine ⟨NonNegative.upsert _ hcounts (by dsimp only; omega), ?_⟩
  dsimp only at hsum
  omega

theorem foldl_addTo_bounds {rows : List (String × Int32)} (hcounts : NonNegative counts)
    (hrows : ∀ row ∈ rows, 0 ≤ row.2.toInt)
    (hsmall : sumOf counts + total Prod.snd rows < 2 ^ 31) :
    NonNegative (rows.foldl LineCounts.addTo counts) ∧
      sumOf (rows.foldl LineCounts.addTo counts) = sumOf counts + total Prod.snd rows := by
  induction rows generalizing counts with
  | nil => exact ⟨hcounts, (add_zero _).symm⟩
  | cons row rows ih =>
    have hrest := fun r hr => hrows r (List.mem_cons_of_mem row hr)
    have htotal := total_nonneg hrest
    have hhead := hrows row List.mem_cons_self
    rw [total_cons] at hsmall ⊢
    obtain ⟨hadded, hsum⟩ := addTo_bounds hcounts hhead (by omega)
    obtain ⟨hfolded, hfoldedSum⟩ := ih hadded hrest (by omega)
    exact ⟨hfolded, by rw [List.foldl_cons, hfoldedSum, hsum]; omega⟩

/-- Disjoint parts of a map sum up to no more than the map. -/
theorem total_filter_add_le {rows : List (String × Int32)}
    (hrows : ∀ row ∈ rows, 0 ≤ row.2.toInt) (hdisjoint : ∀ file, ¬ (p file ∧ q file)) :
    total Prod.snd (rows.filter fun row => p row.1) +
      total Prod.snd (rows.filter fun row => q row.1) ≤ total Prod.snd rows := by
  induction rows with
  | nil => simp
  | cons row rows ih =>
    have hrest := ih fun r hr => hrows r (List.mem_cons_of_mem row hr)
    have hhead := hrows row List.mem_cons_self
    have hnot := hdisjoint row.1
    cases hp : p row.1 <;> cases hq : q row.1 <;>
      simp only [List.filter_cons, hp, hq, total_cons, Bool.false_eq_true, if_true, if_false] <;>
      first
        | omega
        | exact absurd ⟨hp, hq⟩ hnot

/-! ## What is counted -/

variable {baseTree shadowTree headTree : Option TreeSnapshot} {filesTouched files' : List String}
  {promptAttributions : List PromptAttribution} {file : String}

/-- The counts that are read are not negative. -/
def NonNegativePrompts (promptAttributions : List PromptAttribution) : Prop :=
  ∀ pa ∈ promptAttributions, 0 ≤ pa.userLinesRemoved.toInt ∧ NonNegative pa.userAddedPerFile

def promptLines (promptAttributions : List PromptAttribution) : ℤ :=
  total (·.userLinesRemoved) promptAttributions +
    (promptAttributions.map fun pa => sumOf pa.userAddedPerFile).sum

section Trees

variable (baseTree shadowTree headTree)

/-- The lines of a file in the three trees. -/
def fileLines (file : String) : ℤ :=
  linesIn (getFileContent baseTree file) + linesIn (getFileContent shadowTree file) +
    linesIn (getFileContent headTree file)

/-- All that is counted: the lines of the touched and of the changed files, and what came with the
prompts. -/
def countedLines (filesTouched : List String) (promptAttributions : List PromptAttribution) : ℤ :=
  (filesTouched.map (fileLines baseTree shadowTree headTree)).sum +
    ((getAllChangedFilesBetweenTrees baseTree headTree).map fun file =>
      linesIn (getFileContent baseTree file) + linesIn (getFileContent headTree file)).sum +
    promptLines promptAttributions

end Trees

theorem linesIn_nonneg (content : String) : 0 ≤ linesIn content := Int.natCast_nonneg _

theorem fileLines_nonneg (file : String) : 0 ≤ fileLines baseTree shadowTree headTree file := by
  have hbase := linesIn_nonneg (getFileContent baseTree file)
  have hshadow := linesIn_nonneg (getFileContent shadowTree file)
  have hhead := linesIn_nonneg (getFileContent headTree file)
  unfold fileLines
  omega

theorem le_sum_of_mem {α : Type*} {l : List α} {g : α → ℤ} (hg : ∀ x ∈ l, 0 ≤ g x) {x : α}
    (hx : x ∈ l) : g x ≤ (l.map g).sum :=
  List.single_le_sum (fun n hn => by
    obtain ⟨y, hy, rfl⟩ := List.mem_map.mp hn
    exact hg y hy) _ (List.mem_map_of_mem hx)

theorem sum_nonneg_of {α : Type*} {l : List α} {g : α → ℤ} (hg : ∀ x ∈ l, 0 ≤ g x) :
    0 ≤ (l.map g).sum :=
  List.sum_nonneg fun n hn => by
    obtain ⟨y, hy, rfl⟩ := List.mem_map.mp hn
    exact hg y hy

/-! ### The prompts -/

theorem accumulatedUserRemoved_eq (hprompts : NonNegativePrompts promptAttributions)
    (hsmall : promptLines promptAttributions < 2 ^ 31) :
    (accumulatedUserRemoved promptAttributions).toInt =
      total (·.userLinesRemoved) promptAttributions := by
  have hadded := sum_nonneg_of (l := promptAttributions)
    (g := fun pa => sumOf pa.userAddedPerFile) fun pa hpa => (hprompts pa hpa).2.sumOf
  have hzero : (0 : Int32).toInt = 0 := rfl
  unfold promptLines at hsmall
  have h := toInt_foldl_add (f := (·.userLinesRemoved)) (l := promptAttributions)
    hzero.ge (fun pa hpa => (hprompts pa hpa).1) (by omega)
  rw [accumulatedUserRemoved, h]
  omega

theorem accumulatedUserAddedPerFile_bounds (hprompts : NonNegativePrompts promptAttributions)
    (hsmall : promptLines promptAttributions < 2 ^ 31) :
    NonNegative (accumulatedUserAddedPerFile promptAttributions) ∧
      sumOf (accumulatedUserAddedPerFile promptAttributions) =
        (promptAttributions.map fun pa => sumOf pa.userAddedPerFile).sum := by
  have hfold : ∀ (pas : List PromptAttribution) (counts : LineCounts), NonNegative counts →
      (∀ pa ∈ pas, NonNegative pa.userAddedPerFile) →
      sumOf counts + (pas.map fun pa => sumOf pa.userAddedPerFile).sum < 2 ^ 31 →
      NonNegative (pas.foldl
          (fun counts pa => pa.userAddedPerFile.rows.foldl LineCounts.addTo counts) counts) ∧
        sumOf (pas.foldl
          (fun counts pa => pa.userAddedPerFile.rows.foldl LineCounts.addTo counts) counts) =
          sumOf counts + (pas.map fun pa => sumOf pa.userAddedPerFile).sum := by
    intro pas
    induction pas with
    | nil => exact fun counts hcounts _ _ => ⟨hcounts, by simp⟩
    | cons pa pas ih =>
      intro counts hcounts hpas hsmall
      have hrest := fun p hp => hpas p (List.mem_cons_of_mem pa hp)
      have hsums := sum_nonneg_of (l := pas) (g := fun pa => sumOf pa.userAddedPerFile)
        fun p hp => (hrest p hp).sumOf
      rw [List.map_cons, List.sum_cons] at hsmall ⊢
      have hpa := hpas pa List.mem_cons_self
      have hthis : total Prod.snd pa.userAddedPerFile.rows = sumOf pa.userAddedPerFile := rfl
      obtain ⟨hadded, hsum⟩ := foldl_addTo_bounds hcounts hpa (by omega)
      obtain ⟨hfolded, hfoldedSum⟩ := ih _ hadded hrest (by omega)
      exact ⟨hfolded, by rw [List.foldl_cons, hfoldedSum, hsum]; omega⟩
  have hremoved := total_nonneg (f := fun pa : PromptAttribution => pa.userLinesRemoved)
    (l := promptAttributions) fun pa hpa => (hprompts pa hpa).1
  unfold promptLines at hsmall
  have h := hfold promptAttributions .empty (fun _ h => absurd h List.not_mem_nil)
    (fun pa hpa => (hprompts pa hpa).2) (by rw [sumOf_empty]; omega)
  rw [sumOf_empty, zero_add] at h
  exact h

/-! ### The touched files -/

theorem touchedTotals_eq (baseTree shadowTree headTree : Option TreeSnapshot)
    (filesTouched : List String) (totals : TouchedTotals) :
    (filesTouched.foldl (addTouchedFile baseTree shadowTree headTree) totals).totalAgentAndUserWork =
        filesTouched.foldl (fun n file => n + (diffLines (getFileContent baseTree file)
          (getFileContent shadowTree file)).added) totals.totalAgentAndUserWork ∧
      (filesTouched.foldl (addTouchedFile baseTree shadowTree headTree)
          totals).postCheckpointUserAdded =
        filesTouched.foldl (fun n file => n + (diffLines (getFileContent shadowTree file)
          (getFileContent headTree file)).added) totals.postCheckpointUserAdded ∧
      (filesTouched.foldl (addTouchedFile baseTree shadowTree headTree)
          totals).postCheckpointUserRemoved =
        filesTouched.foldl (fun n file => n + (diffLines (getFileContent shadowTree file)
          (getFileContent headTree file)).removed) totals.postCheckpointUserRemoved := by
  induction filesTouched generalizing totals with
  | nil => exact ⟨rfl, rfl, rfl⟩
  | cons file files ih => exact ih (addTouchedFile baseTree shadowTree headTree totals file)

/-- A running sum of what diffs report is exact, where their lines are in range. -/
theorem foldl_diff_eq {files : List String} {f : String → Int32} (lines : String → ℤ)
    (hf : ∀ file ∈ files, 0 ≤ (f file).toInt ∧ (f file).toInt ≤ lines file)
    (hsmall : (files.map lines).sum < 2 ^ 31) :
    (files.foldl (fun n file => n + f file) 0).toInt = total f files ∧ 0 ≤ total f files ∧
      total f files ≤ (files.map lines).sum := by
  have hnonneg := total_nonneg fun file hfile => (hf file hfile).1
  have hle := total_le fun file hfile => (hf file hfile).2
  have hzero : (0 : Int32).toInt = 0 := rfl
  have hsum := toInt_foldl_add hzero.ge (fun file hfile => (hf file hfile).1) (by omega)
  exact ⟨by omega, hnonneg, hle⟩

/-- Two numbers for each file that are within its lines. -/
theorem total_add_total_le {files : List String} {f g : String → Int32} {lines : String → ℤ}
    (h : ∀ file ∈ files, (f file).toInt + (g file).toInt ≤ lines file) :
    total f files + total g files ≤ (files.map lines).sum := by
  induction files with
  | nil => simp
  | cons file files ih =>
    have hrest := ih fun other hother => h other (List.mem_cons_of_mem file hother)
    have hhead := h file List.mem_cons_self
    rw [total_cons, total_cons, List.map_cons, List.sum_cons]
    omega

theorem removedPerFile_bounds (baseTree : Option TreeSnapshot) {totals : TouchedTotals}
    (htotals : NonNegative totals.postCheckpointUserRemovedPerFile)
    (hdiff : ∀ file ∈ filesTouched, 0 ≤ (diffLines (getFileContent shadowTree file)
      (getFileContent headTree file)).removed.toInt) :
    NonNegative (filesTouched.foldl (addTouchedFile baseTree shadowTree headTree)
        totals).postCheckpointUserRemovedPerFile ∧
      sumOf (filesTouched.foldl (addTouchedFile baseTree shadowTree headTree)
          totals).postCheckpointUserRemovedPerFile ≤
        sumOf totals.postCheckpointUserRemovedPerFile +
          total (fun file => (diffLines (getFileContent shadowTree file)
            (getFileContent headTree file)).removed) filesTouched := by
  induction filesTouched generalizing totals with
  | nil => exact ⟨htotals, (add_zero _).ge⟩
  | cons file files ih =>
    have hrest := fun other hother => hdiff other (List.mem_cons_of_mem file hother)
    have hhead := hdiff file List.mem_cons_self
    have hstep : NonNegative (addTouchedFile baseTree shadowTree headTree totals
          file).postCheckpointUserRemovedPerFile ∧
        sumOf (addTouchedFile baseTree shadowTree headTree totals
            file).postCheckpointUserRemovedPerFile ≤
          sumOf totals.postCheckpointUserRemovedPerFile +
            (diffLines (getFileContent shadowTree file)
              (getFileContent headTree file)).removed.toInt := by
      dsimp only [addTouchedFile]
      split_ifs
      · have hsum := sumOf_upsert totals.postCheckpointUserRemovedPerFile
          (file, (diffLines (getFileContent shadowTree file)
            (getFileContent headTree file)).removed)
        have hold := htotals.count file
        dsimp only at hsum
        exact ⟨NonNegative.upsert _ htotals hhead, by omega⟩
      · exact ⟨htotals, by omega⟩
    obtain ⟨hfolded, hle⟩ := ih hstep.1 hrest
    rw [List.foldl_cons, total_cons]
    exact ⟨hfolded, by omega⟩

theorem estimateUserSelfModifications_nonneg {accumulated removed : LineCounts}
    (haccumulated : NonNegative accumulated) (hremoved : NonNegative removed)
    (hsmall : sumOf removed < 2 ^ 31) :
    0 ≤ (estimateUserSelfModifications accumulated removed).toInt := by
  have hzero : (0 : Int32).toInt = 0 := rfl
  have hmin : ∀ row ∈ removed.rows, 0 ≤ (min row.2 (accumulated.count row.1)).toInt := by
    intro row hrow
    rw [toInt_min]
    exact le_min (hremoved row hrow) (haccumulated.count row.1)
  have hle : total (fun row => min row.2 (accumulated.count row.1)) removed.rows ≤
      sumOf removed := total_le fun row _ => by
    rw [toInt_min]
    exact min_le_left _ _
  have hsum := toInt_foldl_add hzero.ge hmin (by omega)
  have htotal := total_nonneg hmin
  rw [estimateUserSelfModifications, hsum]
  omega

/-! ## From the counts to the attribution -/

/-- The counts are not negative, and their sums are in range. -/
structure Counts.InRange (c : Counts) : Prop where
  work : 0 ≤ c.totalAgentAndUserWork.toInt
  added : 0 ≤ c.postCheckpointUserAdded.toInt
  removed : 0 ≤ c.postCheckpointUserRemoved.toInt
  edits : 0 ≤ c.allUserEditsToNonAgentFiles.toInt
  toAgent : 0 ≤ c.accumulatedToAgentFiles.toInt
  toNonAgent : 0 ≤ c.accumulatedToCommittedNonAgentFiles.toInt
  accumulatedRemoved : 0 ≤ c.accumulatedUserRemoved.toInt
  selfModified : 0 ≤ c.userSelfModified.toInt
  sumAdded : c.totalAgentAndUserWork.toInt + c.accumulatedToAgentFiles.toInt +
    c.accumulatedToCommittedNonAgentFiles.toInt + c.postCheckpointUserAdded.toInt +
      c.allUserEditsToNonAgentFiles.toInt < 2 ^ 31
  sumRemoved : c.accumulatedUserRemoved.toInt + c.postCheckpointUserRemoved.toInt < 2 ^ 31

/-- What an attribution promises. -/
structure InitialAttribution.Bounded (r : InitialAttribution) : Prop where
  agentLines : 0 ≤ r.agentLines ∧ r.agentLines ≤ r.totalCommitted
  humanAdded : 0 ≤ r.humanAdded
  humanModified : 0 ≤ r.humanModified
  humanRemoved : 0 ≤ r.humanRemoved
  agentPercentage : 0 ≤ r.agentPercentage ∧ r.agentPercentage ≤ 100

theorem agentPercentage_bounds (f64 : F64Rounding) {agentLines totalCommitted : Int32}
    (hagent : 0 ≤ agentLines.toInt) (hle : agentLines.toInt ≤ totalCommitted.toInt) :
    0 ≤ agentPercentage f64 agentLines totalCommitted ∧
      agentPercentage f64 agentLines totalCommitted ≤ 100 := by
  have hround0 : f64.round 0 = 0 := by simpa using f64.exact 0 (by norm_num)
  have hround1 : f64.round 1 = 1 := by simpa using f64.exact 1 (by norm_num)
  have hround100 : f64.round 100 = 100 := by simpa using f64.exact 100 (by norm_num)
  unfold agentPercentage
  split_ifs with hpos
  · rw [pos_iff] at hpos
    have htotal : (0 : ℚ) < totalCommitted.toInt := by exact_mod_cast hpos
    have hagentQ : (0 : ℚ) ≤ agentLines.toInt := by exact_mod_cast hagent
    have hleQ : (agentLines.toInt : ℚ) ≤ totalCommitted.toInt := by exact_mod_cast hle
    have hshare0 := f64.monotone 0 _ (div_nonneg hagentQ htotal.le)
    have hshare1 := f64.monotone _ 1 ((div_le_one htotal).mpr hleQ)
    rw [hround0] at hshare0
    rw [hround1] at hshare1
    have hlow := f64.monotone 0 (f64.round (agentLines.toInt / totalCommitted.toInt) * 100)
      (by positivity)
    have hhigh := f64.monotone (f64.round (agentLines.toInt / totalCommitted.toInt) * 100) 100
      (by linarith)
    rw [hround0] at hlow
    rw [hround100] at hhigh
    exact ⟨hlow, hhigh⟩
  · exact ⟨le_rfl, by norm_num⟩

/-- The last steps: what is left of the lines of the agent is within the lines of the commit. -/
theorem bounded_of_lines (f64 : F64Rounding) {agentAdded userAdded userRemoved selfModified : Int32}
    (hagent : 0 ≤ agentAdded.toInt) (hadded : 0 ≤ userAdded.toInt)
    (hremoved : 0 ≤ userRemoved.toInt) (hself : 0 ≤ selfModified.toInt)
    (hsmall : agentAdded.toInt + userAdded.toInt < 2 ^ 31) :
    let humanModified := min userAdded userRemoved
    let pureAdded := userAdded - humanModified
    let pureRemoved := userRemoved - humanModified
    let sum := agentAdded + pureAdded - pureRemoved
    let total := if sum ≤ 0 then max agentAdded 0 else sum
    let agentLines := max (agentAdded - pureRemoved - max (humanModified - selfModified) 0) 0
    InitialAttribution.Bounded ⟨agentLines, pureAdded, humanModified, pureRemoved, total,
      agentPercentage f64 agentLines total⟩ := by
  intro humanModified pureAdded pureRemoved sum total agentLines
  have hzero : (0 : Int32).toInt = 0 := rfl
  have hmodified : humanModified.toInt = min userAdded.toInt userRemoved.toInt := toInt_min
  have haddedHigh := Int32.toInt_lt userAdded
  have hremovedHigh := Int32.toInt_lt userRemoved
  have hselfHigh := Int32.toInt_lt selfModified
  clear_value humanModified
  have hpureAdded : pureAdded.toInt = userAdded.toInt - humanModified.toInt :=
    toInt_sub_of_mem (by omega) (by omega)
  have hpureRemoved : pureRemoved.toInt = userRemoved.toInt - humanModified.toInt :=
    toInt_sub_of_mem (by omega) (by omega)
  clear_value pureAdded pureRemoved
  have hbefore : (agentAdded + pureAdded).toInt = agentAdded.toInt + pureAdded.toInt :=
    toInt_add_of_mem (by omega) (by omega)
  have hsum : sum.toInt = agentAdded.toInt + pureAdded.toInt - pureRemoved.toInt := by
    rw [← hbefore]
    exact toInt_sub_of_mem (by omega) (by omega)
  clear_value sum
  have hkept : (agentAdded - pureRemoved).toInt = agentAdded.toInt - pureRemoved.toInt :=
    toInt_sub_of_mem (by omega) (by omega)
  have hleft : (humanModified - selfModified).toInt = humanModified.toInt - selfModified.toInt :=
    toInt_sub_of_mem (by omega) (by omega)
  have hmodifiedAgent : (max (humanModified - selfModified) 0).toInt =
      max (humanModified.toInt - selfModified.toInt) 0 := by rw [toInt_max, hleft, hzero]
  have hlines : agentLines.toInt = max (agentAdded.toInt - pureRemoved.toInt -
      max (humanModified.toInt - selfModified.toInt) 0) 0 := by
    show (max (agentAdded - pureRemoved - max (humanModified - selfModified) 0) 0).toInt = _
    rw [toInt_max, hzero, toInt_sub_of_mem (by omega) (by omega), hkept, hmodifiedAgent]
  clear_value agentLines
  have htotal : agentLines.toInt ≤ total.toInt := by
    show _ ≤ (if sum ≤ 0 then max agentAdded 0 else sum).toInt
    split_ifs with hsumLow
    · have hsumLow := Int32.le_iff_toInt_le.mp hsumLow
      rw [toInt_max, hzero]
      omega
    · have hsumHigh : ¬ sum.toInt ≤ 0 := fun h => hsumLow (Int32.le_iff_toInt_le.mpr h)
      omega
  clear_value total
  have hagentLines : 0 ≤ agentLines.toInt := by omega
  have hpureAdded0 : 0 ≤ pureAdded.toInt := by omega
  have hmodified0 : 0 ≤ humanModified.toInt := by omega
  have hpureRemoved0 : 0 ≤ pureRemoved.toInt := by omega
  exact ⟨⟨nonneg_iff.mpr hagentLines, Int32.le_iff_toInt_le.mpr htotal⟩,
    nonneg_iff.mpr hpureAdded0, nonneg_iff.mpr hmodified0, nonneg_iff.mpr hpureRemoved0,
    agentPercentage_bounds f64 hagentLines htotal⟩

theorem bounded_initialAttribution (f64 : F64Rounding) {c : Counts} (h : c.InRange) :
    (initialAttribution f64 c).Bounded := by
  obtain ⟨hwork, hadded, hremoved, hedits, htoAgent, htoNonAgent, haccumulated, hself, hsumAdded,
    hsumRemoved⟩ := h
  have hzero : (0 : Int32).toInt = 0 := rfl
  have hagentAdded : (max (c.totalAgentAndUserWork - c.accumulatedToAgentFiles) 0).toInt =
      max (c.totalAgentAndUserWork.toInt - c.accumulatedToAgentFiles.toInt) 0 := by
    rw [toInt_max, hzero, toInt_sub_of_mem (by omega) (by omega)]
  have hnonAgent : (max (c.allUserEditsToNonAgentFiles -
      c.accumulatedToCommittedNonAgentFiles) 0).toInt = max (c.allUserEditsToNonAgentFiles.toInt -
        c.accumulatedToCommittedNonAgentFiles.toInt) 0 := by
    rw [toInt_max, hzero, toInt_sub_of_mem (by omega) (by omega)]
  have hrelevant : (c.accumulatedToAgentFiles + c.accumulatedToCommittedNonAgentFiles).toInt =
      c.accumulatedToAgentFiles.toInt + c.accumulatedToCommittedNonAgentFiles.toInt :=
    toInt_add_of_mem (by omega) (by omega)
  have hpost : (c.accumulatedToAgentFiles + c.accumulatedToCommittedNonAgentFiles +
      c.postCheckpointUserAdded).toInt = c.accumulatedToAgentFiles.toInt +
        c.accumulatedToCommittedNonAgentFiles.toInt + c.postCheckpointUserAdded.toInt := by
    rw [toInt_add_of_mem (by omega) (by omega), hrelevant]
  have huserAdded : (c.accumulatedToAgentFiles + c.accumulatedToCommittedNonAgentFiles +
      c.postCheckpointUserAdded + max (c.allUserEditsToNonAgentFiles -
        c.accumulatedToCommittedNonAgentFiles) 0).toInt = c.accumulatedToAgentFiles.toInt +
      c.accumulatedToCommittedNonAgentFiles.toInt + c.postCheckpointUserAdded.toInt +
        max (c.allUserEditsToNonAgentFiles.toInt -
          c.accumulatedToCommittedNonAgentFiles.toInt) 0 := by
    rw [toInt_add_of_mem (by omega) (by omega), hpost, hnonAgent]
  have huserRemoved : (c.accumulatedUserRemoved + c.postCheckpointUserRemoved).toInt =
      c.accumulatedUserRemoved.toInt + c.postCheckpointUserRemoved.toInt :=
    toInt_add_of_mem (by omega) (by omega)
  exact bounded_of_lines f64 (by omega) (by omega) (by omega) hself (by omega)

/-- The lines of a file that a diff reports, where the lines of all files are in range. -/
theorem fileDiff_bounds (hsmall : fileLines baseTree shadowTree headTree file < 2 ^ 31) :
    DiffBounds (getFileContent baseTree file) (getFileContent shadowTree file)
        (diffLines (getFileContent baseTree file) (getFileContent shadowTree file)) ∧
      DiffBounds (getFileContent shadowTree file) (getFileContent headTree file)
        (diffLines (getFileContent shadowTree file) (getFileContent headTree file)) := by
  have hbase := linesIn_nonneg (getFileContent baseTree file)
  have hshadow := linesIn_nonneg (getFileContent shadowTree file)
  have hhead := linesIn_nonneg (getFileContent headTree file)
  unfold fileLines at hsmall
  exact ⟨diffBounds (by omega) (by omega), diffBounds (by omega) (by omega)⟩

/-- The totals of the touched files are within their lines. -/
structure TouchedTotals.Within (totals : TouchedTotals) (lines : ℤ) : Prop where
  work : 0 ≤ totals.totalAgentAndUserWork.toInt
  added : 0 ≤ totals.postCheckpointUserAdded.toInt
  removed : 0 ≤ totals.postCheckpointUserRemoved.toInt
  perFile : NonNegative totals.postCheckpointUserRemovedPerFile
  sumAdded : totals.totalAgentAndUserWork.toInt + totals.postCheckpointUserAdded.toInt ≤ lines
  sumRemoved : totals.postCheckpointUserRemoved.toInt ≤ lines
  sumPerFile : sumOf totals.postCheckpointUserRemovedPerFile ≤ lines

theorem within_touchedTotals (baseTree shadowTree headTree : Option TreeSnapshot)
    (filesTouched : List String)
    (hsmall : (filesTouched.map (fileLines baseTree shadowTree headTree)).sum < 2 ^ 31) :
    (touchedTotals baseTree shadowTree headTree filesTouched).Within
      (filesTouched.map (fileLines baseTree shadowTree headTree)).sum := by
  obtain ⟨hworkEq, haddedEq, hremovedEq⟩ := touchedTotals_eq baseTree shadowTree headTree
    filesTouched {}
  have hbounds := fun file (hmem : file ∈ filesTouched) => fileDiff_bounds
    (lt_of_le_of_lt (le_sum_of_mem (fun file _ => fileLines_nonneg file) hmem) hsmall)
  have hlines : ∀ file ∈ filesTouched,
      (diffLines (getFileContent baseTree file) (getFileContent shadowTree file)).added.toInt +
          (diffLines (getFileContent shadowTree file) (getFileContent headTree file)).added.toInt ≤
        fileLines baseTree shadowTree headTree file ∧
      (diffLines (getFileContent shadowTree file) (getFileContent headTree file)).removed.toInt ≤
        fileLines baseTree shadowTree headTree file := by
    intro file hmem
    obtain ⟨⟨-, hwork, -, -⟩, ⟨-, hadded, -, hremoved⟩⟩ := hbounds file hmem
    have hbase := linesIn_nonneg (getFileContent baseTree file)
    have hshadow := linesIn_nonneg (getFileContent shadowTree file)
    have hhead := linesIn_nonneg (getFileContent headTree file)
    unfold fileLines
    omega
  obtain ⟨hwork, hwork0, -⟩ := foldl_diff_eq (fileLines baseTree shadowTree headTree)
    (fun file hmem => ⟨(hbounds file hmem).1.added_nonneg,
      (le_add_of_nonneg_right (hbounds file hmem).2.added_nonneg).trans (hlines file hmem).1⟩)
    hsmall
  obtain ⟨hadded, hadded0, -⟩ := foldl_diff_eq (fileLines baseTree shadowTree headTree)
    (fun file hmem => ⟨(hbounds file hmem).2.added_nonneg,
      (le_add_of_nonneg_left (hbounds file hmem).1.added_nonneg).trans (hlines file hmem).1⟩)
    hsmall
  obtain ⟨hremoved, hremoved0, hremovedLe⟩ := foldl_diff_eq _
    (fun file hmem => ⟨(hbounds file hmem).2.removed_nonneg, (hlines file hmem).2⟩) hsmall
  have hboth := total_add_total_le fun file hmem => (hlines file hmem).1
  obtain ⟨hperFile, hsumPerFile⟩ := @removedPerFile_bounds shadowTree headTree filesTouched baseTree {}
    (fun _ h => absurd h List.not_mem_nil) fun file hmem => (hbounds file hmem).2.removed_nonneg
  rw [sumOf_empty, zero_add] at hsumPerFile
  unfold touchedTotals
  constructor
  · rw [hworkEq, hwork]
    exact hwork0
  · rw [haddedEq, hadded]
    exact hadded0
  · rw [hremovedEq, hremoved]
    exact hremoved0
  · exact hperFile
  · rw [hworkEq, haddedEq, hwork, hadded]
    exact hboth
  · rw [hremovedEq, hremoved]
    exact hremovedLe
  · exact hsumPerFile.trans hremovedLe

/-! ### The other files -/

theorem allUserEdits_bounds (baseTree headTree : Option TreeSnapshot) (touched : String → Bool)
    (hsmall : ((getAllChangedFilesBetweenTrees baseTree headTree).map fun file =>
      linesIn (getFileContent baseTree file) + linesIn (getFileContent headTree file)).sum <
        2 ^ 31) :
    0 ≤ (allUserEditsToNonAgentFiles baseTree headTree touched).toInt ∧
      (allUserEditsToNonAgentFiles baseTree headTree touched).toInt ≤
        ((getAllChangedFilesBetweenTrees baseTree headTree).map fun file =>
          linesIn (getFileContent baseTree file) + linesIn (getFileContent headTree file)).sum := by
  have hnonneg : ∀ file, 0 ≤ linesIn (getFileContent baseTree file) +
      linesIn (getFileContent headTree file) := fun file =>
    add_nonneg (linesIn_nonneg _) (linesIn_nonneg _)
  have hsublist : ((committedNonAgentFiles baseTree headTree touched).map fun file =>
      linesIn (getFileContent baseTree file) + linesIn (getFileContent headTree file)).sum ≤
      ((getAllChangedFilesBetweenTrees baseTree headTree).map fun file =>
        linesIn (getFileContent baseTree file) + linesIn (getFileContent headTree file)).sum :=
    (List.filter_sublist.map _).sum_le_sum fun n hn => by
      obtain ⟨file, -, rfl⟩ := List.mem_map.mp hn
      exact hnonneg file
  have hedit : ∀ file ∈ committedNonAgentFiles baseTree headTree touched,
      0 ≤ (diffLines (getFileContent baseTree file) (getFileContent headTree file)).added.toInt ∧
        (diffLines (getFileContent baseTree file) (getFileContent headTree file)).added.toInt ≤
          linesIn (getFileContent baseTree file) + linesIn (getFileContent headTree file) := by
    intro file hmem
    have hle := le_sum_of_mem (fun file _ => hnonneg file) hmem
    have hbase := linesIn_nonneg (getFileContent baseTree file)
    have hhead := linesIn_nonneg (getFileContent headTree file)
    obtain ⟨hadded0, haddedLe, -, -⟩ := diffBounds (x := getFileContent baseTree file)
      (y := getFileContent headTree file) (by omega) (by omega)
    omega
  obtain ⟨hedits, hedits0, heditsLe⟩ := foldl_diff_eq _ hedit (by omega)
  rw [allUserEditsToNonAgentFiles, hedits]
  exact ⟨hedits0, heditsLe.trans hsublist⟩

theorem accumulatedTo_bounds {accumulated : LineCounts} (haccumulated : NonNegative accumulated)
    (hsmall : sumOf accumulated < 2 ^ 31) (hdisjoint : ∀ file, ¬ (p file ∧ q file)) :
    0 ≤ (accumulatedTo accumulated p).toInt ∧ 0 ≤ (accumulatedTo accumulated q).toInt ∧
      (accumulatedTo accumulated p).toInt + (accumulatedTo accumulated q).toInt ≤
        sumOf accumulated := by
  have hparts := total_filter_add_le haccumulated hdisjoint
  have hzero : (0 : Int32).toInt = 0 := rfl
  have hfilter : ∀ r : String → Bool, ∀ row ∈ accumulated.rows.filter fun row => r row.1,
      0 ≤ row.2.toInt := fun r row hrow => haccumulated row (List.mem_filter.mp hrow).1
  have hp := total_nonneg (hfilter p)
  have hq := total_nonneg (hfilter q)
  have hsum : sumOf accumulated = total Prod.snd accumulated.rows := rfl
  rw [accumulatedTo, accumulatedTo, toInt_foldl_add hzero.ge (hfilter p) (by omega),
    toInt_foldl_add hzero.ge (hfilter q) (by omega)]
  omega

theorem inRange_countsOf (hprompts : NonNegativePrompts promptAttributions)
    (hsmall : countedLines baseTree shadowTree headTree filesTouched promptAttributions < 2 ^ 31) :
    (countsOf baseTree shadowTree headTree filesTouched promptAttributions).InRange := by
  have hpromptRemoved := total_nonneg (f := fun pa : PromptAttribution => pa.userLinesRemoved)
    (l := promptAttributions) fun pa hpa => (hprompts pa hpa).1
  have hpromptAdded := sum_nonneg_of (l := promptAttributions)
    (g := fun pa => sumOf pa.userAddedPerFile) fun pa hpa => (hprompts pa hpa).2.sumOf
  have hpromptLines : promptLines promptAttributions =
      total (·.userLinesRemoved) promptAttributions +
        (promptAttributions.map fun pa => sumOf pa.userAddedPerFile).sum := rfl
  have hfiles := sum_nonneg_of (l := filesTouched)
    (g := fileLines baseTree shadowTree headTree) fun file _ => fileLines_nonneg file
  have hchanged := sum_nonneg_of (l := getAllChangedFilesBetweenTrees baseTree headTree)
    (g := fun file => linesIn (getFileContent baseTree file) +
      linesIn (getFileContent headTree file)) fun file _ => add_nonneg (linesIn_nonneg _)
        (linesIn_nonneg _)
  unfold countedLines at hsmall
  obtain ⟨hwork, hadded, hremoved, hperFile, hsumAdded, hsumRemoved, hsumPerFile⟩ :=
    within_touchedTotals baseTree shadowTree headTree filesTouched (by omega)
  obtain ⟨hedits, heditsLe⟩ := allUserEdits_bounds baseTree headTree
    filesTouched.contains (by omega)
  obtain ⟨haccumulated, hsum⟩ := accumulatedUserAddedPerFile_bounds hprompts (by omega)
  obtain ⟨htoAgent, htoNonAgent, hto⟩ := accumulatedTo_bounds haccumulated (by omega)
    (p := filesTouched.contains) (q := fun file => !filesTouched.contains file &&
      (committedNonAgentFiles baseTree headTree filesTouched.contains).contains file)
    fun file ⟨hp, hq⟩ => by
      simp only [hp, Bool.not_true, Bool.false_and, Bool.false_eq_true] at hq
  have hpromptsRemoved := accumulatedUserRemoved_eq hprompts (by omega)
  have hself := estimateUserSelfModifications_nonneg haccumulated hperFile (by omega)
  exact ⟨hwork, hadded, hremoved, hedits, htoAgent, htoNonAgent,
    by dsimp only [countsOf]; omega, hself, by dsimp only [countsOf]; omega,
    by dsimp only [countsOf]; omega⟩

/-! ## The order of the files -/

section Trees

variable (shadowTree headTree)

/-- The rows that the loop puts into the map, in its order. -/
def removedRows (filesTouched : List String) : List (String × Int32) :=
  (filesTouched.map fun file => (file, (diffLines (getFileContent shadowTree file)
    (getFileContent headTree file)).removed)).filter fun row => 0 < row.2

end Trees

theorem removedPerFile_eq (totals : TouchedTotals) :
    (filesTouched.foldl (addTouchedFile baseTree shadowTree headTree)
        totals).postCheckpointUserRemovedPerFile =
      (removedRows shadowTree headTree filesTouched).foldl UniqueTable.upsert
        totals.postCheckpointUserRemovedPerFile := by
  induction filesTouched generalizing totals with
  | nil => rfl
  | cons file files ih =>
    rw [List.foldl_cons, ih, removedRows, removedRows, List.map_cons, List.filter_cons]
    dsimp only [addTouchedFile]
    by_cases hpos : 0 < (diffLines (getFileContent shadowTree file)
      (getFileContent headTree file)).removed
    · rw [if_pos hpos, if_pos (decide_eq_true hpos), List.foldl_cons]
    · rw [if_neg hpos, if_neg fun h => hpos (of_decide_eq_true h)]

theorem mem_removedPerFile :
    row ∈ (touchedTotals baseTree shadowTree headTree
        filesTouched).postCheckpointUserRemovedPerFile.rows ↔
      row ∈ removedRows shadowTree headTree filesTouched := by
  rw [touchedTotals, removedPerFile_eq]
  refine UniqueTable.mem_foldl_upsert_empty fun r hr r' hr' hsame => ?_
  obtain ⟨file, -, rfl⟩ := List.mem_map.mp (List.mem_filter.mp hr).1
  obtain ⟨file', -, rfl⟩ := List.mem_map.mp (List.mem_filter.mp hr').1
  obtain rfl : file = file' := hsame
  rfl

theorem touchedTotals_perm (baseTree shadowTree headTree : Option TreeSnapshot)
    (h : filesTouched.Perm files') :
    (touchedTotals baseTree shadowTree headTree filesTouched).totalAgentAndUserWork =
        (touchedTotals baseTree shadowTree headTree files').totalAgentAndUserWork ∧
      (touchedTotals baseTree shadowTree headTree filesTouched).postCheckpointUserAdded =
        (touchedTotals baseTree shadowTree headTree files').postCheckpointUserAdded ∧
      (touchedTotals baseTree shadowTree headTree filesTouched).postCheckpointUserRemoved =
        (touchedTotals baseTree shadowTree headTree files').postCheckpointUserRemoved ∧
      (touchedTotals baseTree shadowTree headTree
          filesTouched).postCheckpointUserRemovedPerFile.rows.Perm
        (touchedTotals baseTree shadowTree headTree files').postCheckpointUserRemovedPerFile.rows := by
  obtain ⟨hwork, hadded, hremoved⟩ := touchedTotals_eq baseTree shadowTree headTree
    filesTouched {}
  obtain ⟨hwork', hadded', hremoved'⟩ := touchedTotals_eq baseTree shadowTree headTree
    files' {}
  refine ⟨?_, ?_, ?_, ?_⟩
  · rw [touchedTotals, touchedTotals, hwork, hwork']
    exact foldl_add_perm h _
  · rw [touchedTotals, touchedTotals, hadded, hadded']
    exact foldl_add_perm h _
  · rw [touchedTotals, touchedTotals, hremoved, hremoved']
    exact foldl_add_perm h _
  · refine (List.perm_ext_iff_of_nodup (UniqueTable.unique _).of_map
      (UniqueTable.unique _).of_map).mpr fun row => ?_
    rw [mem_removedPerFile, mem_removedPerFile]
    exact ((h.map _).filter _).mem_iff

theorem estimateUserSelfModifications_perm {accumulated removed removed' : LineCounts}
    (h : removed.rows.Perm removed'.rows) :
    estimateUserSelfModifications accumulated removed =
      estimateUserSelfModifications accumulated removed' := foldl_add_perm h 0

/-- **The order does not matter.** -/
theorem calculateAttribution_perm (f64 : F64Rounding) (h : filesTouched.Perm files') :
    calculateAttributionWithAccumulated f64 baseTree shadowTree headTree filesTouched
        promptAttributions =
      calculateAttributionWithAccumulated f64 baseTree shadowTree headTree files'
        promptAttributions := by
  have hcontains : filesTouched.contains = files'.contains := by
    funext file
    rw [Bool.eq_iff_iff, List.contains_iff_mem, List.contains_iff_mem, h.mem_iff]
  have hempty : filesTouched.isEmpty = files'.isEmpty := by
    rw [Bool.eq_iff_iff, List.isEmpty_iff, List.isEmpty_iff, ← List.length_eq_zero_iff,
      ← List.length_eq_zero_iff, h.length_eq]
  obtain ⟨hwork, hadded, hremoved, hperFile⟩ := touchedTotals_perm baseTree shadowTree headTree h
  unfold calculateAttributionWithAccumulated countsOf
  dsimp only
  rw [hcontains, hempty, hwork, hadded, hremoved, estimateUserSelfModifications_perm hperFile]

/-! ## Attributions -/

/-- **The bounds of an attribution**, and what it depends on. -/
theorem attribution_bounded_and_unordered (f64 : F64Rounding)
    (baseTree shadowTree headTree : Option TreeSnapshot) (filesTouched : List String)
    (promptAttributions : List PromptAttribution)
    (hprompts : NonNegativePrompts promptAttributions)
    (hsmall : countedLines baseTree shadowTree headTree filesTouched promptAttributions < 2 ^ 31) :
    (∀ r ∈ calculateAttributionWithAccumulated f64 baseTree shadowTree headTree filesTouched
        promptAttributions, r.Bounded) ∧
      (∀ files', filesTouched.Perm files' →
        calculateAttributionWithAccumulated f64 baseTree shadowTree headTree filesTouched
            promptAttributions =
          calculateAttributionWithAccumulated f64 baseTree shadowTree headTree files'
            promptAttributions) ∧
      (filesTouched.Nodup → ∀ files', files'.Nodup → (∀ file, file ∈ filesTouched ↔ file ∈ files') →
        calculateAttributionWithAccumulated f64 baseTree shadowTree headTree filesTouched
            promptAttributions =
          calculateAttributionWithAccumulated f64 baseTree shadowTree headTree files'
            promptAttributions) := by
  refine ⟨fun r hr => ?_, fun files' h => calculateAttribution_perm f64 h,
    fun hnodup files' hnodup' hsame => calculateAttribution_perm f64
      ((List.perm_ext_iff_of_nodup hnodup hnodup').mpr hsame)⟩
  unfold calculateAttributionWithAccumulated at hr
  split_ifs at hr with hempty
  · exact absurd hr (Option.not_mem_none r)
  · obtain rfl := Option.some.inj hr
    exact bounded_initialAttribution f64 (inRange_countsOf hprompts hsmall)

/-! ### Prompts -/

/-- The lines of a worktree file and of what it is compared with. -/
def worktreeLines (baseTree lastCheckpointTree : Option TreeSnapshot) (file : String × String) : ℤ :=
  linesIn (getFileContent (lastCheckpointTree <|> baseTree) file.1) + linesIn file.2

/-- What the fold over the worktree files adds up. -/
theorem addWorktreeFile_fold (baseTree lastCheckpointTree : Option TreeSnapshot)
    {files : List (String × String)} (result : PromptAttribution)
    (hresult : NonNegative result.userAddedPerFile)
    (hfiles : ∀ file ∈ files, 0 ≤ (diffLines
      (getFileContent (lastCheckpointTree <|> baseTree) file.1) file.2).added.toInt) :
    (files.foldl (addWorktreeFile baseTree lastCheckpointTree) result).userLinesRemoved =
        files.foldl (fun n file => n + (diffLines
          (getFileContent (lastCheckpointTree <|> baseTree) file.1) file.2).removed)
          result.userLinesRemoved ∧
      NonNegative (files.foldl (addWorktreeFile baseTree lastCheckpointTree)
        result).userAddedPerFile := by
  induction files generalizing result with
  | nil => exact ⟨rfl, hresult⟩
  | cons file files ih =>
    refine ih (addWorktreeFile baseTree lastCheckpointTree result file) ?_
      fun other hother => hfiles other (List.mem_cons_of_mem file hother)
    dsimp only [addWorktreeFile]
    split_ifs
    · exact NonNegative.upsert _ hresult (hfiles file List.mem_cons_self)
    · exact hresult

/-- What is counted for a prompt is not negative. -/
theorem nonNegative_calculatePromptAttribution (baseTree lastCheckpointTree : Option TreeSnapshot)
    (worktreeFiles : UniqueTable (String × String) Prod.fst) (checkpointNumber : Int32)
    (hsmall : (worktreeFiles.rows.map (worktreeLines baseTree lastCheckpointTree)).sum < 2 ^ 31) :
    NonNegativePrompts
      [calculatePromptAttribution baseTree lastCheckpointTree worktreeFiles checkpointNumber] := by
  have hlines : ∀ file, 0 ≤ worktreeLines baseTree lastCheckpointTree file := fun file =>
    add_nonneg (linesIn_nonneg _) (linesIn_nonneg _)
  have hdiff : ∀ file ∈ worktreeFiles.rows, DiffBounds
      (getFileContent (lastCheckpointTree <|> baseTree) file.1) file.2
      (diffLines (getFileContent (lastCheckpointTree <|> baseTree) file.1) file.2) := by
    intro file hmem
    have hle := le_sum_of_mem (fun file _ => hlines file) hmem
    have hreference := linesIn_nonneg (getFileContent (lastCheckpointTree <|> baseTree) file.1)
    have hcontent := linesIn_nonneg file.2
    have hsum : worktreeLines baseTree lastCheckpointTree file =
      linesIn (getFileContent (lastCheckpointTree <|> baseTree) file.1) + linesIn file.2 := rfl
    exact diffBounds (by omega) (by omega)
  obtain ⟨hremoved, hadded⟩ := addWorktreeFile_fold baseTree lastCheckpointTree
    { checkpointNumber } (fun _ h => absurd h List.not_mem_nil) fun file hmem => (hdiff file hmem).added_nonneg
  have hle : total (fun file => (diffLines
      (getFileContent (lastCheckpointTree <|> baseTree) file.1) file.2).removed)
      worktreeFiles.rows ≤ (worktreeFiles.rows.map
        (worktreeLines baseTree lastCheckpointTree)).sum := total_le fun file hmem =>
    (hdiff file hmem).removed_le.trans (le_add_of_nonneg_right (linesIn_nonneg _))
  have hnonneg := total_nonneg fun file hmem => (hdiff file hmem).removed_nonneg
  have hzero : (0 : Int32).toInt = 0 := rfl
  intro pa hpa
  obtain rfl := List.mem_singleton.mp hpa
  refine ⟨?_, hadded⟩
  rw [calculatePromptAttribution, hremoved,
    toInt_foldl_add hzero.ge (fun file hmem => (hdiff file hmem).removed_nonneg) (by omega)]
  omega

/-! ## A file that is listed twice -/

/-- No rounding, as where `f64` has every result. -/
def exactArithmetic : F64Rounding := ⟨id, fun _ _ h => h, fun _ _ => rfl⟩

def mainFile (content : String) : Option TreeSnapshot :=
  some ⟨⟨[("main.rs", content)], List.nodup_singleton _⟩⟩

/-- The agent writes a line, and the user adds another one. -/
theorem mainFile_bounded :
    (∀ r ∈ calculateAttributionWithAccumulated exactArithmetic (mainFile "") (mainFile "agent\n")
        (mainFile "agent\nuser\n") ["main.rs"] [], r.Bounded) ∧
      calculateAttributionWithAccumulated exactArithmetic (mainFile "") (mainFile "agent\n")
          (mainFile "agent\nuser\n") ["main.rs"] [] =
        some ⟨1, 1, 0, 0, 2, 50⟩ :=
  ⟨(attribution_bounded_and_unordered exactArithmetic (mainFile "") (mainFile "agent\n")
    (mainFile "agent\nuser\n") ["main.rs"] [] (fun _ h => absurd h List.not_mem_nil)
      (by decide)).1, by decide +kernel⟩

/-- The user removes the agent's line. -/
theorem mainFile_nonNegative :
    NonNegativePrompts
      [calculatePromptAttribution (mainFile "") (mainFile "agent\n")
        ⟨[("main.rs", "")], List.nodup_singleton _⟩ 1] :=
  nonNegative_calculatePromptAttribution (mainFile "") (mainFile "agent\n") _ 1 (by decide)

/-- **A file that is listed twice counts twice.** -/
theorem repeatedFile_counts_twice :
    (∀ file, file ∈ ["main.rs"] ↔ file ∈ ["main.rs", "main.rs"]) ∧
      calculateAttributionWithAccumulated exactArithmetic (mainFile "") (mainFile "agent\n")
          (mainFile "agent\nuser\n") ["main.rs"] [] ≠
        calculateAttributionWithAccumulated exactArithmetic (mainFile "") (mainFile "agent\n")
          (mainFile "agent\nuser\n") ["main.rs", "main.rs"] [] :=
  ⟨fun _ => by simp, by decide⟩

end Attribution
end Checkpoints
end Bitloops
