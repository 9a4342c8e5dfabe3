import Bitloops.CommitHunks.DiffPaths
import Bitloops.DevqlGraphql.ArgumentTexts

/-!
# Reading a patch

What is read of the sections and hunks of a rendered commit, `parse_renderCommit`: a hunk keeps its
range, and its lines apart from those that look like a `---` or a `+++` line.
-/

namespace Bitloops
namespace CommitHunks

open LanguageAdapter (Text trim isWhitespace)
open DevqlGraphql (parseI32 parseInt parseDigits)
open Separators TextLines

/-! ## Numbers -/

theorem isDigit_of_mem_natText {n : ℕ} {c : Char} (h : c ∈ natText n) : c.isDigit = true := by
  rw [natText, Nat.toList_repr] at h
  exact Nat.isDigit_of_mem_toDigits (by decide) (by decide) h

theorem natText_ne_nil (n : ℕ) : natText n ≠ [] := fun h =>
  Nat.repr_ne_empty (String.toList_eq_nil_iff.mp h)

theorem parseDigits_natText (n : ℕ) : parseDigits (natText n) = some n := by
  have hfold : ∀ (text : Text) (start : ℕ), (∀ c ∈ text, c.isDigit = true) →
      text.foldlM (fun n c => if c.isDigit then some (10 * n + (c.toNat - 48)) else none) start =
        some (Nat.ofDigitChars 10 text start) := by
    intro text start htext
    induction text generalizing start with
    | nil => rfl
    | cons c text ih =>
      rw [List.foldlM_cons, if_pos (htext c List.mem_cons_self), Nat.ofDigitChars_cons]
      exact ih _ fun d hd => htext d (List.mem_cons_of_mem c hd)
  rw [parseDigits, if_neg (natText_ne_nil n), hfold _ _ fun c => isDigit_of_mem_natText, natText,
    Nat.toList_repr, Nat.ofDigitChars_ten_toDigits]

theorem parseNumber_natText {n : ℕ} (hn : n < 2 ^ 31) : parseNumber (natText n) = .ok (n : ℤ) := by
  have hparse : parseI32 (natText n) = some (n : ℤ) := by
    obtain ⟨c, rest, hcons⟩ := List.exists_cons_of_ne_nil (natText_ne_nil n)
    have hc : c.isDigit = true := isDigit_of_mem_natText (hcons ▸ List.mem_cons_self)
    have hdigits := parseDigits_natText n
    rw [hcons] at hdigits ⊢
    have hminus : c ≠ '-' := by rintro rfl; exact absurd hc (by decide)
    have hplus : c ≠ '+' := by rintro rfl; exact absurd hc (by decide)
    have hbounds : -2 ^ 31 ≤ (n : ℤ) ∧ (n : ℤ) ≤ 2 ^ 31 - 1 := by omega
    unfold parseI32 parseInt
    split
    rename_i negative digits hsign
    split at hsign
    · exact absurd (List.cons_eq_cons.mp ‹_›).1 hminus
    · exact absurd (List.cons_eq_cons.mp ‹_›).1 hplus
    · obtain ⟨rfl, rfl⟩ := Prod.mk.inj hsign
      rw [hdigits]
      exact if_pos hbounds
  rw [parseNumber, hparse]

/-! ## Hunk headers -/

theorem isDigit_or_of_mem_renderRange {start count : ℕ} {c : Char}
    (h : c ∈ renderRange start count) : c.isDigit = true ∨ c = ',' := by
  rw [renderRange] at h
  split_ifs at h
  · exact Or.inl (isDigit_of_mem_natText h)
  · rcases List.mem_append.mp h with h | h
    · exact Or.inl (isDigit_of_mem_natText h)
    · rcases List.mem_cons.mp h with h | h
      · exact Or.inr h
      · exact Or.inl (isDigit_of_mem_natText h)

/-- What is neither a digit nor a comma is not in a range. -/
theorem notMem_renderRange {start count : ℕ} {c : Char} (hdigit : c.isDigit = false)
    (hcomma : c ≠ ',') : c ∉ renderRange start count := by
  intro h
  rcases isDigit_or_of_mem_renderRange h with h | h
  · rw [hdigit] at h
    exact Bool.false_ne_true h
  · exact hcomma h

theorem isWhitespace_of_isDigit {c : Char} (h : c.isDigit = true) : isWhitespace c = false :=
  DevqlGraphql.isWhitespace_of_isNameChar (by
    rw [DevqlGraphql.isNameChar, Char.isAlphanum, h, Bool.or_true, Bool.true_or])

theorem isWhitespace_of_mem_renderRange {start count : ℕ} {c : Char}
    (h : c ∈ renderRange start count) : isWhitespace c = false := by
  rcases isDigit_or_of_mem_renderRange h with h | rfl
  · exact isWhitespace_of_isDigit h
  · decide

theorem parseHunkRange_renderRange {start count : ℕ} (mark : Char) (hstart : start < 2 ^ 31)
    (hcount : count < 2 ^ 31) :
    parseHunkRange (mark :: renderRange start count) mark = .ok ((start : ℤ), (count : ℤ)) := by
  have hcomma : ∀ n, ',' ∉ natText n := fun n h =>
    absurd (isDigit_of_mem_natText h) (by decide)
  have hmark : stripPrefix [mark] (mark :: renderRange start count) =
      some (renderRange start count) := stripPrefix_append [mark] _
  rw [parseHunkRange, hmark, renderRange]
  split_ifs with hone
  · have hnone : splitOnce ',' (natText start) = none := splitOnce_eq_none (hcomma start)
    have hcount : parseNumber "1".toList = .ok ((count : ℤ)) := by
      rw [hone]
      rfl
    simp only [hnone, Option.getD_none, parseNumber_natText hstart, hcount]
    rfl
  · simp only [splitOnce_append (hcomma start), Option.getD_some, parseNumber_natText hstart,
      parseNumber_natText hcount]
    rfl

theorem headerLine_eq (hunk : DiffHunk) :
    ∃ rest, hunk.headerLine = "@@ ".toList ++ (('-' :: renderRange hunk.oldStart
      hunk.deleted.length ++ ' ' :: '+' :: renderRange hunk.newStart hunk.added.length) ++
        " @@".toList ++ rest) := by
  refine ⟨if hunk.heading = [] then [] else ' ' :: hunk.heading, ?_⟩
  have hold : "@@ -".toList = ['@', '@', ' ', '-'] := rfl
  have hnew : " +".toList = [' ', '+'] := rfl
  have hstart : "@@ ".toList = ['@', '@', ' '] := rfl
  have hend : " @@".toList = [' ', '@', '@'] := rfl
  rw [DiffHunk.headerLine, hold, hnew, hstart, hend]
  simp only [List.append_assoc, List.cons_append, List.nil_append]

theorem parseHunkHeader_headerLine (hunk : DiffHunk) :
    parseHunkHeader hunk.headerLine =
      .ok ⟨hunk.oldStart, hunk.deleted.length, hunk.newStart, hunk.added.length⟩ := by
  obtain ⟨rest, hline⟩ := headerLine_eq hunk
  have hold := hunk.oldFits
  have hnew := hunk.newFits
  set ranges := '-' :: renderRange hunk.oldStart hunk.deleted.length ++
    ' ' :: '+' :: renderRange hunk.newStart hunk.added.length with hranges
  have hat : '@' ∉ ranges := by
    have hrange : ∀ {start count : ℕ}, '@' ∉ renderRange start count :=
      notMem_renderRange (by decide) (by decide)
    simp [hranges, hrange]
  have hsplit : splitFirst " @@".toList (ranges ++ " @@".toList ++ rest) = some (ranges, rest) := by
    refine splitFirst_append (List.cons_ne_nil ' ' ['@', '@']) fun hwithin => ?_
    have hcount := hwithin.sublist.count_le '@'
    have hmark : List.count '@' " @@".toList = 2 := by decide
    have hend : List.count '@' " @@".toList.dropLast = 1 := by decide
    rw [List.count_append, hmark, hend, List.count_eq_zero_of_not_mem hat] at hcount
    omega
  have hfields : fields isWhitespace ranges =
      ['-' :: renderRange hunk.oldStart hunk.deleted.length,
        '+' :: renderRange hunk.newStart hunk.added.length] := by
    have hchars : ∀ {mark : Char} {start count : ℕ}, isWhitespace mark = false →
        ∀ c ∈ mark :: renderRange start count, isWhitespace c = false := by
      intro mark start count hmark c hc
      rcases List.mem_cons.mp hc with rfl | hc
      · exact hmark
      · exact isWhitespace_of_mem_renderRange hc
    rw [hranges, fields_cons (hchars (by decide)) (List.cons_ne_nil _ _) (by decide),
      fields_last (hchars (by decide)) (List.cons_ne_nil _ _)]
  rw [parseHunkHeader, hline, stripPrefix_append, Option.bind_some, hsplit]
  simp only [hfields]
  rw [parseHunkRange_renderRange '-' (by omega) (by omega),
    parseHunkRange_renderRange '+' (by omega) (by omega)]
  rfl

/-! ## The lines of a hunk -/

/-- The lines that are kept: a line that looks like a `---` or a `+++` line behind its mark is
dropped. -/
def keptLines (dropped : String) (lines : List Text) : List Text :=
  (lines.map stripReturn).filter fun line => !startsWith dropped line

theorem numbered_nil (start : ℤ) : numbered start [] = [] := rfl

theorem numbered_cons (start : ℤ) (line : Text) (lines : List Text) :
    numbered start (line :: lines) = ⟨start, line⟩ :: numbered (start + 1) lines := by
  rw [numbered, List.zipIdx_cons, List.map_cons, numbered, List.zipIdx_succ, List.map_map]
  refine congrArg₂ List.cons ?_ (List.map_congr_left fun line _ => ?_)
  · simp
  · simp only [Function.comp_apply, CommitHunkLine.mk.injEq, and_true]
    omega

theorem keptLines_cons_of_dropped {dropped : String} {line : Text}
    (h : startsWith dropped (stripReturn line) = true) (lines : List Text) :
    keptLines dropped (line :: lines) = keptLines dropped lines := by
  rw [keptLines, List.map_cons, List.filter_cons_of_neg (by rw [h]; exact Bool.false_ne_true)]
  rfl

theorem keptLines_cons_of_kept {dropped : String} {line : Text}
    (h : startsWith dropped (stripReturn line) = false) (lines : List Text) :
    keptLines dropped (line :: lines) = stripReturn line :: keptLines dropped lines := by
  rw [keptLines, List.map_cons, List.filter_cons_of_pos (by rw [h]; rfl)]
  rfl

theorem foldl_deleted (lines : List Text) (body : HunkBody) :
    (lines.map fun line => stripReturn ('-' :: line)).foldl bodyStep body =
      { body with
        oldLine := body.oldLine + (keptLines "-- " lines).length
        deletedLines := body.deletedLines ++ numbered body.oldLine (keptLines "-- " lines) } := by
  induction lines generalizing body with
  | nil =>
    change body = { body with
      oldLine := body.oldLine + 0, deletedLines := body.deletedLines ++ [] }
    rw [Int.add_zero, List.append_nil]
  | cons line lines ih =>
    rw [List.map_cons, List.foldl_cons, stripReturn_cons (by decide), ih]
    have hmark : startsWith "--- " ('-' :: stripReturn line) =
        startsWith "-- " (stripReturn line) := rfl
    cases hdropped : startsWith "-- " (stripReturn line) with
    | true =>
      rw [bodyStep, if_pos (hmark.trans hdropped), keptLines_cons_of_dropped hdropped]
    | false =>
      rw [bodyStep, if_neg (by rw [hmark, hdropped]; exact Bool.false_ne_true),
        keptLines_cons_of_kept hdropped, numbered_cons, List.append_assoc, List.singleton_append,
        List.length_cons, Int.add_assoc, Int.add_comm 1, Int.natCast_succ]

theorem foldl_added (lines : List Text) (body : HunkBody) :
    (lines.map fun line => stripReturn ('+' :: line)).foldl bodyStep body =
      { body with
        newLine := body.newLine + (keptLines "++ " lines).length
        addedLines := body.addedLines ++ numbered body.newLine (keptLines "++ " lines) } := by
  induction lines generalizing body with
  | nil =>
    change body = { body with newLine := body.newLine + 0, addedLines := body.addedLines ++ [] }
    rw [Int.add_zero, List.append_nil]
  | cons line lines ih =>
    rw [List.map_cons, List.foldl_cons, stripReturn_cons (by decide), ih]
    have hmark : startsWith "+++ " ('+' :: stripReturn line) =
        startsWith "++ " (stripReturn line) := rfl
    cases hdropped : startsWith "++ " (stripReturn line) with
    | true =>
      rw [bodyStep, if_pos (hmark.trans hdropped), keptLines_cons_of_dropped hdropped]
    | false =>
      rw [bodyStep, if_neg (by rw [hmark, hdropped]; exact Bool.false_ne_true),
        keptLines_cons_of_kept hdropped, numbered_cons, List.append_assoc, List.singleton_append,
        List.length_cons, Int.add_assoc, Int.add_comm 1, Int.natCast_succ]

theorem foldl_marker (h : Prop) [Decidable h] (body : HunkBody) :
    ((if h then [] else [noNewlineMarker]).map stripReturn).foldl bodyStep body = body := by
  split_ifs
  · rfl
  · rfl

/-- What is read of the lines of a hunk. -/
theorem foldl_bodyLines (hunk : DiffHunk) :
    (hunk.bodyLines.map stripReturn).foldl bodyStep
        { oldLine := hunk.oldStart, newLine := hunk.newStart } =
      { oldLine := hunk.oldStart + (keptLines "-- " hunk.deleted).length
        newLine := hunk.newStart + (keptLines "++ " hunk.added).length
        addedLines := numbered hunk.newStart (keptLines "++ " hunk.added)
        deletedLines := numbered hunk.oldStart (keptLines "-- " hunk.deleted) } := by
  rw [DiffHunk.bodyLines, List.map_append, List.map_append, List.map_append, List.map_map,
    List.map_map, List.foldl_append, List.foldl_append, List.foldl_append, foldl_marker]
  have hdeleted := foldl_deleted hunk.deleted
    { oldLine := hunk.oldStart, newLine := hunk.newStart }
  have hadded := fun body => foldl_added hunk.added body
  simp only [Function.comp_def] at hdeleted hadded ⊢
  rw [hdeleted, foldl_marker, hadded]
  rfl

/-- Every line of a hunk begins with a mark. -/
theorem exists_mark {hunk : DiffHunk} {line : Text} (h : line ∈ hunk.bodyLines.map stripReturn) :
    ∃ mark rest, line = mark :: rest ∧ (mark = '-' ∨ mark = '+' ∨ mark = '\\') := by
  obtain ⟨raw, hraw, rfl⟩ := List.mem_map.mp h
  simp only [DiffHunk.bodyLines, List.mem_append, List.mem_map] at hraw
  have hmarker : ∀ {p : Prop} [Decidable p], raw ∈ (if p then [] else [noNewlineMarker]) →
      raw = noNewlineMarker := by
    intro p _ hmem
    split_ifs at hmem
    · exact absurd hmem List.not_mem_nil
    · exact List.mem_singleton.mp hmem
  rcases hraw with ((⟨line, -, rfl⟩ | hraw) | ⟨line, -, rfl⟩) | hraw
  · exact ⟨'-', stripReturn line, stripReturn_cons (by decide) line, Or.inl rfl⟩
  · rw [hmarker hraw]
    exact ⟨'\\', noNewlineMarker.tail, rfl, Or.inr (Or.inr rfl)⟩
  · exact ⟨'+', stripReturn line, stripReturn_cons (by decide) line, Or.inr (Or.inl rfl)⟩
  · rw [hmarker hraw]
    exact ⟨'\\', noNewlineMarker.tail, rfl, Or.inr (Or.inr rfl)⟩

theorem stripReturn_headerLine (hunk : DiffHunk) :
    stripReturn hunk.headerLine = hunk.headerLine := by
  rw [stripReturn_eq_self_iff]
  obtain ⟨front, hfront⟩ : ∃ front, hunk.headerLine = front ++ ['@'] ++
      (if hunk.heading = [] then [] else ' ' :: hunk.heading) := by
    refine ⟨"@@ -".toList ++ renderRange hunk.oldStart hunk.deleted.length ++ " +".toList ++
      renderRange hunk.newStart hunk.added.length ++ " @".toList, ?_⟩
    have hend : " @@".toList = " @".toList ++ ['@'] := rfl
    rw [DiffHunk.headerLine, hend]
    exact congrArg (· ++ _) (List.append_assoc ..).symm
  rw [hfront]
  rcases List.eq_nil_or_concat' hunk.heading with hheading | ⟨heading, c, hheading⟩
  · rw [if_pos hheading, List.append_nil, List.getLast?_concat]
    exact fun h => absurd (Option.some.inj h) (by decide)
  · have hend : isWhitespace c = false :=
      hunk.headingEnd c (by rw [hheading, List.getLast?_concat]; rfl)
    rw [if_neg (by rw [hheading]; simp), hheading, ← List.cons_append, ← List.append_assoc,
      List.getLast?_concat]
    intro h
    rw [Option.some.inj h] at hend
    exact absurd hend (by decide)

section Parsed

variable (uuid : Text → Text) (repoId commitSha : Text)

/-- What is read of a hunk. -/
def parsedHunk (delta : CommitFileDelta) (hunkIndex : ℤ) (hunk : DiffHunk) : Option CommitHunk :=
  if keptLines "++ " hunk.added = [] ∧ keptLines "-- " hunk.deleted = [] then none
  else
    some
      { hunk.commitHunk uuid repoId commitSha delta hunkIndex with
        addedLines := numbered hunk.newStart (keptLines "++ " hunk.added)
        deletedLines := numbered hunk.oldStart (keptLines "-- " hunk.deleted)
        patch := ['\n'].intercalate (hunk.headerLine :: hunk.bodyLines.map stripReturn) }

theorem numbered_eq_nil_iff {start : ℤ} {lines : List Text} :
    numbered start lines = [] ↔ lines = [] := by
  rw [numbered, List.map_eq_nil_iff, List.zipIdx_eq_nil_iff]

theorem hunkOf_lines (delta : CommitFileDelta) (hunkIndex : ℤ) (hunk : DiffHunk) :
    hunkOf uuid repoId commitSha delta hunkIndex hunk.headerLine
        (hunk.bodyLines.map stripReturn) =
      .ok (parsedHunk uuid repoId commitSha delta hunkIndex hunk) := by
  have hbody : (hunk.bodyLines.map stripReturn).takeWhile
      (fun line => !startsWith "diff --git " line) = hunk.bodyLines.map stripReturn := by
    refine List.takeWhile_eq_self_iff.mpr fun line hline => ?_
    obtain ⟨mark, rest, rfl, rfl | rfl | rfl⟩ := exists_mark hline
    · rfl
    · rfl
    · rfl
  rw [hunkOf, parseHunkHeader_headerLine]
  change (if (List.foldl bodyStep _ (List.takeWhile _ _)).addedLines = [] ∧ _ then _ else _) = _
  rw [hbody, foldl_bodyLines, parsedHunk]
  simp only [numbered_eq_nil_iff]
  split_ifs <;> rfl

end Parsed

end CommitHunks
end Bitloops
