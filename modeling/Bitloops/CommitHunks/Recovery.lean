import Bitloops.CommitHunks.SectionReading
import Bitloops.Foundation.PartByPart

/-!
# What of a commit is recovered

A patch does not say where the header of a section ends, and the parser does not count the lines
of a hunk.  So a hunk is recovered when none of its lines looks like a `---` or a `+++` line behind
its mark, or ends with a carriage return, and a file when its paths can be read where they stand:
`parse_renderCommit_iff`.
-/

namespace Bitloops
namespace CommitHunks

open LanguageAdapter (Text trim isWhitespace)
open TextLines

/-! ## What the lines of a section say -/

variable {header : SectionHeader}

theorem headerStep_diffGitLine (before after : GitPath) :
    headerStep header (diffGitLine before after) = header := rfl

theorem headerStep_newFile (mode : Text) :
    headerStep header ("new file mode ".toList ++ mode) =
      { header with changeKind := some "added".toList } := rfl

theorem headerStep_deletedFile (mode : Text) :
    headerStep header ("deleted file mode ".toList ++ mode) =
      { header with changeKind := some "deleted".toList } := rfl

theorem headerStep_renameFrom (raw : Text) :
    headerStep header ("rename from ".toList ++ raw) =
      { header with
        pathBefore := normaliseDiffPath raw none
        changeKind := some "renamed".toList } := rfl

theorem headerStep_renameTo (raw : Text) :
    headerStep header ("rename to ".toList ++ raw) =
      { header with
        pathAfter := normaliseDiffPath raw none
        changeKind := some "renamed".toList } := rfl

theorem headerStep_minus (raw : Text) :
    headerStep header ("--- ".toList ++ raw) =
      { header with pathBefore := normaliseDiffPath raw (some "a/".toList) } := rfl

theorem headerStep_plus (raw : Text) :
    headerStep header ("+++ ".toList ++ raw) =
      { header with pathAfter := normaliseDiffPath raw (some "b/".toList) } := rfl

/-! ## Names of blobs -/

theorem normaliseBlobSha_blob (blob : Blob) : normaliseBlobSha blob.hex = some blob.hex := by
  obtain ⟨c, hc, hzero⟩ := blob.notNull
  have hblank : ∀ c ∈ blob.hex, isWhitespace c = false := fun c hc =>
    DevqlGraphql.isWhitespace_of_isNameChar (by
      rw [DevqlGraphql.isNameChar, blob.digits c hc, Bool.true_or])
  have hne : blob.hex ≠ [] := List.ne_nil_of_mem hc
  have htrim : trim blob.hex = blob.hex :=
    LanguageAdapter.trim_tight (LanguageAdapter.tight_of_forall hne hblank)
  rw [normaliseBlobSha, htrim]
  refine if_neg ?_
  rintro (h | h)
  · exact hne h
  · exact hzero (of_decide_eq_true (List.all_eq_true.mp h c hc))

theorem normaliseBlobSha_null : normaliseBlobSha nullBlob = none := by decide

/-- The texts that stand in an `index` line. -/
def IsBlobText (text : Text) : Prop := (∀ c ∈ text, isWhitespace c = false ∧ c ≠ '.') ∧ text ≠ []

theorem isBlobText_blob (blob : Blob) : IsBlobText blob.hex := by
  obtain ⟨c, hc, -⟩ := blob.notNull
  refine ⟨fun c hc => ⟨?_, ?_⟩, List.ne_nil_of_mem hc⟩
  · exact DevqlGraphql.isWhitespace_of_isNameChar (by
      rw [DevqlGraphql.isNameChar, blob.digits c hc, Bool.true_or])
  · rintro rfl
    exact absurd (blob.digits '.' hc) (by decide)

theorem isBlobText_null : IsBlobText nullBlob := by
  refine ⟨?_, by decide⟩
  decide

theorem parseIndexBlobPair_eq {old new : Text} (hold : IsBlobText old) (hnew : IsBlobText new)
    (mode : Option FileMode) :
    parseIndexBlobPair (old ++ "..".toList ++ new ++ (mode.elim [] fun mode => ' ' :: mode.text)) =
      (normaliseBlobSha old, normaliseBlobSha new) := by
  have hpair : ∀ c ∈ old ++ "..".toList ++ new, isWhitespace c = false := by
    intro c hc
    simp only [List.mem_append] at hc
    rcases hc with (hc | hc) | hc
    · exact (hold.1 c hc).1
    · exact (by decide : ∀ c ∈ "..".toList, isWhitespace c = false) c hc
    · exact (hnew.1 c hc).1
  have hne : old ++ "..".toList ++ new ≠ [] :=
    List.append_ne_nil_of_right_ne_nil _ hnew.2
  have hfields : (fields isWhitespace (old ++ "..".toList ++ new ++
      (mode.elim [] fun mode => ' ' :: mode.text))).head? = some (old ++ "..".toList ++ new) := by
    cases mode with
    | none => rw [Option.elim_none, List.append_nil, fields_last hpair hne]; rfl
    | some mode => rw [Option.elim_some, fields_cons hpair hne (by decide)]; rfl
  have hsplit : Separators.splitFirst "..".toList (old ++ "..".toList ++ new) =
      some (old, new) := by
    refine Separators.splitFirst_append (List.cons_ne_nil '.' ['.']) fun hwithin => ?_
    have hcount := hwithin.sublist.count_le '.'
    have hmark : List.count '.' "..".toList = 2 := by decide
    have hend : List.count '.' "..".toList.dropLast = 1 := by decide
    rw [List.count_append, hmark, hend,
      List.count_eq_zero_of_not_mem fun hmem => (hold.1 '.' hmem).2 rfl] at hcount
    omega
  rw [parseIndexBlobPair, hfields]
  simp only [Option.getD_some, hsplit]

theorem headerStep_indexLine {old new : Text} (hold : IsBlobText old) (hnew : IsBlobText new)
    (mode : Option FileMode) :
    headerStep header (indexLine old new mode) =
      { header with oldBlobSha := normaliseBlobSha old, newBlobSha := normaliseBlobSha new } := by
  have hassoc : ∀ a b c d e : Text, a ++ b ++ c ++ d ++ e = a ++ (b ++ c ++ d ++ e) :=
    fun _ _ _ _ _ => by simp only [List.append_assoc]
  have hline : indexLine old new mode = "index ".toList ++
      (old ++ "..".toList ++ new ++ (mode.elim [] fun mode => ' ' :: mode.text)) :=
    hassoc _ _ _ _ _
  have hstep : ∀ raw, headerStep header ("index ".toList ++ raw) =
      { header with
        oldBlobSha := (parseIndexBlobPair raw).1
        newBlobSha := (parseIndexBlobPair raw).2 } := fun _ => rfl
  rw [hline, hstep, parseIndexBlobPair_eq hold hnew]

/-! ## Lines that say nothing -/

theorem foldl_eq_self {lines : List Text}
    (h : ∀ line ∈ lines, ∀ header, headerStep header line = header) :
    lines.foldl headerStep header = header := by
  induction lines with
  | nil => rfl
  | cons line lines ih =>
    obtain ⟨hline, htail⟩ := List.forall_mem_cons.mp h
    rw [List.foldl_cons, hline, ih htail]

theorem foldl_modeLines (modes : Option (FileMode × FileMode)) :
    (modeLines modes).foldl headerStep header = header := by
  cases modes with
  | none => rfl
  | some modes => rfl

theorem headerStep_similarity (similarity : Text) :
    headerStep header ("similarity index ".toList ++ similarity ++ ['%']) = header := rfl

theorem headerStep_hunkLine (hunk : DiffHunk) : headerStep header hunk.headerLine = header := by
  obtain ⟨rest, hline⟩ := headerLine_eq hunk
  rw [hline]
  rfl

theorem headerStep_deleted {line : Text} (h : startsWith "-- " line = false) :
    headerStep header ('-' :: line) = header := by
  have hnone : stripPrefix "--- ".toList ('-' :: line) = none :=
    if_neg fun hleading => Bool.false_ne_true (h.symm.trans hleading)
  unfold headerStep
  rw [hnone]
  rfl

theorem headerStep_added {line : Text} (h : startsWith "++ " line = false) :
    headerStep header ('+' :: line) = header := by
  have hnone : stripPrefix "+++ ".toList ('+' :: line) = none :=
    if_neg fun hleading => Bool.false_ne_true (h.symm.trans hleading)
  unfold headerStep
  rw [hnone]
  rfl

/-! ## Hunks -/

/-- The line is read as it is behind its mark. -/
def Kept (dropped : String) (line : Text) : Prop :=
  ¬dropped.toList <+: line ∧ line.getLast? ≠ some '\r'

instance (dropped : String) (line : Text) : Decidable (Kept dropped line) :=
  inferInstanceAs (Decidable (_ ∧ _))

/-- No deleted line begins with `-- `, no added line with `++ `, and none ends with a carriage
return. -/
def DiffHunk.Clean (hunk : DiffHunk) : Prop :=
  (∀ line ∈ hunk.deleted, Kept "-- " line) ∧ ∀ line ∈ hunk.added, Kept "++ " line

theorem kept_iff {dropped : String} {line : Text} :
    Kept dropped line ↔ stripReturn line = line ∧ startsWith dropped (stripReturn line) = false := by
  rw [Kept, ← stripReturn_eq_self_iff, and_comm]
  refine and_congr_right fun hstrip => ?_
  rw [hstrip, startsWith, ← List.isPrefixOf_iff_prefix, Bool.not_eq_true]

/-- All lines are kept when every one is. -/
theorem keptLines_eq_iff {dropped : String} {lines : List Text} :
    keptLines dropped lines = lines ↔ ∀ line ∈ lines, Kept dropped line := by
  simp only [kept_iff]
  constructor
  · intro h
    have hlength : ((lines.map stripReturn).filter fun line => !startsWith dropped line).length =
        (lines.map stripReturn).length := by
      rw [List.length_map]
      exact congrArg List.length h
    have hall := List.length_filter_eq_length_iff.mp hlength
    rw [keptLines, List.filter_eq_self.mpr hall] at h
    intro line hline
    exact ⟨List.map_inj_left.mp (h.trans (List.map_id lines).symm) line hline,
      by simpa using hall _ (List.mem_map_of_mem hline)⟩
  · intro h
    have hmap : lines.map stripReturn = lines :=
      (List.map_congr_left fun line hline => (h line hline).1).trans (List.map_id _)
    rw [keptLines, hmap, List.filter_eq_self]
    intro line hline
    obtain ⟨hstrip, hkept⟩ := h line hline
    rw [hstrip] at hkept
    rw [hkept]
    rfl

theorem numbered_injective {start : ℤ} {lines lines' : List Text}
    (h : numbered start lines = numbered start lines') : lines = lines' := by
  have hcontents : ∀ lines : List Text,
      (numbered start lines).map CommitHunkLine.content = lines := by
    intro lines
    rw [numbered, List.map_map]
    exact List.zipIdx_map_fst ..
  rw [← hcontents lines, h, hcontents]

theorem stripReturn_of_mem_bodyLines {hunk : DiffHunk} (h : hunk.Clean) :
    ∀ line ∈ hunk.bodyLines, stripReturn line = line := by
  have hmarked : ∀ {mark : Char} {dropped : String} {lines : List Text}, mark ≠ '\r' →
      (∀ line ∈ lines, Kept dropped line) →
        ∀ line ∈ lines.map (mark :: ·), stripReturn line = line := by
    intro mark dropped lines hmark hlines line hline
    obtain ⟨line, hmem, rfl⟩ := List.mem_map.mp hline
    rw [stripReturn_cons hmark, (kept_iff.mp (hlines line hmem)).1]
  have hmarker : ∀ {p : Prop} [Decidable p],
      ∀ line ∈ (if p then [] else [noNewlineMarker]), stripReturn line = line := by
    intro p _ line hline
    split_ifs at hline
    · exact absurd hline List.not_mem_nil
    · rw [List.mem_singleton.mp hline]
      rfl
  rw [DiffHunk.bodyLines]
  simp only [List.forall_mem_append]
  exact ⟨⟨⟨hmarked (by decide) h.1, hmarker⟩, hmarked (by decide) h.2⟩, hmarker⟩

/-- The lines of a clean hunk say nothing about the file. -/
theorem foldl_bodyLines_header {hunk : DiffHunk} (h : hunk.Clean) :
    (hunk.bodyLines.map stripReturn).foldl headerStep header = header := by
  have hlines : hunk.bodyLines.map stripReturn = hunk.bodyLines :=
    (List.map_congr_left (stripReturn_of_mem_bodyLines h)).trans (List.map_id _)
  rw [hlines]
  refine foldl_eq_self fun line hline header => ?_
  simp only [DiffHunk.bodyLines, List.mem_append, List.mem_map] at hline
  have hmarker : ∀ {p : Prop} [Decidable p], line ∈ (if p then [] else [noNewlineMarker]) →
      headerStep header line = header := by
    intro p _ hmem
    split_ifs at hmem
    · exact absurd hmem List.not_mem_nil
    · rw [List.mem_singleton.mp hmem]
      rfl
  rcases hline with ((⟨line, hmem, rfl⟩ | hmem) | ⟨line, hmem, rfl⟩) | hmem
  · obtain ⟨hstrip, hkept⟩ := kept_iff.mp (h.1 line hmem)
    rw [hstrip] at hkept
    exact headerStep_deleted hkept
  · exact hmarker hmem
  · obtain ⟨hstrip, hkept⟩ := kept_iff.mp (h.2 line hmem)
    rw [hstrip] at hkept
    exact headerStep_added hkept
  · exact hmarker hmem

section Parsed

variable (uuid : Text → Text) (repoId commitSha : Text)

/-- A hunk is recovered when it is clean. -/
theorem parsedHunk_eq_iff (delta : CommitFileDelta) (hunkIndex : ℤ) (hunk : DiffHunk) :
    parsedHunk uuid repoId commitSha delta hunkIndex hunk =
        some (hunk.commitHunk uuid repoId commitSha delta hunkIndex) ↔ hunk.Clean := by
  constructor
  · intro h
    rw [parsedHunk] at h
    split_ifs at h
    have hhunk := Option.some.inj h
    exact ⟨keptLines_eq_iff.mp (numbered_injective (congrArg CommitHunk.deletedLines hhunk)),
      keptLines_eq_iff.mp (numbered_injective (congrArg CommitHunk.addedLines hhunk))⟩
  · intro hclean
    have hdeleted := keptLines_eq_iff.mpr hclean.1
    have hadded := keptLines_eq_iff.mpr hclean.2
    have hlines : hunk.bodyLines.map stripReturn = hunk.bodyLines :=
      (List.map_congr_left (stripReturn_of_mem_bodyLines hclean)).trans (List.map_id _)
    have hsome : ¬(hunk.added = [] ∧ hunk.deleted = []) := fun h =>
      hunk.changed.elim (fun hne => hne h.2) fun hne => hne h.1
    rw [parsedHunk, hdeleted, hadded, if_neg hsome, hlines]
    rfl

/-! ## Files -/

/-- What a file is read as, apart from its hunks, is right. -/
def FileChange.Readable : FileChange → Prop
  | added path _ _ hunks => hunks ≠ [] ∧ trim path.text = path.text
  | deleted path _ _ hunks => hunks ≠ [] ∧ trim path.text = path.text
  | modified path _ none => ∀ c ∈ path.text, isWhitespace c = false
  | modified path _ (some _) => trim path.text = path.text
  | renamed before after _ _ _ _ =>
    trim before.text = before.text ∧ trim after.text = after.text

theorem foldl_hunkLines {hunks : List DiffHunk} (h : ∀ hunk ∈ hunks, hunk.Clean) :
    (hunks.flatMap fun hunk => hunk.headerLine :: hunk.bodyLines.map stripReturn).foldl headerStep
      header = header := by
  induction hunks with
  | nil => rfl
  | cons hunk hunks ih =>
    obtain ⟨hclean, htail⟩ := List.forall_mem_cons.mp h
    rw [List.flatMap_cons, List.foldl_append, List.foldl_cons, headerStep_hunkLine,
      foldl_bodyLines_header hclean, ih htail]

namespace FileChange

/-- When the hunks are clean, the lines before the hunks say what the file is read as. -/
theorem parsedSummary_eq {file : FileChange} (h : ∀ hunk ∈ file.hunks, hunk.Clean) :
    file.parsedSummary = file.frontLines.foldl headerStep
      { pathBefore := (parseDiffGitHeaderPaths (diffGitLine file.before file.after)).1
        pathAfter := (parseDiffGitHeaderPaths (diffGitLine file.before file.after)).2 } := by
  rw [parsedSummary, List.foldl_cons, headerStep_diffGitLine, readLines, List.foldl_append,
    foldl_hunkLines h]

theorem fileDelta_ne {header header' : SectionHeader}
    (h : header.pathBefore ≠ header'.pathBefore ∨ header.pathAfter ≠ header'.pathAfter) :
    fileDelta uuid repoId commitSha header ≠ fileDelta uuid repoId commitSha header' := by
  intro heq
  rcases h with h | h
  · exact h (congrArg CommitFileDelta.pathBefore heq)
  · exact h (congrArg CommitFileDelta.pathAfter heq)

/-- The sides of the file, when they are printed, are read from their labels. -/
theorem foldl_sides (before after : Option GitPath) :
    ["--- ".toList ++ label "a/" before, "+++ ".toList ++ label "b/" after].foldl headerStep
        header =
      { header with
        pathBefore := normaliseDiffPath (label "a/" before) (some "a/".toList)
        pathAfter := normaliseDiffPath (label "b/" after) (some "b/".toList) } := by
  rw [List.foldl_cons, List.foldl_cons, headerStep_minus, headerStep_plus, List.foldl_nil]

theorem normalise_label_none (mark : String) (front : Text) :
    normaliseDiffPath (label mark none) (some front) = none := rfl

theorem parsedDelta_added_iff {path : GitPath} {mode : FileMode} {blob : Blob}
    {hunks : List DiffHunk}
    (h : ∀ hunk ∈ (added path mode blob hunks).hunks, hunk.Clean) :
    (added path mode blob hunks).parsedDelta uuid repoId commitSha =
        (added path mode blob hunks).delta uuid repoId commitSha ↔
      (added path mode blob hunks).Readable := by
  rw [parsedDelta, parsedSummary_eq h, frontLines, List.foldl_cons, List.foldl_cons,
    headerStep_newFile, headerStep_indexLine isBlobText_null (isBlobText_blob blob),
    normaliseBlobSha_null, normaliseBlobSha_blob, sideLines]
  by_cases hhunks : hunks = []
  · obtain ⟨read, hread, -⟩ := headerPaths_before path path
    rw [if_pos hhunks, List.foldl_nil, Readable]
    refine iff_of_false (fileDelta_ne _ _ _ (Or.inl ?_)) fun hreadable => hreadable.1 hhunks
    exact fun heq => Option.some_ne_none read (hread.symm.trans heq)
  · rw [if_neg hhunks, foldl_sides, normalise_label_none, Readable, and_iff_right hhunks,
      ← normalise_label_iff (Or.inr rfl : IsMark "b/")]
    constructor
    · intro heq
      exact congrArg CommitFileDelta.pathAfter heq
    · intro hpath
      rw [hpath]
      rfl

theorem parsedDelta_deleted_iff {path : GitPath} {mode : FileMode} {blob : Blob}
    {hunks : List DiffHunk}
    (h : ∀ hunk ∈ (deleted path mode blob hunks).hunks, hunk.Clean) :
    (deleted path mode blob hunks).parsedDelta uuid repoId commitSha =
        (deleted path mode blob hunks).delta uuid repoId commitSha ↔
      (deleted path mode blob hunks).Readable := by
  rw [parsedDelta, parsedSummary_eq h, frontLines, List.foldl_cons, List.foldl_cons,
    headerStep_deletedFile, headerStep_indexLine (isBlobText_blob blob) isBlobText_null,
    normaliseBlobSha_null, normaliseBlobSha_blob, sideLines]
  by_cases hhunks : hunks = []
  · rw [if_pos hhunks, List.foldl_nil, Readable]
    refine iff_of_false (fileDelta_ne _ _ _ ?_) fun hreadable => hreadable.1 hhunks
    -- white space in the path spoils the side before, and without it there is a side after
    by_cases hblank : ∀ c ∈ path.text, isWhitespace c = false
    · right
      change (parseDiffGitHeaderPaths (diffGitLine path path)).2 ≠ none
      rw [headerPaths_of_forall hblank hblank]
      exact Option.some_ne_none _
    · left
      push Not at hblank
      have hwhite : ∃ c ∈ path.text, isWhitespace c = true := by simpa using hblank
      exact headerPaths_before_ne hwhite
  · rw [if_neg hhunks, foldl_sides, normalise_label_none, Readable, and_iff_right hhunks,
      ← normalise_label_iff (Or.inl rfl : IsMark "a/")]
    constructor
    · intro heq
      exact congrArg CommitFileDelta.pathBefore heq
    · intro hpath
      rw [hpath]
      rfl

theorem inferChangeKind_self (path : Text) :
    inferChangeKind (some path) (some path) = "modified".toList := if_neg fun h => h rfl

theorem parsedDelta_modified_iff {path : GitPath} {modes : Option (FileMode × FileMode)}
    {content : Option ContentChange}
    (h : ∀ hunk ∈ (modified path modes content).hunks, hunk.Clean) :
    (modified path modes content).parsedDelta uuid repoId commitSha =
        (modified path modes content).delta uuid repoId commitSha ↔
      (modified path modes content).Readable := by
  rw [parsedDelta, parsedSummary_eq h, frontLines, List.foldl_append, foldl_modeLines]
  cases content with
  | none =>
    rw [Readable]
    constructor
    · intro heq c hc
      by_contra hblank
      exact headerPaths_before_ne ⟨c, hc, by simpa using hblank⟩
        (congrArg CommitFileDelta.pathBefore heq)
    · intro hblank
      have hpaths := headerPaths_of_forall hblank hblank
      simp only [before, after, hpaths]
      simp [contentFront, delta, summary, fileDelta, inferChangeKind_self]
  | some content =>
    rw [contentFront, Option.elim_some, List.foldl_cons,
      headerStep_indexLine (isBlobText_blob _) (isBlobText_blob _), foldl_sides,
      normaliseBlobSha_blob, normaliseBlobSha_blob, Readable]
    constructor
    · intro heq
      exact (normalise_label_iff (Or.inl rfl : IsMark "a/") path).mp
        (congrArg CommitFileDelta.pathBefore heq)
    · intro hpath
      rw [(normalise_label_iff (Or.inl rfl : IsMark "a/") path).mpr hpath,
        (normalise_label_iff (Or.inr rfl : IsMark "b/") path).mpr hpath]
      simp [delta, summary, fileDelta, inferChangeKind_self]

theorem parsedDelta_renamed_iff {before after : GitPath} {hne : before.text ≠ after.text}
    {modes : Option (FileMode × FileMode)} {similarity : ℕ} {content : Option ContentChange}
    (h : ∀ hunk ∈ (renamed before after hne modes similarity content).hunks, hunk.Clean) :
    (renamed before after hne modes similarity content).parsedDelta uuid repoId commitSha =
        (renamed before after hne modes similarity content).delta uuid repoId commitSha ↔
      (renamed before after hne modes similarity content).Readable := by
  rw [parsedDelta, parsedSummary_eq h, frontLines, List.foldl_append, List.foldl_append,
    foldl_modeLines, List.foldl_cons, headerStep_similarity, List.foldl_cons,
    headerStep_renameFrom, List.foldl_cons, headerStep_renameTo, List.foldl_nil, Readable]
  cases content with
  | none =>
    rw [← normalise_rename_iff, ← normalise_rename_iff]
    constructor
    · intro heq
      exact ⟨congrArg CommitFileDelta.pathBefore heq, congrArg CommitFileDelta.pathAfter heq⟩
    · rintro ⟨hbefore, hafter⟩
      rw [hbefore, hafter]
      rfl
  | some content =>
    rw [contentFront, Option.elim_some, List.foldl_cons,
      headerStep_indexLine (isBlobText_blob _) (isBlobText_blob _), foldl_sides,
      normaliseBlobSha_blob, normaliseBlobSha_blob,
      ← normalise_label_iff (Or.inl rfl : IsMark "a/") before,
      ← normalise_label_iff (Or.inr rfl : IsMark "b/") after]
    constructor
    · intro heq
      exact ⟨congrArg CommitFileDelta.pathBefore heq, congrArg CommitFileDelta.pathAfter heq⟩
    · rintro ⟨hbefore, hafter⟩
      rw [hbefore, hafter]
      rfl

/-- What is read of a file whose hunks are clean. -/
theorem parsedDelta_eq_iff {file : FileChange} (h : ∀ hunk ∈ file.hunks, hunk.Clean) :
    file.parsedDelta uuid repoId commitSha = file.delta uuid repoId commitSha ↔
      file.Readable := by
  cases file with
  | added => exact parsedDelta_added_iff uuid repoId commitSha h
  | deleted => exact parsedDelta_deleted_iff uuid repoId commitSha h
  | modified => exact parsedDelta_modified_iff uuid repoId commitSha h
  | renamed => exact parsedDelta_renamed_iff uuid repoId commitSha h

theorem length_parsedHunks_le (file : FileChange) :
    (file.parsedHunks uuid repoId commitSha).length ≤
      (file.commitHunks uuid repoId commitSha).length := by
  rw [commitHunks, List.length_map]
  exact List.length_filterMap_le _ _

/-- The hunks of a file are recovered when they are clean. -/
theorem parsedHunks_eq_iff {file : FileChange}
    (hdelta : file.parsedDelta uuid repoId commitSha = file.delta uuid repoId commitSha) :
    file.parsedHunks uuid repoId commitSha = file.commitHunks uuid repoId commitSha ↔
      ∀ hunk ∈ file.hunks, hunk.Clean := by
  rw [parsedHunks, commitHunks, hdelta, PartByPart.filterMap_eq_map_iff]
  simp only [parsedHunk_eq_iff]
  constructor
  · intro h hunk hhunk
    obtain ⟨i, hi, rfl⟩ := List.mem_iff_getElem.mp hhunk
    exact h _ (List.mk_mem_zipIdx_iff_getElem?.mpr (List.getElem?_eq_getElem hi))
  · intro h numbered hnumbered
    exact h _ (List.fst_mem_of_mem_zipIdx hnumbered)

end FileChange

/-! ## Commits -/

/-- The commits of which nothing is lost. -/
def Recoverable (files : List FileChange) : Prop :=
  ∀ file ∈ files, file.Readable ∧ ∀ hunk ∈ file.hunks, hunk.Clean

/-- The files of a commit and their hunks are recovered from its patch exactly when no line of a
hunk looks like the label of a side behind its mark or ends with a carriage return, and every path
stands where it can be read. -/
theorem parse_renderCommit_iff (files : List FileChange) :
    parseCommitHunksFromGitShow uuid repoId commitSha (renderCommit files) =
        .ok (commitHunks uuid repoId commitSha files) ↔ Recoverable files := by
  rw [parse_renderCommit, Except.ok.injEq, commitHunks, ParsedCommitHunks.mk.injEq,
    List.map_inj_left,
    PartByPart.flatMap_eq_iff fun file _ =>
      file.length_parsedHunks_le uuid repoId commitSha]
  constructor
  · rintro ⟨hdeltas, hhunks⟩ file hfile
    have hclean :=
      (FileChange.parsedHunks_eq_iff uuid repoId commitSha (hdeltas file hfile)).mp
        (hhunks file hfile)
    exact ⟨(FileChange.parsedDelta_eq_iff uuid repoId commitSha hclean).mp (hdeltas file hfile),
      hclean⟩
  · intro h
    have hdelta : ∀ file ∈ files,
        file.parsedDelta uuid repoId commitSha = file.delta uuid repoId commitSha :=
      fun file hfile => (FileChange.parsedDelta_eq_iff uuid repoId commitSha
        (h file hfile).2).mpr (h file hfile).1
    exact ⟨hdelta, fun file hfile => (FileChange.parsedHunks_eq_iff uuid repoId commitSha
      (hdelta file hfile)).mpr (h file hfile).2⟩

end Parsed

/-- A comment of `schema.sql` is changed. -/
def schemaChange : FileChange :=
  .modified ⟨"schema.sql".toList, by decide, by decide⟩ none
    (some
      { oldBlob := ⟨"a1".toList, by decide, 'a', List.mem_cons_self, by decide⟩
        newBlob := ⟨"b2".toList, by decide, 'b', List.mem_cons_self, by decide⟩
        mode := some ⟨"100644".toList, by decide⟩
        hunks :=
          [{ oldStart := 1
             newStart := 1
             deleted := ["-- version 1".toList]
             added := ["-- version 2".toList]
             changed := by decide
             oneLine := by decide
             headingLine := by decide
             headingEnd := by rintro c ⟨⟩
             oldFits := by decide
             newFits := by decide }]
        hunks_ne_nil := by decide })

/-- The deleted comment is read as the label of the file. -/
theorem comment_lost : ¬∀ (uuid : Text → Text) (repoId commitSha : Text) (files : List FileChange),
    parseCommitHunksFromGitShow uuid repoId commitSha (renderCommit files) =
      .ok (commitHunks uuid repoId commitSha files) := by
  intro h
  have hschema := h id [] [] [schemaChange]
  have hread : (parseCommitHunksFromGitShow id [] [] (renderCommit [schemaChange])).map
      (fun parsed => parsed.hunks.map fun hunk => (hunk.pathBefore, hunk.deletedLines)) =
        .ok [(some "version 1".toList, [])] := by
    decide
  rw [hschema] at hread
  exact absurd hread (by decide)

end CommitHunks
end Bitloops
