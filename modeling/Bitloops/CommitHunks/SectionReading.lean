import Bitloops.CommitHunks.PatchReading
import Bitloops.Foundation.Results

/-!
# Reading the sections of a patch

The patch of a commit is cut into the sections of its files and these into their hunks,
`parse_renderCommit`; what is read of a file does not depend on the other files.
-/

namespace Bitloops
namespace CommitHunks

open LanguageAdapter (Text isWhitespace)
open TextLines

/-! ## The lines of a section -/

/-- The lines of the sides, which stand there when there are hunks. -/
def sideLines (before after : Option GitPath) (hunks : List DiffHunk) : List Text :=
  if hunks = [] then []
  else ["--- ".toList ++ label "a/" before, "+++ ".toList ++ label "b/" after]

def contentFront (before after : GitPath) (content : Option ContentChange) : List Text :=
  content.elim [] fun content =>
    [indexLine content.oldBlob.hex content.newBlob.hex content.mode,
      "--- ".toList ++ label "a/" (some before), "+++ ".toList ++ label "b/" (some after)]

namespace FileChange

/-- The lines between the `diff --git` line and the hunks. -/
def frontLines : FileChange → List Text
  | added path mode blob hunks =>
    ("new file mode ".toList ++ mode.text) :: indexLine nullBlob blob.hex none ::
      sideLines none (some path) hunks
  | deleted path mode blob hunks =>
    ("deleted file mode ".toList ++ mode.text) :: indexLine blob.hex nullBlob none ::
      sideLines (some path) none hunks
  | modified path modes content => modeLines modes ++ contentFront path path content
  | renamed before after _ modes similarity content =>
    modeLines modes ++
      [("similarity index ".toList ++ natText similarity) ++ ['%'],
        "rename from ".toList ++ before.text, "rename to ".toList ++ after.text] ++
      contentFront before after content

theorem hunkLines_eq (before after : Option GitPath) {hunks : List DiffHunk} (h : hunks ≠ []) :
    hunkLines before after hunks = sideLines before after hunks ++ hunks.flatMap DiffHunk.lines := by
  rw [hunkLines, sideLines, if_neg h]
  rfl

theorem contentLines_eq (before after : GitPath) (content : Option ContentChange) :
    contentLines before after content =
      contentFront before after content ++
        (content.elim [] ContentChange.hunks).flatMap DiffHunk.lines := by
  cases content <;> rfl

theorem detailLines_eq (file : FileChange) :
    file.detailLines = file.frontLines ++ file.hunks.flatMap DiffHunk.lines := by
  have hsides : ∀ (before after : Option GitPath) (hunks : List DiffHunk),
      (if hunks = [] then [] else hunkLines before after hunks) =
        sideLines before after hunks ++ hunks.flatMap DiffHunk.lines := by
    intro before after hunks
    split_ifs with h
    · rw [h]
      rfl
    · exact hunkLines_eq before after h
  cases file with
  | added path mode blob hunks =>
    rw [detailLines, hsides]
    rfl
  | deleted path mode blob hunks =>
    rw [detailLines, hsides]
    rfl
  | modified path modes content =>
    rw [detailLines, contentLines_eq, ← List.append_assoc]
    rfl
  | renamed before after hne modes similarity content =>
    rw [detailLines, contentLines_eq, ← List.append_assoc]
    rfl

end FileChange

/-! ## Line ends -/

/-- There is no line end in the text. -/
def OneLine (text : Text) : Prop := '\n' ∉ text ∧ '\r' ∉ text

instance (text : Text) : Decidable (OneLine text) := inferInstanceAs (Decidable (_ ∧ _))

theorem OneLine.append {text text' : Text} (h : OneLine text) (h' : OneLine text') :
    OneLine (text ++ text') := by
  constructor
  · rw [List.mem_append, not_or]
    exact ⟨h.1, h'.1⟩
  · rw [List.mem_append, not_or]
    exact ⟨h.2, h'.2⟩

theorem OneLine.stripReturn_eq {line : Text} (h : OneLine line) : stripReturn line = line :=
  stripReturn_eq_self_iff.mpr fun hlast => h.2 (List.mem_of_getLast? hlast)

theorem oneLine_of_forall {text : Text} (h : ∀ c ∈ text, isWhitespace c = false) : OneLine text :=
  ⟨fun hmem => absurd (h _ hmem) (by decide), fun hmem => absurd (h _ hmem) (by decide)⟩

theorem oneLine_natText (n : ℕ) : OneLine (natText n) :=
  oneLine_of_forall fun _ hc => isWhitespace_of_isDigit (isDigit_of_mem_natText hc)

theorem oneLine_path (path : GitPath) : OneLine path.text :=
  ⟨path.notMem_of_control (by decide), path.notMem_of_control (by decide)⟩

theorem oneLine_blob (blob : Blob) : OneLine blob.hex :=
  oneLine_of_forall fun c hc => DevqlGraphql.isWhitespace_of_isNameChar (by
    rw [DevqlGraphql.isNameChar, blob.digits c hc, Bool.true_or])

theorem oneLine_mode (mode : FileMode) : OneLine mode.text :=
  oneLine_of_forall fun c hc => isWhitespace_of_isDigit (mode.digits c hc)

theorem oneLine_label {mark : String} (hmark : IsMark mark) (side : Option GitPath) :
    OneLine (label mark side) := by
  have hmark : OneLine mark.toList := by
    rcases hmark with rfl | rfl <;> decide
  cases side with
  | none => exact (by decide : OneLine "/dev/null".toList)
  | some path =>
    refine (hmark.append (oneLine_path path)).append ?_
    split_ifs
    · decide
    · decide

theorem oneLine_indexLine {old new : Text} (hold : OneLine old) (hnew : OneLine new)
    (mode : Option FileMode) : OneLine (indexLine old new mode) := by
  have hfront : OneLine "index ".toList := by decide
  have hdots : OneLine "..".toList := by decide
  refine (((hfront.append hold).append hdots).append hnew).append ?_
  cases mode with
  | none => exact (by decide : OneLine [])
  | some mode => exact OneLine.append (by decide : OneLine [' ']) (oneLine_mode mode)

theorem oneLine_diffGitLine (before after : GitPath) : OneLine (diffGitLine before after) := by
  have hfront : OneLine "diff --git ".toList := by decide
  have hold : OneLine "a/".toList := by decide
  have hnew : OneLine (' ' :: "b/".toList) := by decide
  exact (hfront.append (hold.append (oneLine_path before))).append
    (hnew.append (oneLine_path after))

/-- What the lines before the hunks are not. -/
structure FrontLine (line : Text) : Prop where
  oneLine : OneLine line
  notHunk : startsWith "@@ " line = false
  notFile : startsWith "diff --git " line = false

theorem frontLine_indexLine {old new : Text} (hold : OneLine old) (hnew : OneLine new)
    (mode : Option FileMode) : FrontLine (indexLine old new mode) :=
  ⟨oneLine_indexLine hold hnew mode, rfl, rfl⟩

theorem frontLine_minus (side : Option GitPath) : FrontLine ("--- ".toList ++ label "a/" side) :=
  ⟨(by decide : OneLine "--- ".toList).append (oneLine_label (Or.inl rfl) side), rfl, rfl⟩

theorem frontLine_plus (side : Option GitPath) : FrontLine ("+++ ".toList ++ label "b/" side) :=
  ⟨(by decide : OneLine "+++ ".toList).append (oneLine_label (Or.inr rfl) side), rfl, rfl⟩

theorem frontLine_sideLines {before after : Option GitPath} {hunks : List DiffHunk} :
    ∀ line ∈ sideLines before after hunks, FrontLine line := by
  rw [sideLines]
  split_ifs
  · exact fun line hline => absurd hline List.not_mem_nil
  · simp only [List.forall_mem_cons]
    exact ⟨frontLine_minus before, frontLine_plus after, fun _ h => absurd h List.not_mem_nil⟩

theorem frontLine_contentFront {before after : GitPath} {content : Option ContentChange} :
    ∀ line ∈ contentFront before after content, FrontLine line := by
  cases content with
  | none => exact fun line hline => absurd hline List.not_mem_nil
  | some content =>
    simp only [contentFront, Option.elim_some, List.forall_mem_cons]
    exact ⟨frontLine_indexLine (oneLine_blob _) (oneLine_blob _) _, frontLine_minus _,
      frontLine_plus _, fun _ h => absurd h List.not_mem_nil⟩

theorem frontLine_modeLines {modes : Option (FileMode × FileMode)} :
    ∀ line ∈ modeLines modes, FrontLine line := by
  cases modes with
  | none => exact fun line hline => absurd hline List.not_mem_nil
  | some modes =>
    simp only [modeLines, Option.elim_some, List.forall_mem_cons]
    exact ⟨⟨(by decide : OneLine "old mode ".toList).append (oneLine_mode _), rfl, rfl⟩,
      ⟨(by decide : OneLine "new mode ".toList).append (oneLine_mode _), rfl, rfl⟩,
      fun _ h => absurd h List.not_mem_nil⟩

theorem frontLine_frontLines (file : FileChange) : ∀ line ∈ file.frontLines, FrontLine line := by
  have hnull : OneLine nullBlob := by decide
  cases file with
  | added path mode blob hunks =>
    simp only [FileChange.frontLines, List.forall_mem_cons]
    exact ⟨⟨(by decide : OneLine "new file mode ".toList).append (oneLine_mode mode), rfl, rfl⟩,
      frontLine_indexLine hnull (oneLine_blob blob) none, frontLine_sideLines⟩
  | deleted path mode blob hunks =>
    simp only [FileChange.frontLines, List.forall_mem_cons]
    exact ⟨⟨(by decide : OneLine "deleted file mode ".toList).append (oneLine_mode mode), rfl, rfl⟩,
      frontLine_indexLine (oneLine_blob blob) hnull none, frontLine_sideLines⟩
  | modified path modes content =>
    simp only [FileChange.frontLines, List.forall_mem_append]
    exact ⟨frontLine_modeLines, frontLine_contentFront⟩
  | renamed before after hne modes similarity content =>
    simp only [FileChange.frontLines, List.forall_mem_append, List.forall_mem_cons]
    have hsimilarity : OneLine ("similarity index ".toList ++ natText similarity) :=
      (by decide : OneLine "similarity index ".toList).append (oneLine_natText similarity)
    exact ⟨⟨frontLine_modeLines, ⟨hsimilarity.append (by decide : OneLine ['%']), rfl, rfl⟩,
      ⟨(by decide : OneLine "rename from ".toList).append (oneLine_path before), rfl, rfl⟩,
      ⟨(by decide : OneLine "rename to ".toList).append (oneLine_path after), rfl, rfl⟩,
      fun _ h => absurd h List.not_mem_nil⟩, frontLine_contentFront⟩

/-! ## The lines of a file as they are read -/

namespace FileChange

/-- The lines after the `diff --git` line, without the carriage returns at their ends. -/
def readLines (file : FileChange) : List Text :=
  file.frontLines ++ file.hunks.flatMap fun hunk =>
    hunk.headerLine :: hunk.bodyLines.map stripReturn

theorem map_stripReturn_lines (file : FileChange) :
    file.lines.map stripReturn = diffGitLine file.before file.after :: file.readLines := by
  have hfront : file.frontLines.map stripReturn = file.frontLines :=
    (List.map_congr_left fun line hline =>
      (frontLine_frontLines file line hline).oneLine.stripReturn_eq).trans (List.map_id _)
  have hhunks : (file.hunks.flatMap DiffHunk.lines).map stripReturn =
      file.hunks.flatMap fun hunk => hunk.headerLine :: hunk.bodyLines.map stripReturn := by
    rw [List.map_flatMap]
    refine List.flatMap_congr fun hunk _ => ?_
    rw [DiffHunk.lines, List.map_cons, stripReturn_headerLine]
  rw [lines, List.map_cons, (oneLine_diffGitLine _ _).stripReturn_eq, detailLines_eq,
    List.map_append, hfront, hhunks, readLines]

theorem newline_notMem_hunk (hunk : DiffHunk) : ∀ line ∈ hunk.lines, '\n' ∉ line := by
  have hrange : ∀ start count, '\n' ∉ renderRange start count := fun start count =>
    notMem_renderRange (by decide) (by decide)
  have hmarked : ∀ (mark : Char) (lines : List Text), mark ≠ '\n' →
      (∀ line ∈ lines, line ∈ hunk.deleted ++ hunk.added) →
        ∀ line ∈ lines.map (mark :: ·), '\n' ∉ line := by
    intro mark lines hmark hlines line hline
    obtain ⟨line, hmem, rfl⟩ := List.mem_map.mp hline
    rw [List.mem_cons, not_or]
    exact ⟨hmark.symm, hunk.oneLine line (hlines line hmem)⟩
  have hmarker : ∀ {p : Prop} [Decidable p],
      ∀ line ∈ (if p then [] else [noNewlineMarker]), '\n' ∉ line := by
    intro p _ line hline
    split_ifs at hline
    · exact absurd hline List.not_mem_nil
    · rw [List.mem_singleton.mp hline]
      decide
  rw [DiffHunk.lines, DiffHunk.bodyLines]
  simp only [List.forall_mem_cons, List.forall_mem_append]
  refine ⟨?_, ⟨⟨hmarked '-' _ (by decide) fun _ h => List.mem_append_left _ h, hmarker⟩,
    hmarked '+' _ (by decide) fun _ h => List.mem_append_right _ h⟩, hmarker⟩
  rw [DiffHunk.headerLine]
  simp only [List.mem_append, not_or]
  refine ⟨⟨⟨⟨⟨by decide, hrange _ _⟩, by decide⟩, hrange _ _⟩, by decide⟩, ?_⟩
  split_ifs
  · exact List.not_mem_nil
  · rw [List.mem_cons, not_or]
    exact ⟨by decide, hunk.headingLine⟩

theorem newline_notMem_lines (file : FileChange) : ∀ line ∈ file.lines, '\n' ∉ line := by
  rw [lines, detailLines_eq, List.forall_mem_cons, List.forall_mem_append]
  refine ⟨(oneLine_diffGitLine _ _).1,
    fun line hline => (frontLine_frontLines file line hline).oneLine.1, fun line hline => ?_⟩
  obtain ⟨hunk, -, hline⟩ := List.mem_flatMap.mp hline
  exact newline_notMem_hunk hunk line hline

theorem startsWith_of_mem_readLines {file : FileChange} {line : Text} (h : line ∈ file.readLines) :
    startsWith "diff --git " line = false := by
  rcases List.mem_append.mp h with h | h
  · exact (frontLine_frontLines file line h).notFile
  · obtain ⟨hunk, -, h⟩ := List.mem_flatMap.mp h
    rcases List.mem_cons.mp h with rfl | h
    · obtain ⟨rest, hline⟩ := headerLine_eq hunk
      rw [hline]
      rfl
    · obtain ⟨mark, rest, rfl, rfl | rfl | rfl⟩ := exists_mark h
      · rfl
      · rfl
      · rfl

/-- The hunks of a section are cut at their headers. -/
theorem blocks_readLines (file : FileChange) :
    (blocks (startsWith "@@ ") (diffGitLine file.before file.after :: file.readLines)).2 =
      file.hunks.map fun hunk => (hunk.headerLine, hunk.bodyLines.map stripReturn) := by
  have hfront : ∀ line ∈ diffGitLine file.before file.after :: file.frontLines,
      startsWith "@@ " line = false :=
    List.forall_mem_cons.mpr ⟨rfl, fun line hline => (frontLine_frontLines file line hline).notHunk⟩
  have hparts : file.hunks.flatMap (fun hunk => hunk.headerLine :: hunk.bodyLines.map stripReturn) =
      (file.hunks.map fun hunk => (hunk.headerLine, hunk.bodyLines.map stripReturn)).flatMap
        fun part => part.1 :: part.2 := by
    rw [List.flatMap_map]
  rw [readLines, ← List.cons_append, blocks_append hfront, hparts, blocks_flatMap]
  intro part hpart
  obtain ⟨hunk, -, rfl⟩ := List.mem_map.mp hpart
  constructor
  · obtain ⟨rest, hline⟩ := headerLine_eq hunk
    change startsWith "@@ " hunk.headerLine = true
    rw [hline]
    rfl
  · intro line hline
    obtain ⟨mark, rest, rfl, rfl | rfl | rfl⟩ := exists_mark hline
    · rfl
    · rfl
    · rfl

end FileChange

/-! ## What is read -/

section Parsed

variable (uuid : Text → Text) (repoId commitSha : Text)

namespace FileChange

/-- What the lines of the section say about the file. -/
def parsedSummary (file : FileChange) : SectionHeader :=
  let paths := parseDiffGitHeaderPaths (diffGitLine file.before file.after)
  (diffGitLine file.before file.after :: file.readLines).foldl headerStep
    { pathBefore := paths.1, pathAfter := paths.2 }

def parsedDelta (file : FileChange) : CommitFileDelta :=
  fileDelta uuid repoId commitSha file.parsedSummary

def parsedHunks (file : FileChange) : List CommitHunk :=
  file.hunks.zipIdx.filterMap fun (hunk, i) =>
    parsedHunk uuid repoId commitSha (file.parsedDelta uuid repoId commitSha) (i + 1) hunk

theorem parseFileDiffSection_lines (file : FileChange) (parsed : ParsedCommitHunks) :
    parseFileDiffSection uuid repoId commitSha
        (diffGitLine file.before file.after :: file.readLines) parsed =
      .ok { fileDeltas := parsed.fileDeltas ++ [file.parsedDelta uuid repoId commitSha]
            hunks := parsed.hunks ++ file.parsedHunks uuid repoId commitSha } := by
  have hhunks : (file.hunks.map fun hunk =>
      (hunk.headerLine, hunk.bodyLines.map stripReturn)).zipIdx.mapM
        (fun ((line, lines), i) => hunkOf uuid repoId commitSha
          (file.parsedDelta uuid repoId commitSha) ((i : ℤ) + 1) line lines) =
      .ok (file.hunks.zipIdx.map fun (hunk, i) =>
        parsedHunk uuid repoId commitSha (file.parsedDelta uuid repoId commitSha) (i + 1) hunk) := by
    rw [List.zipIdx_map, Results.mapM_eq_ok, List.forall₂_map_left_iff, List.forall₂_map_right_iff,
      List.forall₂_same]
    exact fun numbered _ => hunkOf_lines uuid repoId commitSha _ _ numbered.1
  rw [parseFileDiffSection]
  change (List.mapM _ (blocks (startsWith "@@ ") _).2.zipIdx >>= _) = _
  rw [blocks_readLines]
  refine (congrArg (· >>= _) hhunks).trans ?_
  change Except.ok (ParsedCommitHunks.mk _ (_ ++ (List.map _ _).filterMap id)) = _
  rw [List.filterMap_map]
  rfl

end FileChange

/-- The patch of a commit is read file by file. -/
theorem parse_renderCommit (files : List FileChange) :
    parseCommitHunksFromGitShow uuid repoId commitSha (renderCommit files) =
      .ok { fileDeltas := files.map (FileChange.parsedDelta uuid repoId commitSha)
            hunks := files.flatMap (FileChange.parsedHunks uuid repoId commitSha) } := by
  have hlines : textLines (renderCommit files) =
      (files.map fun file => (diffGitLine file.before file.after, file.readLines)).flatMap
        fun part => part.1 :: part.2 := by
    rw [renderCommit, textLines_joinLines, List.map_flatMap, List.flatMap_map]
    · exact List.flatMap_congr fun file _ => file.map_stripReturn_lines
    · intro line hline
      obtain ⟨file, -, hline⟩ := List.mem_flatMap.mp hline
      exact file.newline_notMem_lines line hline
  have hsections : (blocks (startsWith "diff --git ") (textLines (renderCommit files))).2 =
      files.map fun file => (diffGitLine file.before file.after, file.readLines) := by
    rw [hlines, blocks_flatMap]
    intro part hpart
    obtain ⟨file, -, rfl⟩ := List.mem_map.mp hpart
    exact ⟨rfl, fun line => FileChange.startsWith_of_mem_readLines⟩
  have hfold : ∀ parsed : ParsedCommitHunks,
      (files.map fun file => (diffGitLine file.before file.after, file.readLines)).foldlM
        (fun parsed part =>
          parseFileDiffSection uuid repoId commitSha (part.1 :: part.2) parsed) parsed =
      .ok { fileDeltas := parsed.fileDeltas ++
              files.map (FileChange.parsedDelta uuid repoId commitSha)
            hunks := parsed.hunks ++
              files.flatMap (FileChange.parsedHunks uuid repoId commitSha) } := by
    clear hlines hsections
    induction files with
    | nil =>
      intro parsed
      rw [List.map_nil, List.map_nil, List.flatMap_nil, List.append_nil, List.append_nil]
      rfl
    | cons file files ih =>
      intro parsed
      rw [List.map_cons, List.foldlM_cons]
      change (parseFileDiffSection uuid repoId commitSha (_ :: _) parsed >>= _) = _
      rw [FileChange.parseFileDiffSection_lines]
      refine (ih _).trans ?_
      simp only [List.map_cons, List.flatMap_cons, List.append_assoc, List.singleton_append]
  rw [parseCommitHunksFromGitShow, hsections]
  exact hfold {}

end Parsed

end CommitHunks
end Bitloops
