import Bitloops.Sync.DesiredManifest

/-!
# The manifest as a function of the trees

The listings of git are parsed into what the trees say about a path.  From there the state of a
path is a function of its entries in HEAD, in the index and in the worktree.
-/

namespace Bitloops
namespace Sync

/-! ## Reading the outputs back -/

theorem isNul_nul : isNul nul = true := rfl

theorem isWhitespace_nul : Daemon.isWhitespace nul = false := rfl

/-- Nothing is trimmed from records of which the first does not begin with white space. -/
theorem trimOutput_records {texts : List (List Char)}
    (hstart : ∀ text ∈ texts.head?, ∀ c ∈ text.head?, Daemon.isWhitespace c = false) :
    trimOutput (texts.flatMap fun text => text ++ [nul]) =
      texts.flatMap fun text => text ++ [nul] := by
  have hfront : (texts.flatMap fun text => text ++ [nul]).dropWhile Daemon.isWhitespace =
      texts.flatMap fun text => text ++ [nul] := by
    cases texts with
    | nil => rfl
    | cons text texts =>
      cases text with
      | nil => rfl
      | cons c text =>
        have hc := hstart _ rfl c rfl
        exact List.dropWhile_cons_of_neg (by simp [hc])
  have hback : (texts.flatMap fun text => text ++ [nul]).reverse.dropWhile Daemon.isWhitespace =
      (texts.flatMap fun text => text ++ [nul]).reverse := by
    rcases List.eq_nil_or_concat texts with rfl | ⟨front, text, rfl⟩
    · rfl
    · rw [List.concat_eq_append, List.flatMap_append, List.flatMap_singleton,
        List.reverse_append, List.reverse_append]
      exact List.dropWhile_cons_of_neg (by rw [isWhitespace_nul]; exact Bool.false_ne_true)
  rw [trimOutput, hfront, hback, List.reverse_reverse]

/-- The records of an output are read back. -/
theorem records_output {texts : List (List Char)}
    (htexts : ∀ text ∈ texts, text ≠ [] ∧ ∀ c ∈ text, isNul c = false)
    (hstart : ∀ text ∈ texts.head?, ∀ c ∈ text.head?, Daemon.isWhitespace c = false) :
    records (trimOutput (texts.flatMap fun text => text ++ [nul])) = texts := by
  rw [trimOutput_records hstart, records]
  exact fields_flatMap isNul_nul htexts

theorem isWhitespace_space : Daemon.isWhitespace ' ' = true := rfl

/-- A text without white space. -/
def Word (text : List Char) : Prop := text ≠ [] ∧ ∀ c ∈ text, Daemon.isWhitespace c = false

theorem splitWhitespace_cons {word rest : List Char} (hword : Word word) :
    splitWhitespace (word ++ ' ' :: rest) = word :: splitWhitespace rest :=
  fields_cons hword.2 hword.1 isWhitespace_space

theorem splitWhitespace_last {word : List Char} (hword : Word word) :
    splitWhitespace word = [word] :=
  fields_last hword.2 hword.1

theorem word_mode (mode : EntryMode) : Word mode.text := by
  cases mode <;> exact ⟨by decide, by decide⟩

theorem word_objectType (mode : EntryMode) : Word mode.objectType := by
  cases mode <;> exact ⟨by decide, by decide⟩

theorem word_oid (row : TreeRow) : Word row.entry.oid.toList :=
  ⟨row.oid_nonempty, fun c hc => (row.oid_chars c hc).1⟩

/-- A word has no tabulator. -/
theorem Word.not_mem_tab {text : List Char} (hword : Word text) : '\t' ∉ text :=
  fun hmem => Bool.false_ne_true ((hword.2 _ hmem).symm.trans rfl)

/-- A text that fits in a record. -/
def NulFree (text : List Char) : Prop := ∀ c ∈ text, isNul c = false

theorem nulFree_append {front back : List Char} :
    NulFree (front ++ back) ↔ NulFree front ∧ NulFree back := by
  simp [NulFree, or_imp, forall_and]

theorem nulFree_cons {c : Char} {text : List Char} :
    NulFree (c :: text) ↔ isNul c = false ∧ NulFree text := by
  simp [NulFree]

theorem nulFree_mode (mode : EntryMode) : NulFree mode.text := by
  cases mode <;> unfold NulFree <;> decide

theorem nulFree_objectType (mode : EntryMode) : NulFree mode.objectType := by
  cases mode <;> unfold NulFree <;> decide

theorem nulFree_oid (row : TreeRow) : NulFree row.entry.oid.toList :=
  fun c hc => decide_eq_false (row.oid_chars c hc).2

theorem nulFree_path (row : TreeRow) : NulFree row.path.toList := row.path_chars

theorem shouldSkipGitEntry_mode (mode : EntryMode) :
    shouldSkipGitEntry mode.text mode.objectType = !mode.isFile := by
  cases mode <;> decide

theorem shouldSkipGitEntry_blob (mode : EntryMode) :
    shouldSkipGitEntry mode.text ['b', 'l', 'o', 'b'] = !mode.isFile := by
  cases mode <;> decide

/-- The content of a regular file. -/
def TreeEntry.fileId (entry : TreeEntry) : Option String :=
  if entry.mode.isFile then some entry.oid else none

def lsTreeRecord (row : TreeRow) : List Char :=
  row.entry.mode.text ++ ' ' :: row.entry.mode.objectType ++ ' ' :: row.entry.oid.toList ++
    '\t' :: row.path.toList

theorem headTreeEntry_lsTreeRecord (row : TreeRow) :
    headTreeEntry (lsTreeRecord row) = row.entry.fileId.map fun oid => (row.path, oid) := by
  have hmetadata : splitWhitespace (row.entry.mode.text ++ ' ' :: row.entry.mode.objectType ++
      ' ' :: row.entry.oid.toList) =
        [row.entry.mode.text, row.entry.mode.objectType, row.entry.oid.toList] := by
    rw [List.append_assoc, List.cons_append, splitWhitespace_cons (word_mode _),
      splitWhitespace_cons (word_objectType _), splitWhitespace_last (word_oid row)]
  have htab : '\t' ∉ row.entry.mode.text ++ ' ' :: row.entry.mode.objectType ++
      ' ' :: row.entry.oid.toList := by
    simp [(word_mode row.entry.mode).not_mem_tab, (word_objectType row.entry.mode).not_mem_tab,
      (word_oid row).not_mem_tab]
  have hpath : row.path.toList.isEmpty = false := by simpa using row.path_nonempty
  rw [headTreeEntry, lsTreeRecord, splitOnce_append htab]
  simp only [Option.bind_eq_bind, Option.bind_some, hmetadata, shouldSkipGitEntry_mode, hpath,
    Bool.or_false, String.ofList_toList, TreeEntry.fileId]
  cases row.entry.mode.isFile <;> rfl

/-- A record that starts with a mode does not start with white space. -/
theorem isWhitespace_head_mode (mode : EntryMode) {c : Char} {rest : List Char}
    (hc : c ∈ (mode.text ++ rest).head?) : Daemon.isWhitespace c = false := by
  cases mode <;> cases hc <;> rfl

/-- Every listed path has a record that is read back. -/
theorem readHeadTree_lsTreeOutput (head : Tree) :
    readHeadTree (trimOutput (lsTreeOutput head)) =
      head.rows.filterMap fun row => row.entry.fileId.map fun oid => (row.path, oid) := by
  have houtput : lsTreeOutput head =
      (head.rows.map lsTreeRecord).flatMap fun text => text ++ [nul] := by
    rw [List.flatMap_map]
    rfl
  have hrecords : records (trimOutput (lsTreeOutput head)) = head.rows.map lsTreeRecord := by
    rw [houtput]
    refine records_output ?_ ?_
    · intro text htext
      obtain ⟨row, -, rfl⟩ := List.mem_map.mp htext
      refine ⟨by simp [lsTreeRecord], ?_⟩
      change NulFree (lsTreeRecord row)
      simp only [lsTreeRecord, nulFree_append, nulFree_cons]
      exact ⟨⟨⟨nulFree_mode _, rfl, nulFree_objectType _⟩, rfl, nulFree_oid row⟩, rfl,
        nulFree_path row⟩
    · intro text htext
      obtain ⟨row, -, rfl⟩ := List.mem_map.mp (List.mem_of_mem_head? htext)
      intro c hc
      rw [lsTreeRecord, List.append_assoc, List.append_assoc] at hc
      exact isWhitespace_head_mode row.entry.mode hc
  rw [readHeadTree, hrecords, List.filterMap_map]
  exact List.filterMap_congr fun row _ => headTreeEntry_lsTreeRecord row

/-! ## Staged changes -/

/-- An identifier that fits in a field of a record. -/
def ValidEntry (entry : Option TreeEntry) : Prop :=
  ∀ e ∈ entry, Word e.oid.toList ∧ NulFree e.oid.toList

theorem validEntry_entryAt (tree : Tree) (path : String) : ValidEntry (entryAt tree path) := by
  intro e he
  obtain ⟨row, -, rfl⟩ := Option.map_eq_some_iff.mp he
  exact ⟨word_oid row, nulFree_oid row⟩

theorem word_modeText (entry : Option TreeEntry) : Word (modeText entry) := by
  cases entry with
  | none => exact ⟨by decide, by decide⟩
  | some e => exact word_mode e.mode

theorem word_oidText {entry : Option TreeEntry} (hvalid : ValidEntry entry) :
    Word (oidText entry) := by
  cases entry with
  | none => exact ⟨by decide, by decide⟩
  | some e => exact (hvalid e rfl).1

theorem nulFree_modeText (entry : Option TreeEntry) : NulFree (modeText entry) := by
  cases entry with
  | none => unfold NulFree; decide
  | some e => exact nulFree_mode e.mode

theorem nulFree_oidText {entry : Option TreeEntry} (hvalid : ValidEntry entry) :
    NulFree (oidText entry) := by
  cases entry with
  | none => unfold NulFree; decide
  | some e => exact (hvalid e rfl).2

/-- The fields of a raw change. -/
def changeRecord (before after : Option TreeEntry) (status : ChangeStatus) : List Char :=
  ':' :: modeText before ++ ' ' :: modeText after ++ ' ' :: oidText before ++
    ' ' :: oidText after ++ ' ' :: [status.letter]

theorem splitWhitespace_changeRecord {before after : Option TreeEntry} {status : ChangeStatus}
    (hbefore : ValidEntry before) (hafter : ValidEntry after) :
    splitWhitespace (changeRecord before after status) =
      [':' :: modeText before, modeText after, oidText before, oidText after,
        [status.letter]] := by
  have hfirst : Word (':' :: modeText before) :=
    ⟨List.cons_ne_nil _ _, fun c hc => by
      rcases List.mem_cons.mp hc with rfl | hc
      · rfl
      · exact (word_modeText before).2 c hc⟩
  have hletter : Word [status.letter] := by
    cases status <;> exact ⟨by decide, by decide⟩
  have hshape : changeRecord before after status =
      (':' :: modeText before) ++ ' ' :: (modeText after ++ ' ' :: (oidText before ++
        ' ' :: (oidText after ++ ' ' :: [status.letter]))) := by
    simp [changeRecord]
  rw [hshape, splitWhitespace_cons hfirst, splitWhitespace_cons (word_modeText after),
    splitWhitespace_cons (word_oidText hbefore), splitWhitespace_cons (word_oidText hafter),
    splitWhitespace_last hletter]

/-- The staged change of a path, from its entries in HEAD and in the index. -/
def stagedOf (headEntry indexEntry : Option TreeEntry) : Option StagedChange :=
  match changeStatus headEntry indexEntry with
  | some .added => (indexEntry.bind TreeEntry.fileId).map .added
  | some .modified => (indexEntry.bind TreeEntry.fileId).map .modified
  | some .deleted => some .deleted
  | some .typeChanged | none => none

theorem stagedChange_changeRecord {headEntry indexEntry : Option TreeEntry}
    {status : ChangeStatus} (hhead : ValidEntry headEntry) (hindex : ValidEntry indexEntry)
    (hstatus : changeStatus headEntry indexEntry = some status)
    (hlisted : status ≠ .typeChanged) :
    stagedChange (changeRecord headEntry indexEntry status) = stagedOf headEntry indexEntry := by
  rw [stagedChange, splitWhitespace_changeRecord hhead hindex]
  cases headEntry with
  | none =>
    cases indexEntry with
    | none => cases hstatus
    | some after =>
      obtain rfl := Option.some.inj hstatus
      obtain ⟨mode, oid⟩ := after
      cases mode <;> simp [stagedOf, changeStatus, modeText, oidText, TreeEntry.fileId,
        shouldSkipGitEntry_blob, ChangeStatus.letter, EntryMode.isFile]
  | some before =>
    cases indexEntry with
    | none =>
      obtain rfl := Option.some.inj hstatus
      simp [stagedOf, changeStatus, ChangeStatus.letter]
    | some after =>
      rw [stagedOf, hstatus]
      cases status with
      | added =>
        simp only [changeStatus] at hstatus
        split_ifs at hstatus <;> cases hstatus
      | deleted =>
        simp only [changeStatus] at hstatus
        split_ifs at hstatus <;> cases hstatus
      | typeChanged => exact absurd rfl hlisted
      | modified =>
        obtain ⟨mode, oid⟩ := after
        cases mode <;> simp [modeText, oidText, TreeEntry.fileId, shouldSkipGitEntry_blob,
          ChangeStatus.letter, EntryMode.isFile]

/-- The records of a path in the raw listing. -/
def changeRecords (headEntry indexEntry : Option TreeEntry) (path : String) : List (List Char) :=
  match changeStatus headEntry indexEntry with
  | none | some .typeChanged => []
  | some status => [changeRecord headEntry indexEntry status, path.toList]

theorem parse_changeRecords {headEntry indexEntry : Option TreeEntry} (path : String)
    (hhead : ValidEntry headEntry) (hindex : ValidEntry indexEntry) (rest : List (List Char)) :
    parseStagedChangesFromDiffIndex (changeRecords headEntry indexEntry path ++ rest) =
      ((stagedOf headEntry indexEntry).map fun change => (path, change)).toList ++
        parseStagedChangesFromDiffIndex rest := by
  cases hstatus : changeStatus headEntry indexEntry with
  | none => simp [changeRecords, stagedOf, hstatus]
  | some status =>
    by_cases hlisted : status = .typeChanged
    · subst hlisted
      simp [changeRecords, stagedOf, hstatus]
    · have hchange := stagedChange_changeRecord hhead hindex hstatus hlisted
      have hrecords : changeRecords headEntry indexEntry path =
          [changeRecord headEntry indexEntry status, path.toList] := by
        rw [changeRecords, hstatus]
        cases status <;> first | rfl | exact absurd rfl hlisted
      rw [hrecords, List.cons_append, List.cons_append, List.nil_append,
        parseStagedChangesFromDiffIndex, hchange]
      cases stagedOf headEntry indexEntry with
      | none => rfl
      | some change => simp

theorem mem_changeRecords {headEntry indexEntry : Option TreeEntry} {path : String}
    {text : List Char} (h : text ∈ changeRecords headEntry indexEntry path) :
    (∃ status, text = changeRecord headEntry indexEntry status) ∨ text = path.toList := by
  unfold changeRecords at h
  split at h
  · cases h
  · cases h
  · rename_i status _ _
    rcases List.mem_cons.mp h with rfl | h
    · exact .inl ⟨status, rfl⟩
    · exact .inr (List.mem_singleton.mp h)

/-- The records of a path begin with the fields of its change. -/
theorem isWhitespace_head_changeRecords {headEntry indexEntry : Option TreeEntry} {path : String}
    {text : List Char} (h : text ∈ (changeRecords headEntry indexEntry path).head?) :
    ∀ c ∈ text.head?, Daemon.isWhitespace c = false := by
  unfold changeRecords at h
  split at h
  · cases h
  · cases h
  · cases h
    intro c hc
    cases hc
    rfl

theorem nulFree_changeRecord {before after : Option TreeEntry} (status : ChangeStatus)
    (hbefore : ValidEntry before) (hafter : ValidEntry after) :
    NulFree (changeRecord before after status) := by
  have hletter : NulFree [status.letter] := by
    unfold NulFree
    cases status <;> decide
  simp only [changeRecord, List.cons_append, nulFree_append, nulFree_cons]
  exact ⟨rfl, ⟨⟨⟨⟨nulFree_modeText before, rfl, nulFree_modeText after⟩, rfl,
    nulFree_oidText hbefore⟩, rfl, nulFree_oidText hafter⟩, rfl, nulFree_cons.mp hletter⟩⟩

theorem parse_diffIndexOutput (head index : Tree) :
    parseStagedChangesFromDiffIndex (records (trimOutput (diffIndexOutput head index))) =
      (allRows head index).filterMap fun row =>
        (stagedOf (entryAt head row.path) (entryAt index row.path)).map
          fun change => (row.path, change) := by
  have houtput : diffIndexOutput head index =
      ((allRows head index).flatMap fun row =>
        changeRecords (entryAt head row.path) (entryAt index row.path) row.path).flatMap
          fun text => text ++ [nul] := by
    rw [List.flatMap_assoc, diffIndexOutput]
    refine List.flatMap_congr fun row _ => ?_
    simp only [changeRecords]
    cases changeStatus (entryAt head row.path) (entryAt index row.path) with
    | none => rfl
    | some status => cases status <;> simp [rawChange, changeRecord]
  have hrecords : records (trimOutput (diffIndexOutput head index)) =
      (allRows head index).flatMap fun row =>
        changeRecords (entryAt head row.path) (entryAt index row.path) row.path := by
    rw [houtput]
    refine records_output ?_ ?_
    · intro text htext
      obtain ⟨row, -, htext⟩ := List.mem_flatMap.mp htext
      rcases mem_changeRecords htext with ⟨status, rfl⟩ | rfl
      · exact ⟨by simp [changeRecord], nulFree_changeRecord status
          (validEntry_entryAt head row.path) (validEntry_entryAt index row.path)⟩
      · exact ⟨row.path_nonempty, nulFree_path row⟩
    · induction allRows head index with
      | nil =>
        intro text htext
        cases htext
      | cons row rows ih =>
        intro text htext
        rw [List.flatMap_cons] at htext
        cases hfirst : changeRecords (entryAt head row.path) (entryAt index row.path) row.path with
        | nil =>
          rw [hfirst] at htext
          exact ih text htext
        | cons first later =>
          rw [hfirst] at htext
          cases htext
          have hhead : text ∈ (changeRecords (entryAt head row.path) (entryAt index row.path)
              row.path).head? := by
            rw [hfirst]
            rfl
          exact isWhitespace_head_changeRecords hhead
  rw [hrecords]
  induction allRows head index with
  | nil => rfl
  | cons row rows ih =>
    rw [List.flatMap_cons, parse_changeRecords row.path (validEntry_entryAt head row.path)
      (validEntry_entryAt index row.path), ih, List.filterMap_cons]
    cases stagedOf (entryAt head row.path) (entryAt index row.path) <;> rfl

/-! ## The index before the first commit -/

def lsFilesRecord (row : TreeRow) : List Char :=
  row.entry.mode.text ++ ' ' :: row.entry.oid.toList ++ ' ' :: '0' :: '\t' :: row.path.toList

theorem lsFilesEntry_lsFilesRecord (row : TreeRow) :
    lsFilesEntry (lsFilesRecord row) =
      (stagedOf none (some row.entry)).map fun change => (row.path, change) := by
  have hstage : Word ['0'] := ⟨by decide, by decide⟩
  have hshape : lsFilesRecord row =
      (row.entry.mode.text ++ ' ' :: (row.entry.oid.toList ++ ' ' :: ['0'])) ++
        '\t' :: row.path.toList := by
    simp [lsFilesRecord]
  have hmetadata : splitWhitespace
      (row.entry.mode.text ++ ' ' :: (row.entry.oid.toList ++ ' ' :: ['0'])) =
        [row.entry.mode.text, row.entry.oid.toList, ['0']] := by
    rw [splitWhitespace_cons (word_mode _), splitWhitespace_cons (word_oid row),
      splitWhitespace_last hstage]
  have htab : '\t' ∉ row.entry.mode.text ++ ' ' :: (row.entry.oid.toList ++ ' ' :: ['0']) := by
    simp [(word_mode row.entry.mode).not_mem_tab, (word_oid row).not_mem_tab]
  have hpath : row.path.toList.isEmpty = false := by simpa using row.path_nonempty
  rw [lsFilesEntry, hshape, splitOnce_append htab]
  simp only [Option.bind_eq_bind, Option.bind_some, hmetadata, hpath, stagedOf, changeStatus,
    TreeEntry.fileId]
  cases hfile : row.entry.mode.isFile <;> simp [shouldSkipGitEntry_blob, hfile]

theorem parse_lsFilesStageOutput (index : Tree) :
    parseStagedChangesFromLsFiles (trimOutput (lsFilesStageOutput index)) =
      index.rows.filterMap fun row =>
        (stagedOf none (some row.entry)).map fun change => (row.path, change) := by
  have houtput : lsFilesStageOutput index =
      (index.rows.map lsFilesRecord).flatMap fun text => text ++ [nul] := by
    rw [List.flatMap_map]
    rfl
  have hrecords : records (trimOutput (lsFilesStageOutput index)) =
      index.rows.map lsFilesRecord := by
    rw [houtput]
    refine records_output ?_ ?_
    · intro text htext
      obtain ⟨row, -, rfl⟩ := List.mem_map.mp htext
      refine ⟨by simp [lsFilesRecord], ?_⟩
      change NulFree (lsFilesRecord row)
      simp only [lsFilesRecord, nulFree_append, nulFree_cons]
      exact ⟨⟨nulFree_mode _, rfl, nulFree_oid row⟩, rfl, rfl, rfl, nulFree_path row⟩
    · intro text htext
      obtain ⟨row, -, rfl⟩ := List.mem_map.mp (List.mem_of_mem_head? htext)
      intro c hc
      rw [lsFilesRecord, List.append_assoc] at hc
      exact isWhitespace_head_mode row.entry.mode hc
  rw [parseStagedChangesFromLsFiles, hrecords, List.filterMap_map]
  exact List.filterMap_congr fun row _ => lsFilesEntry_lsFilesRecord row

/-! ## Lookups -/

/-- The pairs of some paths with a value that depends on the path only. -/
theorem lookupLast_filterMap {β : Type} (value : String → Option β) (paths : List String)
    (path : String) :
    lookupLast path (paths.filterMap fun p => (value p).map fun v => (p, v)) =
      if path ∈ paths then value path else none := by
  induction paths with
  | nil => rfl
  | cons p paths ih =>
    rw [List.filterMap_cons]
    cases hvalue : value p with
    | none =>
      rw [Option.map_none, ih]
      by_cases hp : path = p
      · subst hp
        simp [hvalue]
      · simp [hp]
    | some v =>
      simp only [Option.map_some, lookupLast, lastRow_cons]
      rw [lookupLast] at ih
      rw [Option.map_or, ih]
      by_cases hp : p = path
      · subst hp
        by_cases hlater : p ∈ paths <;> simp [hvalue, hlater]
      · have hp' : path ≠ p := fun h => hp h.symm
        by_cases hlater : path ∈ paths <;> simp [hp, hp', hlater]

theorem entryAt_eq_some {tree : Tree} {row : TreeRow} (hrow : row ∈ tree.rows) :
    entryAt tree row.path = some row.entry := by
  rw [entryAt, UniqueTable.findRow_eq_some.mpr ⟨hrow, rfl⟩]
  rfl

theorem entryAt_eq_none {tree : Tree} {path : String} :
    entryAt tree path = none ↔ path ∉ tree.rows.map (·.path) := by
  rw [entryAt, Option.map_eq_none_iff, UniqueTable.findRow_eq_none]
  simp

/-- The content of a regular file of the tree. -/
def fileIdAt (tree : Tree) (path : String) : Option String :=
  (entryAt tree path).bind TreeEntry.fileId

theorem lookupLast_readHeadTree (head : Tree) (path : String) :
    lookupLast path (readHeadTree (trimOutput (lsTreeOutput head))) = fileIdAt head path := by
  have hpairs : readHeadTree (trimOutput (lsTreeOutput head)) =
      (head.rows.map (·.path)).filterMap fun p => (fileIdAt head p).map fun oid => (p, oid) := by
    rw [readHeadTree_lsTreeOutput, List.filterMap_map]
    refine List.filterMap_congr fun row hrow => ?_
    simp [fileIdAt, entryAt_eq_some hrow]
  rw [hpairs, lookupLast_filterMap]
  split_ifs with hpath
  · rfl
  · rw [fileIdAt, entryAt_eq_none.mpr hpath]
    rfl

theorem mem_allRows {before after : Tree} {path : String} :
    path ∈ (allRows before after).map (·.path) ↔
      path ∈ before.rows.map (·.path) ∨ path ∈ after.rows.map (·.path) := by
  rw [allRows, List.map_append, List.mem_append]
  constructor
  · rintro (h | h)
    · exact .inl h
    · obtain ⟨row, hrow, rfl⟩ := List.mem_map.mp h
      exact .inr (List.mem_map_of_mem (List.mem_filter.mp hrow).1)
  · rintro (h | h)
    · exact .inl h
    · by_cases hbefore : path ∈ before.rows.map (·.path)
      · exact .inl hbefore
      · obtain ⟨row, hrow, rfl⟩ := List.mem_map.mp h
        refine .inr (List.mem_map_of_mem (List.mem_filter.mpr ⟨hrow, ?_⟩))
        rw [entryAt_eq_none.mpr hbefore]
        rfl

theorem lookupLast_diffIndexOutput (head index : Tree) (path : String) :
    lookupLast path
        (parseStagedChangesFromDiffIndex (records (trimOutput (diffIndexOutput head index)))) =
      stagedOf (entryAt head path) (entryAt index path) := by
  have hpairs : parseStagedChangesFromDiffIndex
        (records (trimOutput (diffIndexOutput head index))) =
      ((allRows head index).map (·.path)).filterMap fun p =>
        (stagedOf (entryAt head p) (entryAt index p)).map fun change => (p, change) := by
    rw [parse_diffIndexOutput, List.filterMap_map]
    rfl
  rw [hpairs, lookupLast_filterMap]
  split_ifs with hpath
  · rfl
  · rw [mem_allRows, not_or] at hpath
    rw [entryAt_eq_none.mpr hpath.1, entryAt_eq_none.mpr hpath.2]
    rfl

theorem lookupLast_lsFilesStageOutput (index : Tree) (path : String) :
    lookupLast path (parseStagedChangesFromLsFiles (trimOutput (lsFilesStageOutput index))) =
      stagedOf none (entryAt index path) := by
  have hpairs : parseStagedChangesFromLsFiles (trimOutput (lsFilesStageOutput index)) =
      (index.rows.map (·.path)).filterMap fun p =>
        (stagedOf none (entryAt index p)).map fun change => (p, change) := by
    rw [parse_lsFilesStageOutput, List.filterMap_map]
    refine List.filterMap_congr fun row hrow => ?_
    simp [entryAt_eq_some hrow]
  rw [hpairs, lookupLast_filterMap]
  split_ifs with hpath
  · rfl
  · rw [entryAt_eq_none.mpr hpath]
    rfl

end Sync
end Bitloops
