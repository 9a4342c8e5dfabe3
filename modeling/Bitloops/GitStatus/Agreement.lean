import Bitloops.GitStatus.Quoting
import Bitloops.GitStatus.RecordReading

/-!
# When the two readers agree

`agree_iff_plain`: the reader of lines and the reader of records report the same changes, and no
changed file is missed, exactly when the status has no quoted path, no rename whose old path is
not listed, and none of the letters that they take differently.
-/

namespace Bitloops
namespace GitStatus

open LanguageAdapter (Text)

/-! ## Agreement -/

namespace FileChanges

/-- The same deleted files, and the same files that are there, but for those that are left out. -/
def Same (changes changes' : FileChanges) : Prop :=
  ∀ p, isLeftOut p = false →
    (p ∈ changes.deleted ↔ p ∈ changes'.deleted) ∧
      (p ∈ changes.modified ∨ p ∈ changes.newFiles ↔
        p ∈ changes'.modified ∨ p ∈ changes'.newFiles)

def Names (changes : FileChanges) (p : Text) : Prop :=
  p ∈ changes.deleted ∨ p ∈ changes.modified ∨ p ∈ changes.newFiles

end FileChanges

/-- Paths of files whose content or presence changed. -/
def StatusEntry.changedPaths (e : StatusEntry) : List Text :=
  e.path.text :: if e.change.has .renamed then [e.origPath.text] else []

/-- The two readers report the same changes, and every changed file is one of them. -/
def Agree (repoRoot : Text) (status : Status) : Prop :=
  ∀ previouslyUntracked ∈ [none, some []],
    (detectFileChangesForTurnEnd repoRoot previouslyUntracked (lineOutput status)).Same
        (workingTreeChanges (nulOutput status)) ∧
      ∀ e ∈ status.entries, ∀ p ∈ e.changedPaths, isLeftOut p = false →
        (detectFileChangesForTurnEnd repoRoot previouslyUntracked (lineOutput status)).Names p

/-- The condition on an entry.  The old path of a rename is the path of a listed file, which is
deleted if the rename is no copy as well. -/
structure StatusEntry.Plain (entries : List StatusEntry) (e : StatusEntry) : Prop where
  unquoted : ¬NeedsQuotes e.path.text
  notDots : ¬['.', '.'] <+: e.path.text
  notUnmerged : ¬e.change.OnlyUnmerged
  notBoth : e.change.has .deleted = true → e.change.moves = false
  oldListed : e.change.has .renamed = true → isLeftOut e.origPath.text = false →
    ∃ other ∈ entries, other.path.text = e.origPath.text ∧
      (e.change.has .copied = false → other.change.has .deleted = true)

variable {repoRoot p : Text} {e other : StatusEntry} {status : Status}
  {previouslyUntracked : Option (List Text)}

/-! ## What both readers name -/

theorem RepoPath.head_ne_slash (path : RepoPath) : path.text.head? ≠ some '/' := by
  intro h
  cases htext : path.text with
  | nil =>
    rw [htext] at h
    cases h
  | cons c rest =>
    rw [htext] at h
    obtain rfl := Option.some.inj h
    refine (path.components [] ?_).1 rfl
    rw [htext, ← List.nil_append ('/' :: rest), List.splitOn_append_cons_self]
    exact List.mem_append_left _ List.mem_cons_self

theorem RepoPath.ne_dot (path : RepoPath) : path.text ≠ ['.'] := fun h =>
  (path.components ['.'] (by rw [h]; exact List.mem_cons_self)).2.1 rfl

theorem reading_of_plain (hquotes : ¬NeedsQuotes e.path.text)
    (hdots : ¬['.', '.'] <+: e.path.text) :
    reading repoRoot e = some e.path.text := by
  rw [reading_eq_some, readPath_of_not_needsQuotes hquotes]
  refine ⟨?_, if_pos e.path.head_ne_slash, ?_⟩
  · rw [isSkipped, decide_eq_false e.path.ne_nil, decide_eq_false e.path.getLast_ne_slash,
      e.reported]
    rfl
  · rw [isInside, decide_eq_true e.path.ne_nil,
      Bool.eq_false_iff.mpr fun h => hdots (List.isPrefixOf_iff_prefix.mp h)]
    rfl

theorem path_of_reading (hquotes : ¬NeedsQuotes e.path.text) (h : reading repoRoot e = some p) :
    p = e.path.text := by
  obtain ⟨-, hrelative, -⟩ := reading_eq_some.mp h
  rw [readPath_of_not_needsQuotes hquotes] at hrelative
  exact hrelative.symm.trans (if_pos e.path.head_ne_slash)

section Lines

variable (hnone : previouslyUntracked ∈ [none, some []])

include hnone

theorem mem_deleted_lines :
    p ∈ (detectFileChangesForTurnEnd repoRoot previouslyUntracked (lineOutput status)).deleted ↔
      ∃ e ∈ status.entries, e.change.has .deleted = true ∧ reading repoRoot e = some p := by
  have hkind : ∀ change : Change, change.lineKind = .deleted ↔ change.has .deleted = true := by
    intro change
    cases change with
    | untracked => decide
    | tracked x y h =>
      rw [Change.lineKind]
      split_ifs with hhas <;> simp [hhas]
  refine (@mem_detectFileChanges _ .deleted _ _ _ hnone).trans ?_
  simp only [hkind]

theorem mem_present_lines :
    p ∈ (detectFileChangesForTurnEnd repoRoot previouslyUntracked (lineOutput status)).modified ∨
        p ∈ (detectFileChangesForTurnEnd repoRoot previouslyUntracked
          (lineOutput status)).newFiles ↔
      ∃ e ∈ status.entries, e.change.has .deleted = false ∧ reading repoRoot e = some p := by
  have hkind : ∀ change : Change, change.lineKind = .modified ∨ change.lineKind = .newFile ↔
      change.has .deleted = false := by
    intro change
    cases change with
    | untracked => decide
    | tracked x y h =>
      rw [Change.lineKind]
      split_ifs with hhas <;> simp [hhas]
  refine (or_congr (@mem_detectFileChanges _ .modified _ _ _ hnone)
    (@mem_detectFileChanges _ .newFile _ _ _ hnone)).trans ?_
  simp only [← hkind, or_and_right, and_or_left, exists_or]

theorem names_lines_iff :
    (detectFileChangesForTurnEnd repoRoot previouslyUntracked (lineOutput status)).Names p ↔
      ∃ e ∈ status.entries, reading repoRoot e = some p := by
  rw [FileChanges.Names, mem_present_lines hnone, mem_deleted_lines hnone]
  constructor
  · rintro (⟨e, he, -, h⟩ | ⟨e, he, -, h⟩) <;> exact ⟨e, he, h⟩
  · rintro ⟨e, he, h⟩
    cases hdeleted : e.change.has .deleted with
    | true => exact .inl ⟨e, he, hdeleted, h⟩
    | false => exact .inr ⟨e, he, hdeleted, h⟩

end Lines

theorem mem_deleted_records :
    p ∈ (workingTreeChanges (nulOutput status)).deleted ↔ ∃ e ∈ status.entries,
      (e.change.has .copied = false ∧ e.change.has .renamed = true ∧ p = e.origPath.text ∧
        PostCommit.isInfrastructurePath (String.ofList p) = false) ∨
      (e.change.moves = false ∧ e.change.has .deleted = true ∧ p = e.path.text) :=
  (@mem_workingTreeChanges _ _ .deleted).trans <|
    exists_congr fun _ => and_congr_right fun _ => mem_deleted_addEntry

theorem mem_present_records :
    p ∈ (workingTreeChanges (nulOutput status)).modified ∨
        p ∈ (workingTreeChanges (nulOutput status)).newFiles ↔
      ∃ e ∈ status.entries, p = e.path.text ∧ (e.change.moves = true ∨
        e.change.has .deleted = false ∧ ¬e.change.OnlyUnmerged) := by
  refine (or_congr (@mem_workingTreeChanges _ _ .modified)
    (@mem_workingTreeChanges _ _ .newFile)).trans ?_
  rw [← exists_or]
  refine exists_congr fun e => ?_
  rw [← and_or_left]
  exact and_congr_right fun _ => mem_present_addEntry

theorem eq_of_path_eq (he : e ∈ status.entries) (hother : other ∈ status.entries)
    (h : e.path.text = other.path.text) : e = other :=
  List.inj_on_of_nodup_map status.once he hother h

/-! ## Plain statuses agree -/

theorem agree_of_plain (hplain : ∀ e ∈ status.entries, e.Plain status.entries) :
    Agree repoRoot status := by
  have hreading : ∀ e ∈ status.entries, ∀ p, reading repoRoot e = some p ↔ p = e.path.text := by
    intro e he p
    rw [reading_of_plain (hplain e he).unquoted (hplain e he).notDots, Option.some_inj, eq_comm]
  intro previouslyUntracked hnone
  refine ⟨fun p hp => ⟨?_, ?_⟩, fun e he p hmem hp => ?_⟩
  · rw [mem_deleted_lines hnone, mem_deleted_records]
    constructor
    · rintro ⟨e, he, hdeleted, h⟩
      exact ⟨e, he, .inr ⟨(hplain e he).notBoth hdeleted, hdeleted, (hreading e he p).mp h⟩⟩
    · rintro ⟨e, he, ⟨hcopied, hrenamed, rfl, -⟩ | ⟨-, hdeleted, rfl⟩⟩
      · obtain ⟨other, hother, hpath, hlisted⟩ := (hplain e he).oldListed hrenamed hp
        exact ⟨other, hother, hlisted hcopied, (hreading other hother _).mpr hpath.symm⟩
      · exact ⟨e, he, hdeleted, (hreading e he _).mpr rfl⟩
  · rw [mem_present_lines hnone, mem_present_records]
    constructor
    · rintro ⟨e, he, hdeleted, h⟩
      exact ⟨e, he, (hreading e he p).mp h, .inr ⟨hdeleted, (hplain e he).notUnmerged⟩⟩
    · rintro ⟨e, he, rfl, hmoves | ⟨hdeleted, -⟩⟩
      · refine ⟨e, he, ?_, (hreading e he _).mpr rfl⟩
        rw [← Bool.not_eq_true]
        intro hdeleted
        exact Bool.false_ne_true (((hplain e he).notBoth hdeleted).symm.trans hmoves)
      · exact ⟨e, he, hdeleted, (hreading e he _).mpr rfl⟩
  · rw [names_lines_iff hnone]
    rw [StatusEntry.changedPaths, List.mem_cons] at hmem
    rcases hmem with rfl | hmem
    · exact ⟨e, he, (hreading e he _).mpr rfl⟩
    · split_ifs at hmem with hrenamed
      · obtain rfl := List.mem_singleton.mp hmem
        obtain ⟨other, hother, hpath, -⟩ := (hplain e he).oldListed hrenamed hp
        exact ⟨other, hother, (hreading other hother _).mpr hpath.symm⟩
      · exact absurd hmem List.not_mem_nil

/-! ## Readers that agree read a plain status -/

section Agreeing

variable (h : Agree repoRoot status)

include h

theorem exists_reading (he : e ∈ status.entries) :
    ∃ other ∈ status.entries, reading repoRoot other = some e.path.text :=
  (names_lines_iff List.mem_cons_self).mp
    ((h none List.mem_cons_self).2 e he _ List.mem_cons_self e.reported)

/-- By descent: a quoted path would be read from a quoted path with a shorter last word. -/
theorem not_needsQuotes_of_agree : ∀ n, ∀ e ∈ status.entries, lastWord e.path.text = n →
    ¬NeedsQuotes e.path.text := by
  intro n
  induction n using Nat.strong_induction_on with
  | _ n ih =>
    intro e he hlength hquotes
    obtain ⟨other, hother, hreading⟩ := exists_reading h he
    by_cases hotherQuotes : NeedsQuotes other.path.text
    · have hlt := lastWord_lt_reading hotherQuotes hreading e.path.ne_dot
      exact ih _ (hlength ▸ hlt) other hother rfl hotherQuotes
    · exact hotherQuotes (path_of_reading hotherQuotes hreading ▸ hquotes)

theorem unquoted_of_agree (he : e ∈ status.entries) : ¬NeedsQuotes e.path.text :=
  not_needsQuotes_of_agree h _ e he rfl

/-- An entry is read as its own path. -/
theorem reading_of_agree (he : e ∈ status.entries) :
    reading repoRoot e = some e.path.text := by
  obtain ⟨other, hother, hreading⟩ := exists_reading h he
  have hpath := path_of_reading (unquoted_of_agree h hother) hreading
  obtain rfl := eq_of_path_eq he hother hpath
  exact hreading

theorem deleted_iff_of_agree (hp : isLeftOut p = false) :
    (∃ e ∈ status.entries, e.change.has .deleted = true ∧ p = e.path.text) ↔
      p ∈ (workingTreeChanges (nulOutput status)).deleted := by
  rw [← ((h none List.mem_cons_self).1 p hp).1, mem_deleted_lines List.mem_cons_self]
  refine exists_congr fun e => and_congr_right fun he => and_congr_right fun _ => ?_
  rw [reading_of_agree h he, Option.some_inj, eq_comm]

theorem present_iff_of_agree (hp : isLeftOut p = false) :
    (∃ e ∈ status.entries, e.change.has .deleted = false ∧ p = e.path.text) ↔
      p ∈ (workingTreeChanges (nulOutput status)).modified ∨
        p ∈ (workingTreeChanges (nulOutput status)).newFiles := by
  rw [← ((h none List.mem_cons_self).1 p hp).2, mem_present_lines List.mem_cons_self]
  refine exists_congr fun e => and_congr_right fun he => and_congr_right fun _ => ?_
  rw [reading_of_agree h he, Option.some_inj, eq_comm]

theorem plain_of_agree (he : e ∈ status.entries) : e.Plain status.entries where
  unquoted := unquoted_of_agree h he
  notDots := by
    obtain ⟨-, -, hinside⟩ := reading_eq_some.mp (reading_of_agree h he)
    rw [isInside, Bool.and_eq_true, Bool.not_eq_true'] at hinside
    exact fun hdots => Bool.false_ne_true
      (hinside.2.symm.trans (List.isPrefixOf_iff_prefix.mpr hdots))
  notUnmerged := by
    intro honly
    have hdeleted : e.change.has .deleted = false := honly.2 _ (by decide)
    obtain ⟨other, hother, hpath, hletters⟩ := mem_present_records.mp
      ((present_iff_of_agree h e.reported).mp ⟨e, he, hdeleted, rfl⟩)
    obtain rfl := eq_of_path_eq he hother hpath
    rcases hletters with hmoves | ⟨-, hnot⟩
    · rw [Change.moves, honly.2 .renamed (by decide), honly.2 .copied (by decide)] at hmoves
      cases hmoves
    · exact hnot honly
  notBoth := by
    intro hdeleted
    rw [← Bool.not_eq_true]
    intro hmoves
    obtain ⟨other, hother, hnot, hpath⟩ := (present_iff_of_agree h e.reported).mpr
      (mem_present_records.mpr ⟨e, he, rfl, .inl hmoves⟩)
    obtain rfl := eq_of_path_eq he hother hpath
    rw [hdeleted] at hnot
    cases hnot
  oldListed := by
    intro hrenamed hold
    have hnamed : e.origPath.text ∈ e.changedPaths := by
      rw [StatusEntry.changedPaths, if_pos hrenamed]
      exact List.mem_cons_of_mem _ List.mem_cons_self
    obtain ⟨other, hother, hreading⟩ := (names_lines_iff List.mem_cons_self).mp
      ((h none List.mem_cons_self).2 e he _ hnamed hold)
    have hpath := path_of_reading (unquoted_of_agree h hother) hreading
    refine ⟨other, hother, hpath.symm, fun hcopied => ?_⟩
    obtain ⟨deleted, hdeleted, hhas, hsame⟩ := (deleted_iff_of_agree h hold).mpr
      (mem_deleted_records.mpr
        ⟨e, he, .inl ⟨hcopied, hrenamed, rfl, (Bool.or_eq_false_iff.mp hold).1⟩⟩)
    rwa [eq_of_path_eq hother hdeleted (hpath.symm.trans hsame)]

end Agreeing

/-- `R  old.rs -> new.rs`. -/
def renamedFile : Status where
  entries :=
    [{ change := .tracked .renamed .unmodified (by decide)
       path := ⟨"new.rs".toList, by decide, by decide⟩
       origPath := ⟨"old.rs".toList, by decide, by decide⟩
       reported := by decide }]
  once := List.nodup_singleton _

end GitStatus
end Bitloops
