import Bitloops.CommitHunks.Patch
import Bitloops.LanguageAdapter.UseTrees
import Mathlib.Data.List.TakeWhile

/-!
# Paths in a patch

A path stands in the `diff --git` line, in a `---` or `+++` line or in a `rename` line.  From the
last two kinds it is read when there is no white space at its ends, `normalise_label_iff` and
`normalise_rename_iff`; from the first kind when there is none in it, `headerPaths_iff`.
-/

namespace Bitloops
namespace CommitHunks

open LanguageAdapter (Text trim isWhitespace Tight Blank)

variable {text : Text} {path : GitPath}

/-! ## Characters of a path -/

namespace GitPath

theorem notMem_of_control (path : GitPath) {c : Char} (hc : c.toNat < 0x20) : c ∉ path.text :=
  fun hmem => absurd hc (Nat.not_lt.mpr (path.unquoted c hmem).1)

theorem quote_notMem (path : GitPath) : '"' ∉ path.text :=
  fun hmem => (path.unquoted _ hmem).2.2.1 rfl

theorem backslash_notMem (path : GitPath) : '\\' ∉ path.text :=
  fun hmem => (path.unquoted _ hmem).2.2.2 rfl

theorem ne_nil (path : GitPath) : path.text ≠ [] := by
  intro h
  have hcomponents := path.components
  rw [h] at hcomponents
  exact (hcomponents [] (by decide)).1 rfl

theorem first_component (path : GitPath) {front rest : Text} (h : path.text = front ++ '/' :: rest)
    (hfront : '/' ∉ front) : front ≠ [] ∧ front ≠ ".".toList ∧ front ≠ "..".toList := by
  refine path.components front ?_
  have hslash : ∀ c ∈ front, (c == '/') = false := fun c hc =>
    beq_eq_false_iff_ne.mpr fun heq => hfront (heq ▸ hc)
  rw [h, List.splitOn_eq_splitOnP, List.splitOnP_append_cons_of_forall_mem hslash '/' rfl]
  exact List.mem_cons_self

theorem dropWhile_slash (path : GitPath) : path.text.dropWhile (· = '/') = path.text := by
  cases htext : path.text with
  | nil => rfl
  | cons c rest =>
    refine List.dropWhile_cons_of_neg fun hc => ?_
    rw [of_decide_eq_true hc] at htext
    exact (path.first_component htext List.not_mem_nil).1 rfl

theorem stripDotSlash_text (path : GitPath) : Daemon.stripDotSlash path.text = path.text := by
  unfold Daemon.stripDotSlash
  split
  · rename_i rest htext
    have hdot : path.text = ".".toList ++ '/' :: rest := htext
    exact absurd rfl (path.first_component hdot (by decide)).2.1
  · rfl

end GitPath

/-! ## Trimming -/

/-- `trim_end`. -/
def trimEnd (text : Text) : Text := (text.reverse.dropWhile isWhitespace).reverse

theorem trim_eq (text : Text) : trim text = trimEnd (text.dropWhile isWhitespace) := rfl

theorem length_trimEnd_le (text : Text) : (trimEnd text).length ≤ text.length := by
  rw [trimEnd, List.length_reverse]
  exact ((List.dropWhile_sublist _).length_le).trans_eq List.length_reverse

theorem trim_sublist (text : Text) : (trim text).Sublist text := by
  have hend := (List.dropWhile_sublist isWhitespace
    (l := (text.dropWhile isWhitespace).reverse)).reverse
  rw [List.reverse_reverse] at hend
  exact hend.trans (List.dropWhile_sublist _)

theorem trim_eq_self (h : text.length ≤ (trim text).length) : trim text = text :=
  (trim_sublist text).eq_of_length_le h

theorem trimEnd_append {front : Text} (hfront : ∀ c ∈ front.getLast?, isWhitespace c = false)
    (text : Text) : trimEnd (front ++ text) = front ++ trimEnd text := by
  have hreverse : front.reverse.dropWhile isWhitespace = front.reverse := by
    cases hlast : front.reverse with
    | nil => rfl
    | cons c rest =>
      refine List.dropWhile_cons_of_neg fun hc => ?_
      have hmem : c ∈ front.getLast? := by
        rw [List.getLast?_eq_head?_reverse, hlast]
        rfl
      rw [hfront c hmem] at hc
      exact Bool.false_ne_true hc
  rw [trimEnd, trimEnd, List.reverse_append, List.dropWhile_append]
  split_ifs with hempty
  · rw [List.isEmpty_iff.mp hempty, hreverse, List.reverse_nil, List.append_nil,
      List.reverse_reverse]
  · rw [List.reverse_append, List.reverse_reverse]

/-- A text that is trimmed has no white space at its end. -/
theorem trimEnd_of_trim_eq (h : trim text = text) : trimEnd text = text := by
  have hlength : text.length ≤ (text.dropWhile isWhitespace).length := by
    conv_lhs => rw [← h, trim_eq]
    exact length_trimEnd_le _
  have hstart := (List.dropWhile_sublist isWhitespace).eq_of_length_le hlength
  rw [trim_eq, hstart] at h
  exact h

/-! ## Normal forms -/

theorem slashed_eq_self (h : '\\' ∉ text) : slashed text = text := by
  rw [slashed]
  refine (List.map_congr_left fun c hc => if_neg fun heq => ?_).trans (List.map_id text)
  exact h (heq ▸ hc)

theorem stripDotSlash_sublist (text : Text) : (Daemon.stripDotSlash text).Sublist text := by
  fun_induction Daemon.stripDotSlash text with
  | case1 rest ih => exact (ih.cons '/').cons '.'
  | case2 => exact List.Sublist.refl _

theorem normalizeRepoPath_sublist (h : '\\' ∉ text) :
    (normalizeRepoPath text).Sublist (trim text) := by
  have hslashed : slashed (trim text) = trim text :=
    slashed_eq_self fun hmem => h ((trim_sublist text).subset hmem)
  rw [normalizeRepoPath, hslashed]
  exact (List.dropWhile_sublist _).trans (stripDotSlash_sublist _)

theorem normalizeRepoPath_path (h : trim path.text = path.text) :
    normalizeRepoPath path.text = path.text := by
  rw [normalizeRepoPath, h, slashed_eq_self path.backslash_notMem, path.stripDotSlash_text,
    path.dropWhile_slash]

/-- What is read of a path is the path only if there is nothing to be trimmed. -/
theorem trim_eq_of_normalizeRepoPath {front : Text} (hfront : front.Sublist path.text)
    (h : normalizeRepoPath front = path.text) : trim path.text = path.text := by
  have hbackslash : '\\' ∉ front := fun hmem => path.backslash_notMem (hfront.subset hmem)
  have hlength := (normalizeRepoPath_sublist hbackslash).length_le
  rw [h] at hlength
  have htrim := (trim_sublist front).length_le
  obtain rfl := hfront.eq_of_length_le (hlength.trans htrim)
  exact trim_eq_self hlength

theorem trimQuotes_eq_self (h : '"' ∉ text) : trimQuotes text = text := by
  have hdrop : ∀ {text : Text}, '"' ∉ text → text.dropWhile (· = '"') = text := by
    intro text htext
    cases text with
    | nil => rfl
    | cons c rest =>
      refine List.dropWhile_cons_of_neg fun hc => htext ?_
      rw [of_decide_eq_true hc]
      exact List.mem_cons_self
  rw [trimQuotes, hdrop h, hdrop fun hmem => h (List.mem_reverse.mp hmem), List.reverse_reverse]

theorem normaliseDiffPath_eq {raw : Text} (hquote : '"' ∉ raw) (hbackslash : '\\' ∉ raw)
    (front : Option Text) :
    normaliseDiffPath raw front =
      if trim raw = "/dev/null".toList ∨ trim raw = [] then none
      else some (normalizeRepoPath
        ((front.bind fun front => stripPrefix front (trim raw)).getD (trim raw))) := by
  have hvalue : slashed (trimQuotes (trim raw)) = trim raw := by
    rw [trimQuotes_eq_self fun hmem => hquote ((trim_sublist raw).subset hmem),
      slashed_eq_self fun hmem => hbackslash ((trim_sublist raw).subset hmem)]
  rw [normaliseDiffPath, hvalue]

/-! ## The lines of a path -/

theorem stripPrefix_append (front text : Text) : stripPrefix front (front ++ text) = some text := by
  have hleading : front.isPrefixOf (front ++ text) = true :=
    List.isPrefixOf_iff_prefix.mpr (List.prefix_append front text)
  rw [stripPrefix, if_pos hleading, List.drop_left]

theorem trimEnd_blank {w : Text} (hw : Blank w) (text : Text) :
    trimEnd (text ++ w) = trimEnd text := by
  rw [trimEnd, List.reverse_append, LanguageAdapter.dropWhile_blank hw.reverse, trimEnd]

/-- The marks of the two sides. -/
def IsMark (mark : String) : Prop := mark = "a/" ∨ mark = "b/"

/-- A marked text is trimmed at its end only, and the mark is taken off. -/
theorem normalise_marked {mark : String} (hmark : IsMark mark) (hquote : '"' ∉ text)
    (hbackslash : '\\' ∉ text) :
    normaliseDiffPath (mark.toList ++ text) (some mark.toList) =
      some (normalizeRepoPath (trimEnd text)) := by
  have hchars : '"' ∉ mark.toList ∧ '\\' ∉ mark.toList ∧
      (∀ c ∈ mark.toList.getLast?, isWhitespace c = false) ∧
      ∃ c rest, mark.toList = c :: rest ∧ isWhitespace c = false ∧ c ≠ '/' := by
    have hend : ∀ c, some '/' = some c → isWhitespace c = false := by
      rintro c ⟨⟩
      rfl
    rcases hmark with rfl | rfl
    · exact ⟨by decide, by decide, hend, 'a', ['/'], rfl, by decide, by decide⟩
    · exact ⟨by decide, by decide, hend, 'b', ['/'], rfl, by decide, by decide⟩
  obtain ⟨hmarkQuote, hmarkBackslash, hlast, c, rest, hcons, hc, hslash⟩ := hchars
  have htrim : trim (mark.toList ++ text) = mark.toList ++ trimEnd text := by
    rw [trim_eq, hcons, List.cons_append,
      List.dropWhile_cons_of_neg (by rw [hc]; exact Bool.false_ne_true), ← List.cons_append,
      ← hcons, trimEnd_append hlast]
  have hvalue : ¬(mark.toList ++ trimEnd text = "/dev/null".toList ∨
      mark.toList ++ trimEnd text = []) := by
    rw [hcons]
    rintro (h | h)
    · exact hslash (List.cons_eq_cons.mp h).1
    · exact List.cons_ne_nil _ _ h
  rw [normaliseDiffPath_eq (by simp [hmarkQuote, hquote]) (by simp [hmarkBackslash, hbackslash]),
    htrim, if_neg hvalue, Option.bind_some, stripPrefix_append, Option.getD_some]

theorem label_some (mark : String) (path : GitPath) :
    label mark (some path) =
      mark.toList ++ path.text ++ (if ' ' ∈ path.text then ['\t'] else []) := rfl

theorem label_eq (mark : String) (path : GitPath) :
    ∃ w, Blank w ∧ label mark (some path) = mark.toList ++ (path.text ++ w) := by
  by_cases hspace : ' ' ∈ path.text
  · refine ⟨['\t'], fun c hc => ?_, ?_⟩
    · rw [List.mem_singleton.mp hc]
      decide
    · rw [label_some, if_pos hspace]
      exact List.append_assoc ..
  · refine ⟨[], LanguageAdapter.blank_nil, ?_⟩
    rw [label_some, if_neg hspace]
    exact List.append_assoc ..

theorem trimEnd_sublist (text : Text) : (trimEnd text).Sublist text := by
  have hsublist := (List.dropWhile_sublist isWhitespace (l := text.reverse)).reverse
  rwa [List.reverse_reverse] at hsublist

/-- A path in a `---` or a `+++` line. -/
theorem normalise_label_iff {mark : String} (hmark : IsMark mark) (path : GitPath) :
    normaliseDiffPath (label mark (some path)) (some mark.toList) = some path.text ↔
      trim path.text = path.text := by
  obtain ⟨w, hw, hlabel⟩ := label_eq mark path
  have hquote : '"' ∉ path.text ++ w := by
    rw [List.mem_append, not_or]
    exact ⟨path.quote_notMem, fun h => absurd (hw _ h) (by decide)⟩
  have hbackslash : '\\' ∉ path.text ++ w := by
    rw [List.mem_append, not_or]
    exact ⟨path.backslash_notMem, fun h => absurd (hw _ h) (by decide)⟩
  rw [hlabel, normalise_marked hmark hquote hbackslash, trimEnd_blank hw, Option.some_inj]
  constructor
  · exact trim_eq_of_normalizeRepoPath (trimEnd_sublist path.text)
  · intro h
    rw [trimEnd_of_trim_eq h, normalizeRepoPath_path h]

/-- A path in a `rename` line. -/
theorem normalise_rename_iff (path : GitPath) :
    normaliseDiffPath path.text none = some path.text ↔ trim path.text = path.text := by
  rw [normaliseDiffPath_eq path.quote_notMem path.backslash_notMem]
  constructor
  · intro h
    split_ifs at h
    exact trim_eq_of_normalizeRepoPath (trim_sublist _) (Option.some.inj h)
  · intro h
    have hvalue : ¬(trim path.text = "/dev/null".toList ∨ trim path.text = []) := by
      rw [h]
      rintro (hnull | hnil)
      · have hslash : path.text = [] ++ '/' :: "dev/null".toList := hnull
        exact (path.first_component hslash List.not_mem_nil).1 rfl
      · exact path.ne_nil hnil
    rw [if_neg hvalue, h]
    exact congrArg some (normalizeRepoPath_path h)

/-! ## The `diff --git` line -/

/-- What is read of a marked text is without white space when the text is. -/
theorem normalise_token {mark : String} (hmark : IsMark mark) (hquote : '"' ∉ text)
    (hbackslash : '\\' ∉ text) (hblank : ∀ c ∈ text, isWhitespace c = false) :
    ∃ read, normaliseDiffPath (mark.toList ++ text) (some mark.toList) = some read ∧
      ∀ c ∈ read, isWhitespace c = false := by
  refine ⟨_, normalise_marked hmark hquote hbackslash, fun c hc => hblank c ?_⟩
  have hend : '\\' ∉ trimEnd text := fun hmem => hbackslash ((trimEnd_sublist text).subset hmem)
  exact (trimEnd_sublist text).subset ((trim_sublist _).subset
    ((normalizeRepoPath_sublist hend).subset hc))

theorem parts_of_diffGitLine (before after : GitPath) :
    stripPrefix "diff --git ".toList (diffGitLine before after) =
      some ("a/".toList ++ before.text ++ ' ' :: ("b/".toList ++ after.text)) := by
  have hline : diffGitLine before after = "diff --git ".toList ++
      ("a/".toList ++ before.text ++ ' ' :: ("b/".toList ++ after.text)) := List.append_assoc ..
  rw [hline, stripPrefix_append]

theorem marked_not_blank {mark : String} (hmark : IsMark mark)
    (h : ∀ c ∈ text, isWhitespace c = false) :
    (∀ c ∈ mark.toList ++ text, isWhitespace c = false) ∧ mark.toList ++ text ≠ [] := by
  constructor
  · intro c hc
    rcases List.mem_append.mp hc with hc | hc
    · rcases hmark with rfl | rfl
      · exact (by decide : ∀ c ∈ "a/".toList, isWhitespace c = false) c hc
      · exact (by decide : ∀ c ∈ "b/".toList, isWhitespace c = false) c hc
    · exact h c hc
  · rcases hmark with rfl | rfl <;> exact List.cons_ne_nil _ _

/-- Without white space, the paths stand in the line as they are. -/
theorem headerPaths_of_forall {before after : GitPath}
    (hbefore : ∀ c ∈ before.text, isWhitespace c = false)
    (hafter : ∀ c ∈ after.text, isWhitespace c = false) :
    parseDiffGitHeaderPaths (diffGitLine before after) = (some before.text, some after.text) := by
  have hread : ∀ (path : GitPath) (mark : String), IsMark mark →
      (∀ c ∈ path.text, isWhitespace c = false) →
        normaliseDiffPath (mark.toList ++ path.text) (some mark.toList) = some path.text := by
    intro path mark hmark hpath
    have htrim : trim path.text = path.text :=
      LanguageAdapter.trim_tight (LanguageAdapter.tight_of_forall path.ne_nil hpath)
    rw [normalise_marked hmark path.quote_notMem path.backslash_notMem, trimEnd_of_trim_eq htrim,
      normalizeRepoPath_path htrim]
  obtain ⟨hfirst, hfirst'⟩ := marked_not_blank (Or.inl rfl) hbefore
  obtain ⟨hsecond, hsecond'⟩ := marked_not_blank (Or.inr rfl) hafter
  have hfields : fields isWhitespace
      ("a/".toList ++ before.text ++ ' ' :: ("b/".toList ++ after.text)) =
        ["a/".toList ++ before.text, "b/".toList ++ after.text] := by
    rw [fields_cons hfirst hfirst' (by decide), fields_last hsecond hsecond']
  rw [parseDiffGitHeaderPaths, parts_of_diffGitLine]
  simp only [hfields, List.getElem?_cons_zero, List.getElem?_cons_succ, Option.bind_some]
  rw [hread before "a/" (Or.inl rfl) hbefore, hread after "b/" (Or.inr rfl) hafter]

/-- The first path in the line is never missing, and it has no white space in it. -/
theorem headerPaths_before (before after : GitPath) :
    ∃ read, (parseDiffGitHeaderPaths (diffGitLine before after)).1 = some read ∧
      ∀ c ∈ read, isWhitespace c = false := by
  let front := before.text.takeWhile fun c => !isWhitespace c
  have hfront : ∀ c ∈ front, isWhitespace c = false := fun c hc => by
    simpa using List.mem_takeWhile_imp hc
  have hsublist : front.Sublist before.text := List.takeWhile_sublist _
  obtain ⟨c, rest, hrest, hc⟩ : ∃ c rest,
      before.text ++ ' ' :: ("b/".toList ++ after.text) = front ++ c :: rest ∧
        isWhitespace c = true := by
    have hparts := List.takeWhile_append_dropWhile (p := fun c => !isWhitespace c)
      (l := before.text)
    cases hdrop : before.text.dropWhile fun c => !isWhitespace c with
    | nil =>
      rw [hdrop, List.append_nil] at hparts
      exact ⟨' ', _, congrArg (· ++ ' ' :: ("b/".toList ++ after.text)) hparts.symm, by decide⟩
    | cons c rest =>
      have hc := List.head_dropWhile_not (fun c => !isWhitespace c) (l := before.text)
        (by rw [hdrop]; exact List.cons_ne_nil c rest)
      simp only [hdrop, List.head_cons, Bool.not_eq_false'] at hc
      refine ⟨c, rest ++ ' ' :: ("b/".toList ++ after.text), ?_, hc⟩
      conv_lhs => rw [← hparts, hdrop, List.append_assoc, List.cons_append]
  obtain ⟨hfirst, hfirst'⟩ := marked_not_blank (Or.inl rfl) hfront
  obtain ⟨read, hread, hblank⟩ := normalise_token (Or.inl rfl : IsMark "a/")
    (fun hmem => before.quote_notMem (hsublist.subset hmem))
    (fun hmem => before.backslash_notMem (hsublist.subset hmem)) hfront
  have hparts : "a/".toList ++ before.text ++ ' ' :: ("b/".toList ++ after.text) =
      "a/".toList ++ front ++ c :: rest :=
    ((List.append_assoc ..).trans (congrArg ("a/".toList ++ ·) hrest)).trans
      (List.append_assoc ..).symm
  refine ⟨read, ?_, hblank⟩
  rw [parseDiffGitHeaderPaths, parts_of_diffGitLine, hparts]
  simp only [fields_cons hfirst hfirst' hc, List.getElem?_cons_zero, Option.bind_some]
  exact hread

/-- The paths in the line are the paths only if there is no white space in the first one. -/
theorem headerPaths_before_ne {before after : GitPath}
    (h : ∃ c ∈ before.text, isWhitespace c = true) :
    (parseDiffGitHeaderPaths (diffGitLine before after)).1 ≠ some before.text := by
  obtain ⟨read, hread, hblank⟩ := headerPaths_before before after
  obtain ⟨c, hc, hwhite⟩ := h
  rw [hread]
  intro heq
  rw [← Option.some.inj heq] at hc
  rw [hblank c hc] at hwhite
  exact Bool.false_ne_true hwhite

end CommitHunks
end Bitloops
