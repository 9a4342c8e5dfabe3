import Bitloops.GitStatus.Readers
import Bitloops.LanguageAdapter.UseTrees

/-!
# What the reader of lines makes of a status

`mem_detectFileChanges`: for every entry, it reports the text that follows the last arrow of the
paths as git shows them.
-/

namespace Bitloops
namespace GitStatus

open LanguageAdapter (Text trim isWhitespace Tight trim_tight)
open TextLines Utf8Lossy

variable {path text rest : Text} {e : StatusEntry} {status : Status} {c d : Char}

/-! ## Escapes -/

/-- A visible ASCII character that ends neither a word nor a directory. -/
def IsVisible (c : Char) : Prop := 0x20 < c.toNat ∧ c.toNat < 0x7F ∧ c ≠ '/'

theorem isVisible_octalDigit (n : ℕ) : IsVisible (octalDigit n) := by
  have hlt : n % 8 < 8 := Nat.mod_lt n (by omega)
  unfold octalDigit
  generalize n % 8 = m at hlt
  have hall : ∀ m < 8, 0x20 < (Char.ofNat (48 + m)).toNat ∧ (Char.ofNat (48 + m)).toNat < 0x7F ∧
      Char.ofNat (48 + m) ≠ '/' := by decide
  exact hall m hlt

theorem named_spec : ∀ named ∈ namedEscapes,
    (named.1 < 0x20 ∨ named.1 = '"'.toNat ∨ named.1 = '\\'.toNat) ∧
      0x20 < named.2.toNat ∧ named.2.toNat < 0x7F ∧ named.2 ≠ '/' := by decide

theorem mem_of_lookup {letter : Char} {n : ℕ} (h : namedEscapes.lookup n = some letter) :
    (n, letter) ∈ namedEscapes := by
  obtain ⟨front, rest, heq, -⟩ := List.lookup_eq_some_iff.mp h
  rw [heq]
  exact List.mem_append_right _ List.mem_cons_self

theorem isSpecial_of_named {letter : Char} (h : (c.toNat, letter) ∈ namedEscapes) :
    isSpecial c = true := by
  have hspec := (named_spec _ h).1
  simp only [isSpecial, Bool.or_eq_true, decide_eq_true_eq]
  rcases hspec with hlt | hquote | hbackslash
  · exact .inl (.inr hlt)
  · exact .inl (.inl (.inl (Char.toNat_inj.mp hquote)))
  · exact .inl (.inl (.inr (Char.toNat_inj.mp hbackslash)))

theorem escapeChar_of_not_special (h : isSpecial c = false) : escapeChar c = [c] := by
  rw [escapeChar]
  cases hlookup : namedEscapes.lookup c.toNat with
  | none => exact if_neg (by rw [h]; exact Bool.false_ne_true)
  | some letter =>
    rw [isSpecial_of_named (mem_of_lookup hlookup)] at h
    cases h

theorem isVisible_of_mem_escapeChar (h : isSpecial c = true) (hd : d ∈ escapeChar c) :
    IsVisible d := by
  have hbackslash : IsVisible '\\' := by
    refine ⟨?_, ?_, ?_⟩ <;> decide
  rw [escapeChar] at hd
  cases hlookup : namedEscapes.lookup c.toNat with
  | none =>
    rw [hlookup] at hd
    obtain ⟨byte, -, hd⟩ := List.mem_flatMap.mp ((if_pos h : ite _ _ _ = _) ▸ hd)
    simp only [octalEscape, List.mem_cons, List.not_mem_nil, or_false] at hd
    rcases hd with rfl | rfl | rfl | rfl
    · exact hbackslash
    all_goals exact isVisible_octalDigit _
  | some letter =>
    rw [hlookup] at hd
    simp only [List.mem_cons, List.not_mem_nil, or_false] at hd
    rcases hd with rfl | rfl
    · exact hbackslash
    · exact (named_spec _ (mem_of_lookup hlookup)).2

theorem escapeChar_ne_nil (c : Char) : escapeChar c ≠ [] := by
  by_cases h : isSpecial c = true
  · rw [escapeChar]
    cases namedEscapes.lookup c.toNat with
    | none =>
      dsimp only
      rw [if_pos h]
      intro hnil
      have hlength := String.length_utf8EncodeChar c
      cases hbytes : String.utf8EncodeChar c with
      | nil =>
        rw [hbytes] at hlength
        exact absurd hlength.symm c.utf8Size_pos.ne'
      | cons byte bytes =>
        rw [hbytes, List.flatMap_cons] at hnil
        cases hnil
    | some letter => exact List.cons_ne_nil _ _
  · rw [escapeChar_of_not_special (Bool.eq_false_iff.mpr h)]
    exact List.cons_ne_nil _ _

theorem range_of_not_special (h : isSpecial c = false) : 0x20 ≤ c.toNat ∧ c.toNat < 0x7F := by
  simp only [isSpecial, Bool.or_eq_false_iff, decide_eq_false_iff_not] at h
  omega

/-! ## Shown paths -/

theorem not_special_of_not_needsQuotes (h : ¬NeedsQuotes path) (hc : c ∈ path) :
    isSpecial c = false ∧ c ≠ ' ' := by
  refine ⟨Bool.eq_false_iff.mpr fun hspecial => h ⟨c, hc, .inl hspecial⟩, fun hspace => ?_⟩
  exact h ⟨c, hc, .inr hspace⟩

theorem range_of_mem_shownPath (hd : d ∈ shownPath path) : 0x20 ≤ d.toNat ∧ d.toNat < 0x7F := by
  rw [shownPath] at hd
  split_ifs at hd with hquotes
  · rw [quoteCStyle, List.mem_cons, List.mem_append, List.mem_singleton] at hd
    rcases hd with rfl | hd | rfl
    · decide
    · obtain ⟨c, -, hd⟩ := List.mem_flatMap.mp hd
      cases hspecial : isSpecial c with
      | true =>
        have hvisible := isVisible_of_mem_escapeChar hspecial hd
        exact ⟨hvisible.1.le, hvisible.2.1⟩
      | false =>
        rw [escapeChar_of_not_special hspecial, List.mem_singleton] at hd
        exact hd ▸ range_of_not_special hspecial
    · decide
  · exact range_of_not_special (not_special_of_not_needsQuotes hquotes hd).1

theorem isWhitespace_of_range (h : 0x20 < c.toNat) (h' : c.toNat < 0x7F) :
    isWhitespace c = false := by
  simp only [isWhitespace, Daemon.isWhitespace, Bool.or_eq_false_iff, Bool.and_eq_false_iff,
    decide_eq_false_iff_not]
  omega

theorem isWhitespace_of_not_needsQuotes (h : ¬NeedsQuotes path) (hc : c ∈ path) :
    isWhitespace c = false := by
  obtain ⟨hspecial, hspace⟩ := not_special_of_not_needsQuotes h hc
  obtain ⟨hlow, hhigh⟩ := range_of_not_special hspecial
  refine isWhitespace_of_range (lt_of_le_of_ne hlow fun heq => hspace ?_) hhigh
  exact Char.toNat_inj.mp heq.symm

theorem tight_shownPath (hne : path ≠ []) : Tight (shownPath path) := by
  rw [shownPath]
  split_ifs with hquotes
  · exact ⟨⟨'"', _, rfl, by decide⟩, ⟨'"' :: path.flatMap escapeChar, '"', rfl, by decide⟩⟩
  · obtain ⟨c, tail, rfl⟩ := List.exists_cons_of_ne_nil hne
    refine ⟨⟨c, tail, rfl, isWhitespace_of_not_needsQuotes hquotes List.mem_cons_self⟩, ?_⟩
    refine ⟨_, (c :: tail).getLast hne, (List.dropLast_append_getLast hne).symm, ?_⟩
    exact isWhitespace_of_not_needsQuotes hquotes (List.getLast_mem hne)

theorem RepoPath.ne_nil (path : RepoPath) : path.text ≠ [] := fun h =>
  (path.components [] (by rw [h]; exact List.mem_cons_self)).1 rfl

/-! ## Arrows -/

/-- An arrow that does not stand at the front stands later. -/
theorem afterLastArrow_cons_of_not_prefix (h : ¬arrow <+: c :: text) :
    afterLastArrow (c :: text) = afterLastArrow text := by
  rw [afterLastArrow]
  cases afterLastArrow text with
  | some later => rfl
  | none => exact if_neg fun hprefix => h (List.isPrefixOf_iff_prefix.mp hprefix)

theorem afterLastArrow_cons (hc : c ≠ ' ') : afterLastArrow (c :: text) = afterLastArrow text := by
  refine afterLastArrow_cons_of_not_prefix fun hprefix => hc ?_
  obtain ⟨rest, hrest⟩ := hprefix
  exact (List.cons_eq_cons.mp hrest).1.symm

theorem afterLastArrow_of_notMem (h : ' ' ∉ text) : afterLastArrow text = none := by
  induction text with
  | nil => rfl
  | cons c text ih =>
    rw [List.mem_cons, not_or] at h
    rw [afterLastArrow_cons (Ne.symm h.1), ih h.2]

theorem afterLastArrow_eq_some (h : afterLastArrow text = some rest) :
    ∃ front, text = front ++ arrow ++ rest := by
  induction text with
  | nil => cases h
  | cons c text ih =>
    rw [afterLastArrow] at h
    cases hlater : afterLastArrow text with
    | some later =>
      rw [hlater] at h
      obtain rfl := Option.some.inj h
      obtain ⟨front, heq⟩ := ih hlater
      exact ⟨c :: front, by rw [List.cons_append, List.cons_append, ← heq]⟩
    | none =>
      rw [hlater] at h
      dsimp only at h
      split_ifs at h with hprefix
      obtain ⟨later, hlater⟩ := List.isPrefixOf_iff_prefix.mp hprefix
      obtain ⟨rfl, rfl⟩ := List.cons_eq_cons.mp hlater
      obtain rfl := Option.some.inj h
      exact ⟨[], rfl⟩

/-- The last arrow is in what follows an arrow, or it is that arrow. -/
theorem afterLastArrow_append (h : ¬['-', '>', ' '] <+: text) (front : Text) :
    afterLastArrow (front ++ (arrow ++ text)) = some ((afterLastArrow text).getD text) := by
  induction front with
  | nil =>
    have hspace : afterLastArrow (' ' :: text) = afterLastArrow text := by
      refine afterLastArrow_cons_of_not_prefix fun hprefix => h ?_
      obtain ⟨rest, hrest⟩ := hprefix
      exact ⟨rest, (List.cons_eq_cons.mp hrest).2⟩
    have hdash : afterLastArrow ('-' :: '>' :: ' ' :: text) = afterLastArrow text := by
      rw [afterLastArrow_cons (by decide), afterLastArrow_cons (by decide), hspace]
    rw [List.nil_append]
    show afterLastArrow (' ' :: '-' :: '>' :: ' ' :: text) = _
    rw [afterLastArrow, hdash]
    cases afterLastArrow text with
    | some later => rfl
    | none => exact if_pos rfl
  | cons c front ih => rw [List.cons_append, afterLastArrow, ih]

theorem not_arrow_shownPath (path : Text) : ¬['-', '>', ' '] <+: shownPath path := by
  rintro ⟨rest, hrest⟩
  rw [shownPath] at hrest
  split_ifs at hrest with hquotes
  · cases hrest
  · have hmem : ' ' ∈ path := by
      rw [← hrest]
      simp
    exact (not_special_of_not_needsQuotes hquotes hmem).2 rfl

/-- What the reader of lines takes for a path. -/
def readPath (path : Text) : Text := (afterLastArrow (shownPath path)).getD (shownPath path)

theorem readPath_of_not_needsQuotes (h : ¬NeedsQuotes path) : readPath path = path := by
  have hspace : ' ' ∉ path := fun hmem => (not_special_of_not_needsQuotes h hmem).2 rfl
  rw [readPath, shownPath, if_neg h, afterLastArrow_of_notMem hspace, Option.getD_none]

theorem afterLastArrow_shownPaths (e : StatusEntry) :
    (afterLastArrow (shownPaths e)).getD (shownPaths e) = readPath e.path.text := by
  rw [shownPaths]
  split_ifs
  · rw [List.append_assoc, afterLastArrow_append (not_arrow_shownPath _), Option.getD_some,
      readPath]
  · rw [readPath]

theorem tight_shownPaths (e : StatusEntry) : Tight (shownPaths e) := by
  rw [shownPaths]
  split_ifs
  · rw [List.append_assoc]
    exact (tight_shownPath e.origPath.ne_nil).append (tight_shownPath e.path.ne_nil) arrow
  · exact tight_shownPath e.path.ne_nil

/-! ## Lines -/

inductive ChangeKind where
  | modified
  | newFile
  | deleted
  deriving DecidableEq

def ChangeSets.get (sets : ChangeSets) : ChangeKind → Finset Text
  | .modified => sets.modified
  | .newFile => sets.newFiles
  | .deleted => sets.deleted

def ChangeSets.add (sets : ChangeSets) (path : Text) : ChangeKind → ChangeSets
  | .modified => { sets with modified := insert path sets.modified }
  | .newFile => { sets with newFiles := insert path sets.newFiles }
  | .deleted => { sets with deleted := insert path sets.deleted }

def FileChanges.get (changes : FileChanges) : ChangeKind → List Text
  | .modified => changes.modified
  | .newFile => changes.newFiles
  | .deleted => changes.deleted

variable {sets : ChangeSets} {kind kind' : ChangeKind} {p : Text}

theorem ChangeSets.mem_get_add :
    p ∈ (sets.add path kind).get kind' ↔ p ∈ sets.get kind' ∨ kind = kind' ∧ p = path := by
  cases kind <;> cases kind' <;> simp [ChangeSets.add, ChangeSets.get, or_comm]

/-- What the reader of lines takes a change for. -/
def Change.lineKind (change : Change) : ChangeKind :=
  match change with
  | .untracked => .newFile
  | .tracked .. => if change.has .deleted then .deleted else .modified

theorem Letter.char_inj {l l' : Letter} : l.char = l'.char ↔ l = l' := by
  cases l <;> cases l' <;> decide

theorem Letter.char_ne_question (letter : Letter) : letter.char ≠ '?' := by
  cases letter <;> decide

/-- What holds of all letters and of the mark of untracked files holds of a code. -/
theorem forall_code {P : Char → Prop} (hletter : ∀ letter : Letter, P letter.char) (hmark : P '?')
    (change : Change) : P change.code.1 ∧ P change.code.2 := by
  cases change with
  | untracked => exact ⟨hmark, hmark⟩
  | tracked x y _ => exact ⟨hletter x, hletter y⟩

theorem code_eq_iff (change : Change) (letter : Letter) :
    change.code.1 = letter.char ∨ change.code.2 = letter.char ↔ change.has letter = true := by
  cases change with
  | untracked =>
    refine iff_of_false ?_ Bool.false_ne_true
    rintro (h | h) <;> exact letter.char_ne_question h.symm
  | tracked x y _ =>
    simp only [Change.code, Change.has, Bool.or_eq_true, decide_eq_true_eq, Letter.char_inj]

theorem code_question (change : Change) :
    (change.code.1 = '?' ∧ change.code.2 = '?') ↔ change = .untracked := by
  cases change with
  | untracked => exact iff_of_true ⟨rfl, rfl⟩ rfl
  | tracked x y h =>
    exact iff_of_false (fun hcode => x.char_ne_question hcode.1) (by rintro ⟨⟩)

theorem readLine_statusLine {previouslyUntracked : Option (List Text)}
    (hnone : previouslyUntracked ∈ [none, some []]) (sets : ChangeSets) (e : StatusEntry) :
    readLine previouslyUntracked sets (statusLine e) =
      if isSkipped (readPath e.path.text) then sets
      else sets.add (readPath e.path.text) e.change.lineKind := by
  have hlength : ¬(statusLine e).length < 3 := by
    simp only [statusLine, List.length_cons]
    omega
  have hpath : (afterLastArrow (trim ((statusLine e).drop 3))).getD (trim ((statusLine e).drop 3)) =
      readPath e.path.text := by
    have hdrop : (statusLine e).drop 3 = shownPaths e := rfl
    rw [hdrop, trim_tight (tight_shownPaths e), afterLastArrow_shownPaths]
  have huntracked : (previouslyUntracked.isNone ||
      !(previouslyUntracked.getD []).contains (readPath e.path.text)) = true := by
    simp only [List.mem_cons, List.not_mem_nil, or_false] at hnone
    rcases hnone with rfl | rfl <;> rfl
  have hdeleted := code_eq_iff e.change .deleted
  rw [readLine, if_neg hlength]
  simp only [hpath, huntracked, if_true]
  refine if_congr Iff.rfl rfl ?_
  change (if e.change.code.1 = '?' ∧ e.change.code.2 = '?' then _ else
    if e.change.code.1 = 'D' ∨ e.change.code.2 = 'D' then _ else
    if e.change.code.1 ≠ ' ' ∨ e.change.code.2 ≠ ' ' then _ else _) = _
  cases hchange : e.change with
  | untracked => rfl
  | tracked x y changed =>
    rw [hchange] at hdeleted
    have hcode : (Change.tracked x y changed).code.1 ≠ ' ' ∨
        (Change.tracked x y changed).code.2 ≠ ' ' := by
      rw [← not_and_or]
      exact fun h => changed ⟨Letter.char_inj.mp h.1, Letter.char_inj.mp h.2⟩
    rw [if_neg fun h => x.char_ne_question h.1, Change.lineKind]
    split_ifs with hletter hhas hhas
    · rfl
    · exact absurd (hdeleted.mp hletter) hhas
    · exact absurd (hdeleted.mpr hhas) hletter
    · rfl

theorem mem_get_foldl_readLine {previouslyUntracked : Option (List Text)}
    (hnone : previouslyUntracked ∈ [none, some []]) (entries : List StatusEntry) :
    p ∈ ((entries.map statusLine).foldl (readLine previouslyUntracked) sets).get kind ↔
      p ∈ sets.get kind ∨ ∃ e ∈ entries, e.change.lineKind = kind ∧
        isSkipped (readPath e.path.text) = false ∧ p = readPath e.path.text := by
  induction entries generalizing sets with
  | nil => simp
  | cons e entries ih =>
    rw [List.map_cons, List.foldl_cons, ih, readLine_statusLine hnone]
    simp only [List.mem_cons, exists_eq_or_imp, ← or_assoc]
    refine or_congr ?_ Iff.rfl
    split_ifs with hskipped
    · simp [hskipped]
    · rw [ChangeSets.mem_get_add]
      simp only [Bool.eq_false_iff.mpr hskipped, true_and]

theorem range_of_mem_statusLine (hd : d ∈ statusLine e) : 0x20 ≤ d.toNat ∧ d.toNat < 0x7F := by
  have hletter : ∀ letter : Letter, 0x20 ≤ letter.char.toNat ∧ letter.char.toNat < 0x7F := by
    intro letter
    cases letter <;> decide
  have hcode := @forall_code (fun c => 0x20 ≤ c.toNat ∧ c.toNat < 0x7F) hletter (by decide) e.change
  have harrow : ∀ c ∈ arrow, 0x20 ≤ c.toNat ∧ c.toNat < 0x7F := by
    simp only [arrow]
    decide
  rw [statusLine, List.mem_cons, List.mem_cons, List.mem_cons] at hd
  rcases hd with rfl | rfl | rfl | hd
  · exact hcode.1
  · exact hcode.2
  · decide
  · rw [shownPaths] at hd
    split_ifs at hd
    · rw [List.mem_append, List.mem_append] at hd
      rcases hd with (hd | hd) | hd
      · exact range_of_mem_shownPath hd
      · exact harrow d hd
      · exact range_of_mem_shownPath hd
    · exact range_of_mem_shownPath hd

theorem textLines_lineOutput (status : Status) :
    textLines (decode (lineOutput status)) = status.entries.map statusLine := by
  have hfree : ∀ line ∈ status.entries.map statusLine, '\n' ∉ line ∧ '\r' ∉ line := by
    intro line hline
    obtain ⟨e, -, rfl⟩ := List.mem_map.mp hline
    exact ⟨fun h => absurd (range_of_mem_statusLine h).1 (by decide),
      fun h => absurd (range_of_mem_statusLine h).1 (by decide)⟩
  rw [lineOutput, decode_encode, textLines_joinLines fun line hline => (hfree line hline).1]
  refine (List.map_congr_left fun line hline => ?_).trans (List.map_id _)
  exact stripReturn_eq_self_iff.mpr fun h => (hfree line hline).2 (List.mem_of_getLast? h)

/-- A relative path that does not leave the repository. -/
def isInside (relative : Text) : Bool := relative ≠ [] && !(['.', '.'].isPrefixOf relative)

/-- What the reader of lines reports for an entry. -/
def reading (repoRoot : Text) (e : StatusEntry) : Option Text :=
  if isSkipped (readPath e.path.text) then none
  else (some (toRelativePath (readPath e.path.text) repoRoot)).filter isInside

theorem reading_eq_some {repoRoot : Text} :
    reading repoRoot e = some p ↔ isSkipped (readPath e.path.text) = false ∧
      toRelativePath (readPath e.path.text) repoRoot = p ∧ isInside p = true := by
  rw [reading]
  split_ifs with hskipped
  · exact iff_of_false (by rintro ⟨⟩) fun h => Bool.false_ne_true (h.1.symm.trans hskipped)
  · rw [Option.filter_eq_some_iff, Option.some_inj]
    exact (and_iff_right (Bool.eq_false_iff.mpr hskipped)).symm

theorem mem_normalize {base : Text} {paths : Finset Text} :
    p ∈ normalize base paths ↔
      ∃ path ∈ paths, toRelativePath path base = p ∧ isInside p = true := by
  rw [normalize, List.mem_filter, List.mem_map]
  simp only [Finset.mem_sort, isInside, Bool.and_eq_true, decide_eq_true_eq,
    Bool.not_eq_true', Bool.not_eq_true]
  constructor
  · rintro ⟨⟨path, hpath, rfl⟩, hkept⟩
    exact ⟨path, hpath, rfl, hkept⟩
  · rintro ⟨path, hpath, rfl, hkept⟩
    exact ⟨⟨path, hpath, rfl⟩, hkept⟩

theorem get_detectFileChanges (repoRoot : Text) (previouslyUntracked : Option (List Text))
    (stdout : List UInt8) (kind : ChangeKind) :
    (detectFileChangesForTurnEnd repoRoot previouslyUntracked stdout).get kind =
      normalize repoRoot
        (((textLines (decode stdout)).foldl (readLine previouslyUntracked) {}).get kind) := by
  cases kind <;> rfl

theorem mem_detectFileChanges {repoRoot : Text} {previouslyUntracked : Option (List Text)}
    (hnone : previouslyUntracked ∈ [none, some []]) :
    p ∈ (detectFileChangesForTurnEnd repoRoot previouslyUntracked (lineOutput status)).get kind ↔
      ∃ e ∈ status.entries, e.change.lineKind = kind ∧ reading repoRoot e = some p := by
  have hempty : ∀ path, path ∉ ChangeSets.get {} kind := by
    intro path
    cases kind <;> exact Finset.notMem_empty path
  rw [get_detectFileChanges, mem_normalize]
  simp only [textLines_lineOutput, mem_get_foldl_readLine hnone, hempty, false_or]
  constructor
  · rintro ⟨path, ⟨e, he, hkind, hskipped, hpath⟩, hrelative, hkept⟩
    rw [hpath] at hrelative
    exact ⟨e, he, hkind, reading_eq_some.mpr ⟨hskipped, hrelative, hkept⟩⟩
  · rintro ⟨e, he, hkind, hreading⟩
    obtain ⟨hskipped, hrelative, hkept⟩ := reading_eq_some.mp hreading
    exact ⟨_, ⟨e, he, hkind, hskipped, rfl⟩, hrelative, hkept⟩

end GitStatus
end Bitloops
