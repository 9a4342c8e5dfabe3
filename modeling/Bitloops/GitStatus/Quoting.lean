import Bitloops.GitStatus.LineReading

/-!
# Quoted paths

A path that needs quotes is never read back.  `lastWord` counts the characters after the last
space or slash: quotes make the last word longer, and neither an arrow nor a base that is taken off
makes it shorter.
-/

namespace Bitloops
namespace GitStatus

open LanguageAdapter (Text)

variable {path text rest p : Text} {e : StatusEntry}

/-! ## The last word -/

def continuesWord (c : Char) : Bool := c ≠ ' ' && c ≠ '/'

def lastWord (text : Text) : ℕ := (text.reverse.takeWhile continuesWord).length

theorem lastWord_append {c : Char} (hc : continuesWord c = false) (front : Text) :
    lastWord (front ++ c :: rest) = lastWord rest := by
  rw [lastWord, List.reverse_append, List.reverse_cons, List.append_assoc, List.singleton_append,
    List.takeWhile_append, List.takeWhile_cons_of_neg (by rw [hc]; exact Bool.false_ne_true),
    lastWord]
  split_ifs with hlength
  · rw [List.append_nil, hlength]
  · rfl

theorem length_takeWhile_flatMap_le {g : Char → Text} (hg : ∀ c, continuesWord c = true →
      g c ≠ [] ∧ ∀ d ∈ g c, continuesWord d = true) (text : Text) :
    (text.takeWhile continuesWord).length ≤ ((text.flatMap g).takeWhile continuesWord).length := by
  induction text with
  | nil => exact Nat.zero_le _
  | cons c text ih =>
    cases hc : continuesWord c with
    | false =>
      rw [List.takeWhile_cons_of_neg (by rw [hc]; exact Bool.false_ne_true)]
      exact Nat.zero_le _
    | true =>
      obtain ⟨hne, hall⟩ := hg c hc
      have hpos := List.length_pos_iff.mpr hne
      rw [List.takeWhile_cons_of_pos hc, List.flatMap_cons, List.takeWhile_append_of_pos hall,
        List.length_cons, List.length_append]
      omega

theorem continuesWord_of_mem_escapeChar {c d : Char} (hc : continuesWord c = true)
    (hd : d ∈ escapeChar c) : continuesWord d = true := by
  cases hspecial : isSpecial c with
  | true =>
    obtain ⟨hlow, -, hslash⟩ := isVisible_of_mem_escapeChar hspecial hd
    have hspace : d ≠ ' ' := by
      rintro rfl
      exact absurd hlow (by decide)
    rw [continuesWord, decide_eq_true hspace, decide_eq_true hslash, Bool.and_self]
  | false =>
    rw [escapeChar_of_not_special hspecial, List.mem_singleton] at hd
    rwa [hd]

theorem lastWord_lt_quoteCStyle (path : Text) : lastWord path < lastWord (quoteCStyle path) := by
  have hquote : continuesWord '"' = true := by decide
  have hescapes : lastWord path ≤
      ((path.reverse.flatMap fun c => (escapeChar c).reverse).takeWhile continuesWord).length := by
    refine length_takeWhile_flatMap_le (fun c hc => ⟨?_, fun d hd => ?_⟩) path.reverse
    · rw [ne_eq, List.reverse_eq_nil_iff]
      exact escapeChar_ne_nil c
    · exact continuesWord_of_mem_escapeChar hc (List.mem_reverse.mp hd)
  have hmore : ∀ front back : Text, (front.takeWhile continuesWord).length ≤
      ((front ++ back).takeWhile continuesWord).length := by
    intro front back
    rw [List.takeWhile_append]
    split_ifs with hlength
    · rw [hlength, List.length_append]
      omega
    · exact le_refl _
  have hquoted : lastWord (quoteCStyle path) =
      (('"' :: ((path.reverse.flatMap fun c => (escapeChar c).reverse) ++ ['"'])).takeWhile
        continuesWord).length := by
    rw [lastWord, quoteCStyle, List.reverse_cons, List.reverse_append, List.reverse_singleton,
      List.singleton_append, List.cons_append, List.reverse_flatMap]
    rfl
  rw [hquoted, List.takeWhile_cons_of_pos hquote, List.length_cons]
  exact Nat.lt_succ_of_le (hescapes.trans (hmore _ _))

/-! ## What is read of a quoted path -/

/-- The text after the last arrow still ends with the quote. -/
theorem readPath_of_needsQuotes (h : NeedsQuotes path) :
    lastWord path < lastWord (readPath path) ∧ (readPath path).getLast? = some '"' := by
  have hlast : (quoteCStyle path).getLast? = some '"' := by
    rw [quoteCStyle, ← List.cons_append]
    exact List.getLast?_concat
  rw [readPath, shownPath, if_pos h]
  cases harrow : afterLastArrow (quoteCStyle path) with
  | none => exact ⟨lastWord_lt_quoteCStyle path, hlast⟩
  | some rest =>
    obtain ⟨front, heq⟩ := afterLastArrow_eq_some harrow
    have hsplit : quoteCStyle path = (front ++ " ->".toList) ++ ' ' :: rest := by
      rw [heq, List.append_assoc, List.append_assoc]
      rfl
    refine ⟨?_, ?_⟩
    · have hword : lastWord (quoteCStyle path) = lastWord rest := by
        rw [hsplit, lastWord_append (c := ' ') (by decide)]
      rw [Option.getD_some, ← hword]
      exact lastWord_lt_quoteCStyle path
    · rw [hsplit, List.getLast?_append, List.getLast?_cons] at hlast
      rw [Option.getD_some]
      cases hrest : rest.getLast? with
      | none =>
        rw [hrest] at hlast
        exact absurd (Option.some.inj hlast) (by decide)
      | some c =>
        rw [hrest] at hlast
        exact hlast

/-! ## Relative paths -/

theorem skipSlashes_spec (path : Text) :
    skipSlashes path = path ∧ path.head? ≠ some '/' ∨ skipSlashes path = [] ∨
      ∃ front, path = front ++ '/' :: skipSlashes path := by
  induction path using skipSlashes.induct with
  | case1 path ih =>
    rw [skipSlashes]
    rcases ih with ⟨heq, -⟩ | hnil | ⟨front, hfront⟩
    · exact .inr (.inr ⟨[], by rw [heq, List.nil_append]⟩)
    · exact .inr (.inl hnil)
    · exact .inr (.inr ⟨'/' :: front, congrArg ('/' :: ·) hfront⟩)
  | case2 path ih =>
    rw [skipSlashes]
    rcases ih with ⟨heq, -⟩ | hnil | ⟨front, hfront⟩
    · exact .inr (.inr ⟨['.'], by rw [heq, List.singleton_append]⟩)
    · exact .inr (.inl hnil)
    · exact .inr (.inr ⟨'.' :: '/' :: front, congrArg ('.' :: '/' :: ·) hfront⟩)
  | case3 => exact .inr (.inl rfl)
  | case4 path hslash hdot hone =>
    have hself : skipSlashes path = path := by
      unfold skipSlashes
      split
      · exact absurd rfl (hslash _)
      · exact absurd rfl (hdot _)
      · exact absurd rfl hone
      · rfl
    refine .inl ⟨hself, fun hhead => ?_⟩
    cases path with
    | nil => cases hhead
    | cons c path => exact hslash path (by rw [Option.some.inj hhead])

theorem stripComponents_nil {parts : List Text} (h : stripComponents parts [] = some rest) :
    rest = [] := by
  induction parts with
  | nil => exact (Option.some.inj h).symm
  | cons part parts ih =>
    rw [stripComponents] at h
    split_ifs at h
    rw [show skipSlashes [] = [] from rfl, List.drop_nil] at h
    exact ih h

/-- What is left of an absolute path follows a slash. -/
theorem stripComponents_spec {parts : List Text} {path : Text} (hhead : path.head? = some '/')
    (h : stripComponents parts path = some rest) :
    rest = [] ∨ ∃ front, path = front ++ '/' :: rest := by
  induction parts generalizing path with
  | nil =>
    obtain rfl := Option.some.inj h
    rcases skipSlashes_spec path with ⟨-, hnot⟩ | hnil | hfront
    · exact absurd hhead hnot
    · exact .inl hnil
    · exact .inr hfront
  | cons part parts ih =>
    rw [stripComponents] at h
    split_ifs at h with hpart
    rcases hpart.2 with hdrop | hdrop
    · rw [hdrop] at h
      exact .inl (stripComponents_nil h)
    · rcases ih hdrop h with hnil | ⟨front, hfront⟩
      · exact .inl hnil
      · rcases skipSlashes_spec path with ⟨-, hnot⟩ | hnil | ⟨start, hstart⟩
        · exact absurd hhead hnot
        · rw [hnil, List.drop_nil] at hdrop
          cases hdrop
        · have htake := List.take_append_drop part.length (skipSlashes path)
          rw [hfront] at htake
          refine .inr ⟨start ++ '/' :: ((skipSlashes path).take part.length ++ front), ?_⟩
          rw [List.append_assoc, List.cons_append, List.append_assoc, htake]
          exact hstart

/-- A path that ends with a quote stays as it is, or what is left of it follows a slash. -/
theorem toRelativePath_spec {cwd : Text} (hlast : text.getLast? = some '"') :
    toRelativePath text cwd = text ∨ toRelativePath text cwd = [] ∨
      toRelativePath text cwd = ['.'] ∨
        ∃ front, text = front ++ '/' :: toRelativePath text cwd := by
  rw [toRelativePath]
  split_ifs with hhead hempty hroot
  · exact .inl rfl
  · exact .inl rfl
  · exact .inr (.inl rfl)
  · rw [not_not] at hhead
    cases hstrip : stripComponents ((cwd.splitOn '/').filter fun part => part ≠ [] ∧ part ≠ ['.'])
        text with
    | none => exact .inr (.inl rfl)
    | some rest =>
      rcases stripComponents_spec hhead hstrip with rfl | ⟨front, hfront⟩
      · exact .inr (.inr (.inl rfl))
      · have hend : ∃ back, rest.reverse = '"' :: back := by
          rw [hfront, List.getLast?_append, List.getLast?_cons] at hlast
          cases hrest : rest.getLast? with
          | none =>
            rw [hrest] at hlast
            exact absurd (Option.some.inj hlast) (by decide)
          | some c =>
            rw [hrest] at hlast
            obtain rfl : c = '"' := Option.some.inj hlast
            obtain ⟨start, rfl⟩ := List.getLast?_eq_some_iff.mp hrest
            exact ⟨start.reverse, List.reverse_concat ..⟩
        obtain ⟨back, hback⟩ := hend
        have hskip : (skipLastSlashes rest.reverse).reverse = rest := by
          rw [hback]
          exact (congrArg List.reverse hback.symm).trans rest.reverse_reverse
        have hne : rest ≠ [] := by
          rintro rfl
          cases hback
        refine .inr (.inr (.inr ⟨front, hfront.trans (congrArg (front ++ '/' :: ·) ?_)⟩))
        dsimp only
        rw [hskip]
        cases rest with
        | nil => exact absurd rfl hne
        | cons c rest => rfl

/-- The reading of a path that needs quotes has a longer last word. -/
theorem lastWord_lt_reading {repoRoot : Text} (h : NeedsQuotes e.path.text)
    (hreading : reading repoRoot e = some p) (hdot : p ≠ ['.']) :
    lastWord e.path.text < lastWord p := by
  obtain ⟨hlt, hlast⟩ := readPath_of_needsQuotes h
  obtain ⟨-, hrelative, hinside⟩ := reading_eq_some.mp hreading
  have hne : p ≠ [] := by
    rintro rfl
    cases hinside
  rcases @toRelativePath_spec _ repoRoot hlast with hself | hnil | hone | ⟨front, hfront⟩
  · rwa [← hrelative, hself]
  · exact absurd (hrelative.symm.trans hnil) hne
  · exact absurd (hrelative.symm.trans hone) hdot
  · rw [hrelative] at hfront
    rwa [hfront, lastWord_append (c := '/') (by decide) front] at hlt

end GitStatus
end Bitloops
