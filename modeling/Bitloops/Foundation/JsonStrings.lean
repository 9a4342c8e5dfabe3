import Mathlib.Data.List.Basic
import Mathlib.Data.Nat.Notation

/-!
# JSON arrays of strings

A column that holds a list of strings holds its JSON text.  `encode` writes the text without
whitespace and with the short escapes; `decode` accepts whitespace and every escape of the
grammar, and rejects every other text.  `decode_encode` is the round trip.
-/

namespace Bitloops
namespace JsonStrings

def quote : Char := Char.ofNat 0x22
def backslash : Char := Char.ofNat 0x5C

/-! ## Encoding -/

def hexDigit (n : ℕ) : Char :=
  if n < 10 then Char.ofNat (0x30 + n) else Char.ofNat (0x57 + n)

/-- The letter of a short escape. -/
def shortEscape? (c : Char) : Option Char :=
  if c = quote then some quote
  else if c = backslash then some backslash
  else if c.toNat = 0x08 then some 'b'
  else if c.toNat = 0x09 then some 't'
  else if c.toNat = 0x0A then some 'n'
  else if c.toNat = 0x0C then some 'f'
  else if c.toNat = 0x0D then some 'r'
  else none

def escapeChar (c : Char) : List Char :=
  match shortEscape? c with
  | some letter => [backslash, letter]
  | none =>
    if c.toNat < 0x20 then
      [backslash, 'u', '0', '0', hexDigit (c.toNat / 16), hexDigit (c.toNat % 16)]
    else [c]

def encodeChars (chars : List Char) : List Char :=
  quote :: (chars.flatMap escapeChar ++ [quote])

/-- The elements, separated by commas. -/
def encodeElements : List String → List Char
  | [] => []
  | [s] => encodeChars s.toList
  | s :: rest => encodeChars s.toList ++ ',' :: encodeElements rest

def encode (strings : List String) : String :=
  String.ofList ('[' :: (encodeElements strings ++ [']']))

/-! ## Decoding -/

def isSpace (c : Char) : Bool :=
  c.toNat = 0x20 || c.toNat = 0x09 || c.toNat = 0x0A || c.toNat = 0x0D

def skipSpace (text : List Char) : List Char := text.dropWhile isSpace

def hexValue? (c : Char) : Option ℕ :=
  if 0x30 ≤ c.toNat ∧ c.toNat ≤ 0x39 then some (c.toNat - 0x30)
  else if 0x61 ≤ c.toNat ∧ c.toNat ≤ 0x66 then some (c.toNat - 0x57)
  else if 0x41 ≤ c.toNat ∧ c.toNat ≤ 0x46 then some (c.toNat - 0x37)
  else none

/-- The code unit of four hexadecimal digits. -/
def codeUnit? (a b c d : Char) : Option ℕ := do
  let a ← hexValue? a
  let b ← hexValue? b
  let c ← hexValue? c
  let d ← hexValue? d
  return 4096 * a + 256 * b + 16 * c + d

/-- The character of a short escape. -/
def unescape? (letter : Char) : Option Char :=
  if letter = quote then some quote
  else if letter = backslash then some backslash
  else if letter = '/' then some '/'
  else if letter = 'b' then some (Char.ofNat 0x08)
  else if letter = 't' then some (Char.ofNat 0x09)
  else if letter = 'n' then some (Char.ofNat 0x0A)
  else if letter = 'f' then some (Char.ofNat 0x0C)
  else if letter = 'r' then some (Char.ofNat 0x0D)
  else none

/-- The character that a code unit stands for, or that it begins as a leading surrogate together
with the escape that follows, and the rest of the text. -/
def codePoint? (unit : ℕ) (rest : List Char) : Option (Char × List Char) :=
  if 0xD800 ≤ unit ∧ unit < 0xDC00 then
    match rest with
    | s :: u :: a :: b :: c :: d :: rest =>
      if s = backslash ∧ u = 'u' then
        (codeUnit? a b c d).bind fun low =>
          if 0xDC00 ≤ low ∧ low < 0xE000 then
            some (Char.ofNat (0x10000 + 1024 * (unit - 0xD800) + (low - 0xDC00)), rest)
          else none
      else none
    | _ => none
  else if 0xDC00 ≤ unit ∧ unit < 0xE000 then none
  else some (Char.ofNat unit, rest)

/-- The first character of a string literal, and the rest of the text. -/
def decodeChar? : List Char → Option (Char × List Char)
  | [] => none
  | c :: rest =>
    if c = backslash then
      match rest with
      | [] => none
      | letter :: rest =>
        if letter = 'u' then
          match rest with
          | a :: b :: c :: d :: rest =>
            (codeUnit? a b c d).bind fun unit => codePoint? unit rest
          | _ => none
        else (unescape? letter).map (·, rest)
    else if c.toNat < 0x20 then none
    else some (c, rest)

/-- The characters up to the closing quote, and the text after it. -/
def decodeChars : ℕ → List Char → Option (List Char × List Char)
  | _, [] => none
  | 0, _ => none
  | fuel + 1, c :: rest =>
    if c = quote then some ([], rest)
    else
      (decodeChar? (c :: rest)).bind fun (decoded, rest) =>
        (decodeChars fuel rest).map fun (chars, rest) => (decoded :: chars, rest)

/-- The elements up to the closing bracket, and the text after it. -/
def decodeElements : ℕ → List Char → Option (List String × List Char)
  | 0, _ => none
  | fuel + 1, text =>
    match skipSpace text with
    | [] => none
    | open_ :: text =>
      if open_ = quote then
        (decodeChars text.length text).bind fun (chars, rest) =>
          match skipSpace rest with
          | [] => none
          | next :: rest =>
            if next = ',' then
              (decodeElements fuel rest).map fun (strings, rest) =>
                (String.ofList chars :: strings, rest)
            else if next = ']' then some ([String.ofList chars], rest)
            else none
      else none

def decode (text : String) : Option (List String) :=
  match skipSpace text.toList with
  | [] => none
  | open_ :: text =>
    if open_ = '[' then
      match skipSpace text with
      | [] => none
      | first :: rest =>
        if first = ']' then if skipSpace rest = [] then some [] else none
        else
          (decodeElements text.length text).bind fun (strings, rest) =>
            if skipSpace rest = [] then some strings else none
    else none

/-! ## The round trip -/

theorem hexValue?_hexDigit {n : ℕ} (hn : n < 16) : hexValue? (hexDigit n) = some n := by
  have hall : ∀ n < 16, hexValue? (hexDigit n) = some n := by decide
  exact hall n hn

theorem toNat_injective {c d : Char} (h : c.toNat = d.toNat) : c = d := by
  rw [← Char.ofNat_toNat c, ← Char.ofNat_toNat d, h]

/-- A short escape is undone, and its letter is not the one of a code unit. -/
theorem unescape?_of_shortEscape? {c letter : Char} (h : shortEscape? c = some letter) :
    unescape? letter = some c ∧ letter ≠ 'u' := by
  unfold shortEscape? at h
  split_ifs at h with h₁ h₂ h₃ h₄ h₅ h₆ h₇ <;> cases h
  · exact ⟨by rw [h₁]; decide, by decide⟩
  · exact ⟨by rw [h₂]; decide, by decide⟩
  · exact ⟨by rw [toNat_injective (c := c) (d := Char.ofNat 0x08) h₃]; decide, by decide⟩
  · exact ⟨by rw [toNat_injective (c := c) (d := Char.ofNat 0x09) h₄]; decide, by decide⟩
  · exact ⟨by rw [toNat_injective (c := c) (d := Char.ofNat 0x0A) h₅]; decide, by decide⟩
  · exact ⟨by rw [toNat_injective (c := c) (d := Char.ofNat 0x0C) h₆]; decide, by decide⟩
  · exact ⟨by rw [toNat_injective (c := c) (d := Char.ofNat 0x0D) h₇]; decide, by decide⟩

theorem codeUnit?_control {n : ℕ} (hn : n < 0x20) :
    codeUnit? '0' '0' (hexDigit (n / 16)) (hexDigit (n % 16)) = some n := by
  have hzero : hexValue? '0' = some 0 := by decide
  rw [codeUnit?, hzero, hexValue?_hexDigit (by omega), hexValue?_hexDigit (by omega)]
  simp only [Option.bind_eq_bind, Option.bind_some, Option.pure_def, Option.some.injEq]
  omega

/-- The escaped form of a character is read back, and does not look like the end. -/
theorem decodeChar?_escapeChar (c : Char) (rest : List Char) :
    decodeChar? (escapeChar c ++ rest) = some (c, rest) ∧
      (escapeChar c).head? ≠ some quote ∧ 0 < (escapeChar c).length := by
  unfold escapeChar
  cases hshort : shortEscape? c with
  | some letter =>
    obtain ⟨hletter, hu⟩ := unescape?_of_shortEscape? hshort
    have hstart : backslash ≠ quote := by decide
    refine ⟨?_, by simpa using hstart, by simp⟩
    simp [decodeChar?, hu, hletter]
  | none =>
    have hquote : c ≠ quote := by
      rintro rfl
      exact absurd hshort (by decide)
    have hbackslash : c ≠ backslash := by
      rintro rfl
      exact absurd hshort (by decide)
    by_cases hcontrol : c.toNat < 0x20
    · simp only [if_pos hcontrol]
      have hstart : backslash ≠ quote := by decide
      have hleading : ¬ (0xD800 ≤ c.toNat ∧ c.toNat < 0xDC00) := by omega
      have htrailing : ¬ (0xDC00 ≤ c.toNat ∧ c.toNat < 0xE000) := by omega
      refine ⟨?_, by simpa using hstart, by simp⟩
      simp only [List.cons_append, List.nil_append, decodeChar?, if_true]
      rw [codeUnit?_control hcontrol, Option.bind_some]
      unfold codePoint?
      rw [if_neg hleading, if_neg htrailing, Char.ofNat_toNat]
    · simp only [if_neg hcontrol]
      refine ⟨?_, by simpa using hquote, by simp⟩
      simp [decodeChar?, hbackslash, hcontrol]

theorem decodeChars_flatMap_escapeChar {chars rest : List Char} {fuel : ℕ}
    (hfuel : chars.length < fuel) :
    decodeChars fuel (chars.flatMap escapeChar ++ quote :: rest) = some (chars, rest) := by
  induction chars generalizing fuel with
  | nil =>
    cases fuel with
    | zero => omega
    | succ fuel => simp [decodeChars]
  | cons c chars ih =>
    cases fuel with
    | zero => omega
    | succ fuel =>
      have hlength : chars.length < fuel := by simpa using hfuel
      obtain ⟨hread, hnot, hpos⟩ := decodeChar?_escapeChar c
        (chars.flatMap escapeChar ++ quote :: rest)
      rw [List.flatMap_cons, List.append_assoc]
      cases hescaped : escapeChar c with
      | nil => rw [hescaped] at hpos; cases hpos
      | cons first others =>
        have hfirst : first ≠ quote := fun h => hnot (by rw [hescaped, h, List.head?_cons])
        rw [hescaped] at hread
        rw [List.cons_append] at hread ⊢
        rw [decodeChars, if_neg hfirst, hread, Option.bind_some]
        simp only [ih hlength, Option.map_some]

theorem length_le_flatMap_escapeChar (chars : List Char) :
    chars.length ≤ (chars.flatMap escapeChar).length := by
  induction chars with
  | nil => simp
  | cons c chars ih =>
    have hpos := (decodeChar?_escapeChar c []).2.2
    rw [List.flatMap_cons, List.length_cons, List.length_append]
    omega

theorem skipSpace_cons {c : Char} {rest : List Char} (hc : isSpace c = false) :
    skipSpace (c :: rest) = c :: rest := by
  rw [skipSpace, List.dropWhile_cons_of_neg (by simp [hc])]

/-- The text of a string is read back, whatever follows it. -/
theorem decodeChars_encodeChars (chars rest : List Char) :
    let text := chars.flatMap escapeChar ++ quote :: rest
    decodeChars text.length text = some (chars, rest) := by
  refine decodeChars_flatMap_escapeChar ?_
  have hlength := length_le_flatMap_escapeChar chars
  rw [List.length_append, List.length_cons]
  omega

theorem decodeElements_encodeElements {strings : List String} {rest : List Char} {fuel : ℕ}
    (hne : strings ≠ []) (hfuel : strings.length ≤ fuel) :
    decodeElements fuel (encodeElements strings ++ ']' :: rest) = some (strings, rest) := by
  have hquote : isSpace quote = false := by decide
  induction strings generalizing fuel with
  | nil => exact absurd rfl hne
  | cons s strings ih =>
    cases fuel with
    | zero => simp at hfuel
    | succ fuel =>
      have hlength : strings.length ≤ fuel := by simpa using hfuel
      cases strings with
      | nil =>
        have htext : encodeElements [s] ++ ']' :: rest =
            quote :: (s.toList.flatMap escapeChar ++ quote :: ']' :: rest) := by
          simp [encodeElements, encodeChars]
        rw [htext, decodeElements, skipSpace_cons hquote]
        simp only [if_true]
        rw [decodeChars_encodeChars, Option.bind_some]
        simp only [skipSpace_cons (c := ']') (by decide), String.ofList_toList]
        rfl
      | cons s' strings =>
        have htext : encodeElements (s :: s' :: strings) ++ ']' :: rest =
            quote :: (s.toList.flatMap escapeChar ++
              quote :: ',' :: (encodeElements (s' :: strings) ++ ']' :: rest)) := by
          simp [encodeElements, encodeChars]
        rw [htext, decodeElements, skipSpace_cons hquote]
        simp only [if_true]
        rw [decodeChars_encodeChars, Option.bind_some]
        simp only [skipSpace_cons (c := ',') (by decide), String.ofList_toList, if_true]
        rw [ih (List.cons_ne_nil _ _) hlength, Option.map_some]

theorem length_le_encodeElements (strings : List String) :
    strings.length ≤ (encodeElements strings).length := by
  induction strings with
  | nil => simp
  | cons s strings ih =>
    cases strings with
    | nil => simp [encodeElements, encodeChars]
    | cons s' strings =>
      have hcons : encodeElements (s :: s' :: strings) =
          encodeChars s.toList ++ ',' :: encodeElements (s' :: strings) := rfl
      rw [hcons]
      simp only [List.length_append, List.length_cons] at ih ⊢
      omega

/-- **The round trip.** -/
theorem decode_encode (strings : List String) : decode (encode strings) = some strings := by
  have hbracket : isSpace '[' = false := by decide
  have hend : skipSpace [] = [] := rfl
  rw [decode, encode, String.toList_ofList, skipSpace_cons hbracket]
  simp only [if_true]
  cases hstrings : strings with
  | nil =>
    simp only [encodeElements, List.nil_append, skipSpace_cons (c := ']') (by decide), if_true,
      hend]
  | cons s rest =>
    rw [← hstrings]
    have hne : strings ≠ [] := by
      rw [hstrings]
      exact List.cons_ne_nil _ _
    have hhead : ∃ text, encodeElements strings ++ [']'] = quote :: text := by
      rw [hstrings]
      cases rest with
      | nil => exact ⟨_, by rw [encodeElements, encodeChars, List.cons_append]⟩
      | cons s' rest =>
        exact ⟨_, by rw [encodeElements, encodeChars, List.cons_append, List.cons_append]; simp⟩
    obtain ⟨text, htext⟩ := hhead
    have hlength : strings.length ≤ (encodeElements strings ++ [']']).length := by
      have := length_le_encodeElements strings
      rw [List.length_append]
      omega
    have hdecoded : decodeElements (encodeElements strings ++ [']']).length
        (encodeElements strings ++ [']']) = some (strings, []) :=
      decodeElements_encodeElements hne hlength
    rw [htext] at hdecoded ⊢
    rw [skipSpace_cons (by decide)]
    simp only [if_neg (show quote ≠ ']' by decide)]
    rw [hdecoded, Option.bind_some]
    simp only [hend, if_true]

end JsonStrings
end Bitloops
