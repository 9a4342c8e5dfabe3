import Mathlib.Data.List.Basic
import Bitloops.Foundation.JsonStrings

/-!
# Tokens and values of GraphQL texts

A lexer reads one character after the other and emits a token when it is complete, so that lexing
a text that is made of pieces is lexing the pieces one after the other.  `IsLiteral` says of a text
that it is one value without variables, complete in itself: a delimiter after it ends it.
-/

namespace Bitloops
namespace GraphqlLexer

/-! ## Tokens -/

inductive Token where
  | punctuator (c : Char)
  | spread
  | name (text : List Char)
  | number
  | string
  deriving DecidableEq, Repr

/-- White space, line terminators, commas and the byte order mark. -/
def ignoredChars : List Char := [' ', '\t', '\n', '\r', ',', Char.ofNat 0xFEFF]

def punctuatorChars : List Char :=
  ['!', '$', '&', '(', ')', ':', '=', '@', '[', ']', '\x7b', '|', '\x7d']

def isNameStart (c : Char) : Bool := c.isAlpha || c = '_'

def isNameContinue (c : Char) : Bool := isNameStart c || c.isDigit

/-! ## The lexer -/

/-- Where a number is. -/
inductive NumberPhase where
  | minus
  | zero
  | digits
  | point
  | fraction
  | exponent
  | sign
  | power
  deriving DecidableEq, Repr

namespace NumberPhase

def isFinal : NumberPhase → Bool
  | zero => true
  | digits => true
  | fraction => true
  | power => true
  | _ => false

def isExponentMark (c : Char) : Bool := c = 'e' || c = 'E'

def next (phase : NumberPhase) (c : Char) : Option NumberPhase :=
  match phase with
  | minus => if c = '0' then some zero else if c.isDigit then some digits else none
  | zero => if c = '.' then some point else if isExponentMark c then some exponent else none
  | digits =>
    if c.isDigit then some digits
    else if c = '.' then some point
    else if isExponentMark c then some exponent
    else none
  | point => if c.isDigit then some fraction else none
  | fraction =>
    if c.isDigit then some fraction else if isExponentMark c then some exponent else none
  | exponent =>
    if c = '+' || c = '-' then some sign else if c.isDigit then some power else none
  | sign => if c.isDigit then some power else none
  | power => if c.isDigit then some power else none

end NumberPhase

inductive State where
  | start
  | comment
  | dot
  | dots
  | name (text : List Char)
  | number (phase : NumberPhase)
  | openQuote
  | twoQuotes
  | chars
  | escape
  | unicode (left : ℕ)
  | block (quotes : ℕ) (escaped : Bool)
  deriving DecidableEq, Repr

namespace State

/-- The tokens that a delimiter completes. -/
def pending : State → Option (List Token)
  | start => some []
  | name text => some [.name text]
  | number phase => if phase.isFinal then some [.number] else none
  | twoQuotes => some [.string]
  | _ => none

/-- The tokens that the end of the text completes. -/
def finish (s : State) : Option (List Token) := if s = comment then some [] else s.pending

/-- A character between two tokens. -/
def startStep (c : Char) : Option (List Token × State) :=
  if c ∈ ignoredChars then some ([], start)
  else if c ∈ punctuatorChars then some ([.punctuator c], start)
  else if c = '#' then some ([], comment)
  else if c = '.' then some ([], dot)
  else if isNameStart c then some ([], name [c])
  else if c = '-' then some ([], number .minus)
  else if c = '0' then some ([], number .zero)
  else if c.isDigit then some ([], number .digits)
  else if c = JsonStrings.quote then some ([], openQuote)
  else none

def emit (tokens : List Token) (step : Option (List Token × State)) :
    Option (List Token × State) :=
  step.map fun r => (tokens ++ r.1, r.2)

/-- A character of a string. -/
def charStep (c : Char) : Option (List Token × State) :=
  if c = JsonStrings.backslash then some ([], escape)
  else if c.toNat < 0x20 ∧ c ≠ '\t' then none
  else some ([], chars)

def escapeLetters : List Char :=
  [JsonStrings.quote, JsonStrings.backslash, '/', 'b', 'f', 'n', 'r', 't']

/-- Three quotes end a block string unless they are escaped together. -/
def blockStep (quotes : ℕ) (escaped : Bool) (c : Char) : Option (List Token × State) :=
  if c = JsonStrings.quote then
    if quotes = 2 then (if escaped then some ([], block 0 false) else some ([.string], start))
    else some ([], block (quotes + 1) escaped)
  else if c = JsonStrings.backslash then some ([], block 0 true)
  else if c.toNat < 0x20 ∧ c ≠ '\t' ∧ c ≠ '\n' ∧ c ≠ '\r' then none
  else some ([], block 0 false)

def step (s : State) (c : Char) : Option (List Token × State) :=
  match s with
  | start => startStep c
  | comment => if c = '\n' || c = '\r' then some ([], start) else some ([], comment)
  | dot => if c = '.' then some ([], dots) else none
  | dots => if c = '.' then some ([.spread], start) else none
  | name text =>
    if isNameContinue c then some ([], name (text ++ [c])) else emit [.name text] (startStep c)
  | number phase =>
    match phase.next c with
    | some phase => some ([], number phase)
    | none =>
      if phase.isFinal && !isNameContinue c && !decide (c = '.') then
        emit [.number] (startStep c)
      else none
  | openQuote => if c = JsonStrings.quote then some ([], twoQuotes) else charStep c
  | twoQuotes =>
    if c = JsonStrings.quote then some ([], block 0 false) else emit [.string] (startStep c)
  | chars => if c = JsonStrings.quote then some ([.string], start) else charStep c
  | escape =>
    if c = 'u' then some ([], unicode 4)
    else if c ∈ escapeLetters then some ([], chars)
    else none
  | unicode left =>
    if (JsonStrings.hexValue? c).isSome then
      if left ≤ 1 then some ([], chars) else some ([], unicode (left - 1))
    else none
  | block quotes escaped => blockStep quotes escaped c

def run : State → List Char → Option (List Token × State)
  | s, [] => some ([], s)
  | s, c :: rest => (step s c).bind fun r => emit r.1 (run r.2 rest)

end State

open State

/-- The tokens of a text. -/
def lex (text : List Char) : Option (List Token) :=
  (run start text).bind fun r => r.2.finish.map (r.1 ++ ·)

/-- The tokens of a text that a delimiter may follow. -/
def Lexes (text : List Char) (tokens : List Token) : Prop :=
  ∃ emitted s rest, run start text = some (emitted, s) ∧ s.pending = some rest ∧
    tokens = emitted ++ rest

/-- The text is complete: another token may follow without a delimiter. -/
def Complete (text : List Char) (tokens : List Token) : Prop :=
  run start text = some (tokens, start)

/-! ## Values -/

def bracketed (left right : Char) (tokens : List Token) : List Token :=
  .punctuator left :: (tokens ++ [.punctuator right])

/-- The tokens of one value. -/
inductive IsValue : List Token → Prop where
  | name (text : List Char) : IsValue [.name text]
  | number : IsValue [.number]
  | string : IsValue [.string]
  | list (items : List (List Token)) (h : ∀ item ∈ items, IsValue item) :
    IsValue (bracketed '[' ']' items.flatten)
  | object (fields : List (List Char × List Token)) (h : ∀ f ∈ fields, IsValue f.2) :
    IsValue
      (bracketed '\x7b' '\x7d'
        (fields.flatMap fun f => .name f.1 :: .punctuator ':' :: f.2))

def IsLiteral (text : List Char) : Prop := ∃ tokens, Lexes text tokens ∧ IsValue tokens

def IsName : List Char → Prop
  | [] => False
  | c :: rest => isNameStart c = true ∧ ∀ d ∈ rest, isNameContinue d = true

instance : ∀ text : List Char, Decidable (IsName text)
  | [] => isFalse id
  | c :: rest => decidable_of_iff (isNameStart c = true ∧ rest.all isNameContinue = true)
      (and_congr_right fun _ => List.all_eq_true)

/-! ## Pieces of a text -/

theorem emit_nil (r : Option (List Token × State)) : emit [] r = r := by
  cases r <;> rfl

theorem emit_emit (a b : List Token) (r : Option (List Token × State)) :
    emit a (emit b r) = emit (a ++ b) r := by
  cases r with
  | none => rfl
  | some r => simp [emit]

theorem run_append (s : State) (a b : List Char) :
    run s (a ++ b) = (run s a).bind fun r => emit r.1 (run r.2 b) := by
  induction a generalizing s with
  | nil => exact (emit_nil _).symm
  | cons c a ih =>
    rw [List.cons_append, run, run]
    cases hstep : step s c with
    | none => rfl
    | some r =>
      rw [Option.bind_some, Option.bind_some, ih]
      cases hrun : run r.2 a with
      | none => rfl
      | some r' => rw [Option.bind_some, emit_emit]; rfl

theorem Complete.lexes {text : List Char} {tokens : List Token} (h : Complete text tokens) :
    Lexes text tokens :=
  ⟨tokens, start, [], h, rfl, (List.append_nil _).symm⟩

/-- The end of the text completes what a delimiter completes. -/
theorem Lexes.lex_eq {text : List Char} {tokens : List Token} (h : Lexes text tokens) :
    lex text = some tokens := by
  obtain ⟨emitted, s, rest, hrun, hpending, rfl⟩ := h
  have hfinish : s.finish = some rest := by
    rw [finish, if_neg, hpending]
    rintro rfl
    exact nomatch hpending
  rw [lex, hrun, Option.bind_some, hfinish, Option.map_some]

theorem complete_nil : Complete [] [] := rfl

theorem Complete.append {a b : List Char} {s t : List Token} (ha : Complete a s)
    (hb : Complete b t) : Complete (a ++ b) (s ++ t) := by
  rw [Complete, run_append, ha, Option.bind_some]
  show emit s (run start b) = _
  rw [hb]
  rfl

theorem Complete.lexes_append {a b : List Char} {s t : List Token} (ha : Complete a s)
    (hb : Lexes b t) : Lexes (a ++ b) (s ++ t) := by
  obtain ⟨emitted, state, rest, hrun, hpending, rfl⟩ := hb
  refine ⟨s ++ emitted, state, rest, ?_, hpending, by rw [List.append_assoc]⟩
  rw [run_append, ha, Option.bind_some]
  show emit s (run start b) = _
  rw [hrun]
  rfl

/-- The characters that end whatever token stands before them. -/
def delimiters : List Char := ignoredChars ++ punctuatorChars

def delimiterTokens (d : Char) : List Token := if d ∈ ignoredChars then [] else [.punctuator d]

theorem startStep_delimiter {d : Char} (hd : d ∈ delimiters) :
    startStep d = some (delimiterTokens d, start) := by
  obtain hd | hd := List.mem_append.1 hd
  · rw [startStep, if_pos hd, delimiterTokens, if_pos hd]
  · rw [startStep, delimiterTokens]
    by_cases hi : d ∈ ignoredChars
    · rw [if_pos hi, if_pos hi]
    · rw [if_neg hi, if_pos hd, if_neg hi]

theorem not_isNameContinue_of_delimiter {d : Char} (hd : d ∈ delimiters) :
    isNameContinue d = false := by
  have hall : (delimiters.all fun d => isNameContinue d == false) = true := by decide
  exact eq_of_beq (List.all_eq_true.1 hall d hd)

theorem ne_of_delimiter {d : Char} (hd : d ∈ delimiters) :
    d ≠ '.' ∧ d ≠ JsonStrings.quote := by
  have hall : (delimiters.all fun d => decide (d ≠ '.' ∧ d ≠ JsonStrings.quote)) = true := by decide
  exact of_decide_eq_true (List.all_eq_true.1 hall d hd)

theorem next_delimiter {d : Char} (hd : d ∈ delimiters) (phase : NumberPhase) :
    phase.next d = none := by
  have hall : (delimiters.all fun d => phase.next d == none) = true := by
    cases phase <;> decide
  exact eq_of_beq (List.all_eq_true.1 hall d hd)

theorem step_delimiter {s : State} {rest : List Token} {d : Char} (hd : d ∈ delimiters)
    (hs : s.pending = some rest) : step s d = some (rest ++ delimiterTokens d, start) := by
  have hstart := startStep_delimiter hd
  obtain ⟨hdot, hquote⟩ := ne_of_delimiter hd
  have hname := not_isNameContinue_of_delimiter hd
  cases s with
  | start =>
    obtain rfl := Option.some.inj hs
    exact hstart
  | name text =>
    obtain rfl := Option.some.inj hs
    rw [step, if_neg (by simp [hname]), hstart]
    rfl
  | number phase =>
    rw [pending] at hs
    split at hs
    · rename_i hfinal
      obtain rfl := Option.some.inj hs
      rw [step, next_delimiter hd]
      simp only [hfinal, hname, hdot, Bool.not_false, decide_false, Bool.and_self, if_true, hstart]
      rfl
    · exact nomatch hs
  | twoQuotes =>
    obtain rfl := Option.some.inj hs
    rw [step, if_neg hquote, hstart]
    rfl
  | _ => exact nomatch hs

theorem Lexes.complete {text : List Char} {tokens : List Token} (h : Lexes text tokens) {d : Char}
    (hd : d ∈ delimiters) : Complete (text ++ [d]) (tokens ++ delimiterTokens d) := by
  obtain ⟨emitted, s, rest, hrun, hpending, rfl⟩ := h
  rw [Complete, run_append, hrun, Option.bind_some]
  show emit emitted (run s [d]) = _
  rw [run, step_delimiter hd hpending]
  simp [emit, run]

theorem Lexes.cons_append {a b : List Char} {s t : List Token} (ha : Lexes a s) {d : Char}
    (hd : d ∈ delimiters) (hb : Lexes b t) : Lexes (a ++ d :: b) (s ++ delimiterTokens d ++ t) := by
  have h := (ha.complete hd).lexes_append hb
  rwa [List.append_assoc, List.singleton_append] at h

theorem complete_delimiter {d : Char} (hd : d ∈ delimiters) :
    Complete [d] (delimiterTokens d) := by
  rw [Complete, run]
  show (startStep d).bind _ = _
  rw [startStep_delimiter hd]
  simp [emit, run]

/-! ## Names -/

theorem run_name {rest : List Char} (h : ∀ d ∈ rest, isNameContinue d = true)
    (text : List Char) : run (.name text) rest = some ([], .name (text ++ rest)) := by
  induction rest generalizing text with
  | nil => rw [run, List.append_nil]
  | cons d rest ih =>
    rw [run, step, if_pos (h d List.mem_cons_self), Option.bind_some, emit_nil,
      ih (fun d hd => h d (List.mem_cons_of_mem _ hd)), List.append_assoc, List.singleton_append]

theorem not_delimiter_of_isNameStart {c : Char} (h : isNameStart c = true) :
    c ∉ ignoredChars ∧ c ∉ punctuatorChars ∧ c ≠ '#' ∧ c ≠ '.' := by
  refine ⟨fun hc => ?_, fun hc => ?_, ?_, ?_⟩
  · have hcontinue := not_isNameContinue_of_delimiter (List.mem_append_left _ hc)
    rw [isNameContinue, h] at hcontinue
    exact nomatch hcontinue
  · have hcontinue := not_isNameContinue_of_delimiter (List.mem_append_right _ hc)
    rw [isNameContinue, h] at hcontinue
    exact nomatch hcontinue
  · rintro rfl
    exact nomatch h
  · rintro rfl
    exact nomatch h

theorem lexes_name {text : List Char} (h : IsName text) : Lexes text [.name text] := by
  cases text with
  | nil => exact h.elim
  | cons c rest =>
    obtain ⟨hstart, hrest⟩ := h
    obtain ⟨hi, hp, hc, hd⟩ := not_delimiter_of_isNameStart hstart
    refine ⟨[], .name (c :: rest), [.name (c :: rest)], ?_, rfl, rfl⟩
    have hstep : step start c = some ([], .name [c]) := by
      show startStep c = _
      rw [startStep, if_neg hi, if_neg hp, if_neg hc, if_neg hd, if_pos hstart]
    rw [run, hstep, Option.bind_some, emit_nil, run_name hrest, List.singleton_append]

/-! ## Numbers -/

/-- Digits keep a phase that digits may follow. -/
theorem run_digits {phase : NumberPhase} {rest : List Char}
    (hphase : ∀ d : Char, d.isDigit = true → phase.next d = some phase)
    (h : ∀ d ∈ rest, d.isDigit = true) : run (.number phase) rest = some ([], .number phase) := by
  induction rest with
  | nil => rfl
  | cons d rest ih =>
    rw [run, step, hphase d (h d List.mem_cons_self)]
    show emit [] (run (.number phase) rest) = _
    rw [emit_nil, ih fun d hd => h d (List.mem_cons_of_mem _ hd)]

theorem digits_next (d : Char) (h : d.isDigit = true) :
    NumberPhase.digits.next d = some .digits := by
  rw [NumberPhase.next, if_pos h]

theorem fraction_next (d : Char) (h : d.isDigit = true) :
    NumberPhase.fraction.next d = some .fraction := by
  rw [NumberPhase.next, if_pos h]

def digitChars : List Char := ['0', '1', '2', '3', '4', '5', '6', '7', '8', '9']

theorem mem_digitChars {d : Char} (h : d.isDigit = true) : d ∈ digitChars := by
  obtain ⟨hle, hge⟩ : 48 ≤ d.toNat ∧ d.toNat ≤ 57 := by
    simpa [Char.isDigit, UInt32.le_iff_toNat_le] using h
  have hall : ∀ n < 10, Char.ofNat (48 + n) ∈ digitChars := by decide
  have hd := hall (d.toNat - 48) (by omega)
  rwa [Nat.add_sub_cancel' hle, Char.ofNat_toNat] at hd

/-- A digit between two tokens, or after a minus. -/
theorem step_digit {s : State} (hs : s = start ∨ s = .number .minus) {d : Char}
    (h : d.isDigit = true) :
    step s d = some ([], .number (if d = '0' then .zero else .digits)) := by
  have hmem := mem_digitChars h
  have hall : (digitChars.all fun d =>
      step s d == some ([], .number (if d = '0' then .zero else .digits))) = true := by
    obtain rfl | rfl := hs <;> decide
  exact eq_of_beq (List.all_eq_true.1 hall d hmem)

theorem digitChar_ne_zero : ∀ n < 10, 0 < n → n.digitChar ≠ '0' := by decide

/-- The decimal digits of a number that is not zero. -/
theorem toDigits_eq_cons {n : ℕ} (hpos : 0 < n) :
    ∃ c rest, Nat.toDigits 10 n = c :: rest ∧ c ≠ '0' := by
  induction n using Nat.strongRecOn with
  | ind n ih =>
    rw [Nat.toDigits_eq_if (by omega)]
    by_cases hlt : n < 10
    · rw [if_pos hlt]
      exact ⟨_, [], rfl, digitChar_ne_zero n hlt hpos⟩
    · rw [if_neg hlt]
      obtain ⟨c, rest, hdigits, hc⟩ := ih (n / 10) (by omega) (by omega)
      exact ⟨c, rest ++ [(n % 10).digitChar], by rw [hdigits]; rfl, hc⟩

/-- The digits of a natural number, between two tokens or after a minus. -/
theorem run_toDigits {s : State} (hs : s = start ∨ s = .number .minus) (n : ℕ) :
    ∃ phase, (phase = .zero ∨ phase = .digits) ∧
      run s (Nat.toDigits 10 n) = some ([], .number phase) := by
  have hdigit : ∀ d ∈ Nat.toDigits 10 n, d.isDigit = true := fun d hd =>
    Nat.isDigit_of_mem_toDigits (by omega) (by omega) hd
  by_cases hpos : 0 < n
  · obtain ⟨c, rest, hdigits, hc⟩ := toDigits_eq_cons hpos
    rw [hdigits] at hdigit ⊢
    refine ⟨.digits, .inr rfl, ?_⟩
    rw [run, step_digit hs (hdigit c List.mem_cons_self), if_neg hc, Option.bind_some, emit_nil,
      run_digits digits_next fun d hd => hdigit d (List.mem_cons_of_mem _ hd)]
  · obtain rfl : n = 0 := by omega
    refine ⟨.zero, .inl rfl, ?_⟩
    rw [Nat.toDigits_zero, run, step_digit hs rfl]
    rfl

/-- The decimal point and what stands after it, when there is something. -/
def fractionChars (fraction : List Char) : List Char :=
  if fraction = [] then [] else '.' :: fraction

theorem run_fractionChars {phase : NumberPhase} (hphase : phase = .zero ∨ phase = .digits)
    {fraction : List Char} (h : ∀ d ∈ fraction, d.isDigit = true) :
    ∃ phase', phase'.isFinal = true ∧
      run (.number phase) (fractionChars fraction) = some ([], .number phase') := by
  cases fraction with
  | nil =>
    refine ⟨phase, ?_, rfl⟩
    obtain rfl | rfl := hphase <;> rfl
  | cons d rest =>
    refine ⟨.fraction, rfl, ?_⟩
    have hpoint : step (.number phase) '.' = some ([], .number .point) := by
      obtain rfl | rfl := hphase <;> rfl
    have hfirst : step (.number .point) d = some ([], .number .fraction) := by
      have hnext : NumberPhase.point.next d = some .fraction := by
        rw [NumberPhase.next, if_pos (h d List.mem_cons_self)]
      rw [step, hnext]
    rw [fractionChars, if_neg (List.cons_ne_nil _ _), run, hpoint, Option.bind_some, emit_nil, run,
      hfirst, Option.bind_some, emit_nil,
      run_digits fraction_next fun d hd => h d (List.mem_cons_of_mem _ hd)]

def signChars (negative : Bool) : List Char := if negative then ['-'] else []

/-- A decimal number. -/
theorem lexes_decimal (negative : Bool) (n : ℕ) {fraction : List Char}
    (h : ∀ d ∈ fraction, d.isDigit = true) :
    Lexes (signChars negative ++ Nat.toDigits 10 n ++ fractionChars fraction) [.number] := by
  obtain ⟨s, hs, hsign⟩ : ∃ s, (s = start ∨ s = .number .minus) ∧
      run start (signChars negative) = some ([], s) := by
    cases negative with
    | false => exact ⟨start, .inl rfl, rfl⟩
    | true => exact ⟨.number .minus, .inr rfl, rfl⟩
  obtain ⟨phase, hphase, hdigits⟩ := run_toDigits hs n
  obtain ⟨phase', hfinal, hfraction⟩ := run_fractionChars hphase h
  refine ⟨[], .number phase', [.number], ?_, by rw [pending, if_pos hfinal], rfl⟩
  rw [run_append, run_append, hsign, Option.bind_some, emit_nil, hdigits, Option.bind_some,
    emit_nil, hfraction]

/-! ## Strings -/

theorem isSome_hexValue? :
    ∀ n < 16, (JsonStrings.hexValue? (JsonStrings.hexDigit n)).isSome = true := by decide

/-- Four hexadecimal digits after the letter of the escape. -/
theorem run_unicode {a b c d : Char} (ha : (JsonStrings.hexValue? a).isSome = true)
    (hb : (JsonStrings.hexValue? b).isSome = true) (hc : (JsonStrings.hexValue? c).isSome = true)
    (hd : (JsonStrings.hexValue? d).isSome = true) :
    run .escape ['u', a, b, c, d] = some ([], .chars) := by
  simp [run, step, emit, ha, hb, hc, hd]

/-- An escaped character, at the first place of a string or at a later one. -/
theorem run_escapeChar {s : State} (hs : s = .openQuote ∨ s = .chars) (c : Char) :
    run s (JsonStrings.escapeChar c) = some ([], .chars) := by
  have hescape : step s JsonStrings.backslash = some ([], .escape) := by
    obtain rfl | rfl := hs <;> rfl
  rw [JsonStrings.escapeChar]
  cases hshort : JsonStrings.shortEscape? c with
  | some letter =>
    have hletter : step .escape letter = some ([], .chars) := by
      unfold JsonStrings.shortEscape? at hshort
      split_ifs at hshort <;> rw [← Option.some.inj hshort] <;> rfl
    simp only
    rw [run, hescape, Option.bind_some, emit_nil, run, hletter]
    rfl
  | none =>
    by_cases hcontrol : c.toNat < 0x20
    · simp only [hcontrol, if_true]
      rw [run, hescape, Option.bind_some, emit_nil]
      exact run_unicode rfl rfl (isSome_hexValue? _ (by omega)) (isSome_hexValue? _ (by omega))
    · simp only [hcontrol, if_false]
      have hquote : c ≠ JsonStrings.quote := by
        rintro rfl
        exact nomatch hshort
      have hbackslash : c ≠ JsonStrings.backslash := by
        rintro rfl
        exact nomatch hshort
      have hchar : step s c = some ([], .chars) := by
        obtain rfl | rfl := hs
        · rw [step, if_neg hquote, charStep, if_neg hbackslash, if_neg fun h => hcontrol h.1]
        · rw [step, if_neg hquote, charStep, if_neg hbackslash, if_neg fun h => hcontrol h.1]
      rw [run, hchar]
      rfl

theorem run_escapeChars (chars : List Char) :
    run .chars (chars.flatMap JsonStrings.escapeChar) = some ([], .chars) := by
  induction chars with
  | nil => rfl
  | cons c rest ih =>
    rw [List.flatMap_cons, run_append, run_escapeChar (.inr rfl), Option.bind_some, emit_nil, ih]

/-- The JSON text of a string is one string token. -/
theorem lexes_encodeChars (chars : List Char) :
    Lexes (JsonStrings.encodeChars chars) [.string] := by
  have hopen : step start JsonStrings.quote = some ([], .openQuote) := rfl
  cases chars with
  | nil => exact ⟨[], .twoQuotes, [.string], rfl, rfl, rfl⟩
  | cons c rest =>
    refine ⟨[.string], start, [], ?_, rfl, rfl⟩
    rw [JsonStrings.encodeChars, run, hopen, Option.bind_some, emit_nil, List.flatMap_cons,
      List.append_assoc, run_append, run_escapeChar (.inl rfl), Option.bind_some, emit_nil,
      run_append, run_escapeChars, Option.bind_some, emit_nil]
    rfl

/-! ## Literals -/

theorem isLiteral_name {text : List Char} (h : IsName text) : IsLiteral text :=
  ⟨_, lexes_name h, .name text⟩

theorem isLiteral_decimal (negative : Bool) (n : ℕ) {fraction : List Char}
    (h : ∀ d ∈ fraction, d.isDigit = true) :
    IsLiteral (signChars negative ++ Nat.toDigits 10 n ++ fractionChars fraction) :=
  ⟨_, lexes_decimal negative n h, .number⟩

theorem isLiteral_integer (negative : Bool) (n : ℕ) :
    IsLiteral (signChars negative ++ Nat.toDigits 10 n) := by
  have h : IsLiteral (signChars negative ++ Nat.toDigits 10 n ++ fractionChars []) :=
    isLiteral_decimal negative n fun _ h => (nomatch h)
  rwa [fractionChars, if_pos rfl, List.append_nil] at h

theorem isLiteral_encodeChars (chars : List Char) : IsLiteral (JsonStrings.encodeChars chars) :=
  ⟨_, lexes_encodeChars chars, .string⟩

/-! ## Lists and objects -/

/-- Pieces with a separator that begins with an ignored character. -/
theorem lexes_intercalate {d : Char} {separator : List Char} (hd : d ∈ ignoredChars)
    (hseparator : Complete separator []) {pieces : List (List Char × List Token)}
    (h : ∀ p ∈ pieces, Lexes p.1 p.2) :
    Lexes ((d :: separator).intercalate (pieces.map (·.1))) (pieces.map (·.2)).flatten := by
  induction pieces with
  | nil => exact complete_nil.lexes
  | cons p rest ih =>
    cases rest with
    | nil =>
      rw [List.map_singleton, List.intercalate_singleton, List.map_singleton,
        List.flatten_singleton]
      exact h p List.mem_cons_self
    | cons q rest =>
      have hrest := ih fun p hp => h p (List.mem_cons_of_mem _ hp)
      have happend := (h p List.mem_cons_self).cons_append (List.mem_append_left _ hd)
        (hseparator.lexes_append hrest)
      rw [List.nil_append, delimiterTokens, if_pos hd, List.append_nil] at happend
      rw [List.map_cons, List.map_cons, List.intercalate_cons_cons, List.map_cons,
        List.flatten_cons]
      simpa using happend

/-- A text between two brackets. -/
theorem complete_bracketed {left right : Char} (hleft : left ∈ punctuatorChars)
    (hright : right ∈ punctuatorChars) {text : List Char} {tokens : List Token}
    (h : Lexes text tokens) :
    Complete (left :: (text ++ [right])) (bracketed left right tokens) := by
  have htokens {d : Char} (hd : d ∈ punctuatorChars) : delimiterTokens d = [.punctuator d] := by
    have hall : (punctuatorChars.all fun d => decide (d ∉ ignoredChars)) = true := by decide
    exact if_neg (of_decide_eq_true (List.all_eq_true.1 hall d hd))
  have happend := (complete_delimiter (List.mem_append_right _ hleft)).append
    (h.complete (List.mem_append_right _ hright))
  rwa [htokens hleft, htokens hright, List.singleton_append, List.singleton_append] at happend

/-- A name, a colon and a space before a text. -/
theorem lexes_labelled {name text : List Char} {tokens : List Token} (hname : IsName name)
    (h : Lexes text tokens) :
    Lexes (name ++ ':' :: ' ' :: text) (.name name :: .punctuator ':' :: tokens) := by
  have hspace : Complete [' '] [] := complete_delimiter (by decide)
  exact (lexes_name hname).cons_append (by decide) (hspace.lexes_append h)

theorem exists_pieces {α β : Type} {P : α → β → Prop} {xs : List α} (h : ∀ x ∈ xs, ∃ y, P x y) :
    ∃ pieces : List (α × β), pieces.map (·.1) = xs ∧ ∀ p ∈ pieces, P p.1 p.2 := by
  induction xs with
  | nil => exact ⟨[], rfl, fun _ h => (nomatch h)⟩
  | cons x xs ih =>
    obtain ⟨y, hy⟩ := h x List.mem_cons_self
    obtain ⟨pieces, hmap, hpieces⟩ := ih fun x hx => h x (List.mem_cons_of_mem _ hx)
    exact ⟨(x, y) :: pieces, by rw [List.map_cons, hmap], List.forall_mem_cons.2 ⟨hy, hpieces⟩⟩

theorem complete_space : Complete [' '] [] := complete_delimiter (by decide)

theorem isLiteral_list {items : List (List Char)} (h : ∀ item ∈ items, IsLiteral item) :
    IsLiteral ('[' :: ([',', ' '].intercalate items ++ [']'])) := by
  obtain ⟨pieces, rfl, hpieces⟩ := exists_pieces h
  refine ⟨_, (complete_bracketed (by decide) (by decide) (lexes_intercalate (by decide)
    complete_space fun p hp => (hpieces p hp).1)).lexes, .list _ fun item hitem => ?_⟩
  obtain ⟨p, hp, rfl⟩ := List.mem_map.1 hitem
  exact (hpieces p hp).2

/-- The text of a field of an input object. -/
def fieldText (field : List Char × List Char) : List Char := field.1 ++ ':' :: ' ' :: field.2

theorem isLiteral_object {fields : List (List Char × List Char)}
    (h : ∀ f ∈ fields, IsName f.1 ∧ IsLiteral f.2) :
    IsLiteral ('\x7b' :: (' ' :: ([',', ' '].intercalate (fields.map fieldText) ++ [' ']) ++
      ['\x7d'])) := by
  have hexists : ∀ f ∈ fields, ∃ tokens, IsName f.1 ∧ Lexes f.2 tokens ∧ IsValue tokens := by
    intro f hf
    obtain ⟨hname, tokens, hlexes, hvalue⟩ := h f hf
    exact ⟨tokens, hname, hlexes, hvalue⟩
  obtain ⟨pieces, rfl, hpieces⟩ := exists_pieces hexists
  have hinner : Lexes
      ([',', ' '].intercalate
        ((pieces.map fun p => (fieldText p.1, Token.name p.1.1 :: .punctuator ':' :: p.2)).map
          (·.1)))
      (((pieces.map fun p => (fieldText p.1, Token.name p.1.1 :: .punctuator ':' :: p.2)).map
          (·.2)).flatten) := by
    refine lexes_intercalate (by decide) complete_space fun q hq => ?_
    obtain ⟨p, hp, rfl⟩ := List.mem_map.1 hq
    exact lexes_labelled (hpieces p hp).1 (hpieces p hp).2.1
  have hspaced := complete_space.append (hinner.complete (d := ' ') (by decide))
  have hvalue : IsValue (bracketed '\x7b' '\x7d'
      ((pieces.map fun p => (p.1.1, p.2)).flatMap fun f => .name f.1 :: .punctuator ':' :: f.2)) :=
    .object _ fun f hf => by
      obtain ⟨p, hp, rfl⟩ := List.mem_map.1 hf
      exact (hpieces p hp).2.2
  refine ⟨_, ?_, hvalue⟩
  have hlexes := (complete_bracketed (show '\x7b' ∈ punctuatorChars by decide)
    (show '\x7d' ∈ punctuatorChars by decide) hspaced.lexes).lexes
  simpa [List.flatMap_def, Function.comp_def, delimiterTokens, ignoredChars] using hlexes

/-! ## The structure of fields -/

def openParen : Token := .punctuator '('
def closeParen : Token := .punctuator ')'

/-- The tokens without what stands between parentheses. -/
def dropArguments : ℕ → List Token → List Token
  | _, [] => []
  | depth, t :: rest =>
    if t = openParen then dropArguments (depth + 1) rest
    else if t = closeParen then dropArguments (depth - 1) rest
    else if depth = 0 then t :: dropArguments depth rest
    else dropArguments depth rest

/-- The names and brackets of the fields of a document. -/
def fieldStructure (text : List Char) : Option (List Token) := (lex text).map (dropArguments 0)

def NoParens (tokens : List Token) : Prop := openParen ∉ tokens ∧ closeParen ∉ tokens

theorem NoParens.append {a b : List Token} (ha : NoParens a) (hb : NoParens b) :
    NoParens (a ++ b) :=
  ⟨fun h => (List.mem_append.1 h).elim ha.1 hb.1, fun h => (List.mem_append.1 h).elim ha.2 hb.2⟩

theorem NoParens.cons {t : Token} {tokens : List Token} (ht : t ≠ openParen ∧ t ≠ closeParen)
    (h : NoParens tokens) : NoParens (t :: tokens) :=
  ⟨fun hmem => (List.mem_cons.1 hmem).elim (fun h => ht.1 h.symm) h.1,
    fun hmem => (List.mem_cons.1 hmem).elim (fun h => ht.2 h.symm) h.2⟩

theorem noParens_nil : NoParens [] := ⟨List.not_mem_nil, List.not_mem_nil⟩

theorem NoParens.flatten {lists : List (List Token)} (h : ∀ tokens ∈ lists, NoParens tokens) :
    NoParens lists.flatten := by
  refine ⟨fun hmem => ?_, fun hmem => ?_⟩
  · obtain ⟨tokens, htokens, hparen⟩ := List.mem_flatten.1 hmem
    exact (h tokens htokens).1 hparen
  · obtain ⟨tokens, htokens, hparen⟩ := List.mem_flatten.1 hmem
    exact (h tokens htokens).2 hparen

theorem NoParens.bracketed {left right : Char} {tokens : List Token}
    (hleft : Token.punctuator left ≠ openParen ∧ Token.punctuator left ≠ closeParen)
    (hright : Token.punctuator right ≠ openParen ∧ Token.punctuator right ≠ closeParen)
    (h : NoParens tokens) : NoParens (bracketed left right tokens) :=
  NoParens.cons hleft (h.append (noParens_nil.cons hright))

/-- A value has no parentheses. -/
theorem IsValue.noParens {tokens : List Token} (h : IsValue tokens) : NoParens tokens := by
  induction h with
  | name text => exact noParens_nil.cons (by simp [openParen, closeParen])
  | number => exact noParens_nil.cons (by decide)
  | string => exact noParens_nil.cons (by decide)
  | list items _ ih => exact NoParens.bracketed (by decide) (by decide) (NoParens.flatten ih)
  | object fields _ ih =>
    refine NoParens.bracketed (by decide) (by decide) ?_
    rw [List.flatMap_def]
    refine NoParens.flatten fun tokens htokens => ?_
    obtain ⟨f, hf, rfl⟩ := List.mem_map.1 htokens
    exact ((ih f hf).cons (by decide)).cons (by simp [openParen, closeParen])

/-- What has no parentheses stays. -/
theorem dropArguments_append {tokens : List Token} (h : NoParens tokens) (rest : List Token) :
    dropArguments 0 (tokens ++ rest) = tokens ++ dropArguments 0 rest := by
  induction tokens with
  | nil => rfl
  | cons t tokens ih =>
    have hopen : t ≠ openParen := fun ht => h.1 (ht ▸ List.mem_cons_self)
    have hclose : t ≠ closeParen := fun ht => h.2 (ht ▸ List.mem_cons_self)
    have hrest : NoParens tokens :=
      ⟨fun hmem => h.1 (List.mem_cons_of_mem _ hmem), fun hmem => h.2 (List.mem_cons_of_mem _ hmem)⟩
    rw [List.cons_append, dropArguments, if_neg hopen, if_neg hclose, if_pos rfl, ih hrest,
      List.cons_append]

/-- Between parentheses nothing stays. -/
theorem dropArguments_arguments {tokens : List Token} (h : NoParens tokens) (rest : List Token) :
    dropArguments 1 (tokens ++ closeParen :: rest) = dropArguments 0 rest := by
  induction tokens with
  | nil => rfl
  | cons t tokens ih =>
    have hopen : t ≠ openParen := fun ht => h.1 (ht ▸ List.mem_cons_self)
    have hclose : t ≠ closeParen := fun ht => h.2 (ht ▸ List.mem_cons_self)
    have hrest : NoParens tokens :=
      ⟨fun hmem => h.1 (List.mem_cons_of_mem _ hmem), fun hmem => h.2 (List.mem_cons_of_mem _ hmem)⟩
    rw [List.cons_append, dropArguments, if_neg hopen, if_neg hclose, if_neg (by decide), ih hrest]

end GraphqlLexer
end Bitloops
