import Mathlib.Data.List.Basic
import Mathlib.Data.Nat.Notation

/-!
# Lossy decoding of UTF-8

`decode` reads bytes as UTF-8 and puts the replacement character in the place of every maximal
part of a sequence that is none.  It is a machine that goes over the bytes once and knows how many
bytes of the present character are owed.

* A line break is the byte `0x0A` and nothing else: `decode_append_newline` and
  `newline_not_mem_decode`.
* `decode_encode`: the bytes of a text are decoded to the text.
-/

namespace Bitloops
namespace Utf8Lossy

/-- Which bytes may follow the first byte of a character. -/
inductive Tail where
  | any
  | afterE0
  | afterED
  | afterF0
  | afterF4
  deriving DecidableEq, Repr

def Tail.low : Tail → ℕ
  | .any | .afterED | .afterF4 => 0x80
  | .afterE0 => 0xA0
  | .afterF0 => 0x90

def Tail.high : Tail → ℕ
  | .any | .afterE0 | .afterF0 => 0xBF
  | .afterED => 0x9F
  | .afterF4 => 0x8F

inductive State where
  /-- Between characters. -/
  | ground
  /-- So many bytes and one more are owed, and the bytes so far have the given value. -/
  | owed (more : ℕ) (tail : Tail) (value : ℕ)
  deriving DecidableEq, Repr

def replacement : Char := Char.ofNat 0xFFFD

/-- A byte between characters: what is written, and the state after it. -/
def first (b : ℕ) : List Char × State :=
  if b < 0x80 then ([Char.ofNat b], .ground)
  else if 0xC2 ≤ b ∧ b ≤ 0xDF then ([], .owed 0 .any (b - 0xC0))
  else if b = 0xE0 then ([], .owed 1 .afterE0 (b - 0xE0))
  else if b = 0xED then ([], .owed 1 .afterED (b - 0xE0))
  else if 0xE1 ≤ b ∧ b ≤ 0xEF then ([], .owed 1 .any (b - 0xE0))
  else if b = 0xF0 then ([], .owed 2 .afterF0 (b - 0xF0))
  else if b = 0xF4 then ([], .owed 2 .afterF4 (b - 0xF0))
  else if 0xF1 ≤ b ∧ b ≤ 0xF3 then ([], .owed 2 .any (b - 0xF0))
  else ([replacement], .ground)

/-- A byte that is owed: the value of the character so far, and how many more are owed. -/
def accept : ℕ → ℕ → List Char × State
  | 0, value => ([Char.ofNat value], .ground)
  | more + 1, value => ([], .owed more .any value)

/-- A byte in any state. -/
def next (s : State) (b : ℕ) : List Char × State :=
  match s with
  | .ground => first b
  | .owed more tail value =>
    if tail.low ≤ b ∧ b ≤ tail.high then accept more (value * 0x40 + (b - 0x80))
    else (replacement :: (first b).1, (first b).2)

/-- What is written when the bytes end. -/
def State.flush : State → List Char
  | .ground => []
  | .owed .. => [replacement]

def decodeFrom (s : State) : List UInt8 → List Char
  | [] => s.flush
  | b :: bytes => (next s b.toNat).1 ++ decodeFrom (next s b.toNat).2 bytes

/-- `String::from_utf8_lossy`. -/
def decode (bytes : List UInt8) : List Char := decodeFrom .ground bytes

/-! ## Line breaks -/

theorem Tail.le_low (tail : Tail) : 0x80 ≤ tail.low := by
  cases tail <;> decide

theorem Tail.high_le (tail : Tail) : tail.high ≤ 0xBF := by
  cases tail <;> decide

/-- A line break ends the present character. -/
theorem next_newline (s : State) : next s 0x0A = (s.flush ++ ['\n'], .ground) := by
  cases s with
  | ground => rfl
  | owed more tail value =>
    have hlow := tail.le_low
    have hnot : ¬ (tail.low ≤ 0x0A ∧ 0x0A ≤ tail.high) := by omega
    exact if_neg hnot

theorem decodeFrom_append_newline (s : State) (bytes rest : List UInt8) :
    decodeFrom s (bytes ++ 0x0A :: rest) = decodeFrom s bytes ++ '\n' :: decode rest := by
  induction bytes generalizing s with
  | nil =>
    show (next s 0x0A).1 ++ decodeFrom (next s 0x0A).2 rest = _
    rw [next_newline]
    simp [decodeFrom, decode]
  | cons b bytes ih =>
    rw [List.cons_append, decodeFrom, decodeFrom, ih, List.append_assoc]

theorem decode_append_newline (bytes rest : List UInt8) :
    decode (bytes ++ 0x0A :: rest) = decode bytes ++ '\n' :: decode rest :=
  decodeFrom_append_newline .ground bytes rest

/-- The characters that an owed byte completes lie beyond ASCII. -/
def State.Beyond : State → Prop
  | .ground => True
  | .owed 0 _ value => 2 ≤ value
  | .owed (_ + 1) .afterE0 _ => True
  | .owed (_ + 1) .afterF0 _ => True
  | .owed (_ + 1) _ value => 1 ≤ value

theorem ofNat_ne_newline {n : ℕ} (h : n ≠ 0x0A) : Char.ofNat n ≠ '\n' := by
  intro heq
  by_cases hvalid : n.isValidChar
  · rw [Char.ofNat, dif_pos hvalid] at heq
    exact h (congrArg Char.toNat heq)
  · rw [Char.ofNat, dif_neg hvalid] at heq
    exact absurd heq (by decide)

theorem first_spec {b : ℕ} (hb : b ≠ 0x0A) :
    '\n' ∉ (first b).1 ∧ (first b).2.Beyond := by
  have hreplacement : '\n' ∉ [replacement] := by decide
  unfold first
  split_ifs
  · exact ⟨fun h => ofNat_ne_newline hb (List.mem_singleton.mp h).symm, trivial⟩
  all_goals first
    | exact ⟨List.not_mem_nil, trivial⟩
    | exact ⟨hreplacement, trivial⟩
    | exact ⟨List.not_mem_nil, by simp only [State.Beyond]; omega⟩

theorem next_spec {s : State} {b : ℕ} (hs : s.Beyond) (hb : b ≠ 0x0A) :
    '\n' ∉ (next s b).1 ∧ (next s b).2.Beyond := by
  cases s with
  | ground => exact first_spec hb
  | owed more tail value =>
    have hlow := tail.le_low
    unfold next
    dsimp only
    split_ifs with hrange
    · cases more with
      | zero =>
        have hvalue : 2 ≤ value := hs
        refine ⟨fun h => ofNat_ne_newline ?_ (List.mem_singleton.mp h).symm, trivial⟩
        omega
      | succ more =>
        refine ⟨List.not_mem_nil, ?_⟩
        unfold accept
        have hvalue : 2 ≤ value * 0x40 + (b - 0x80) := by
          cases tail with
          | afterE0 | afterF0 => simp only [Tail.low] at hrange; omega
          | any | afterED | afterF4 =>
            have hpos : 1 ≤ value := hs
            omega
        cases more with
        | zero => exact hvalue
        | succ more => exact Nat.le_of_succ_le hvalue
    · obtain ⟨hmem, hbeyond⟩ := first_spec hb
      refine ⟨fun h => ?_, hbeyond⟩
      rcases List.mem_cons.mp h with heq | h
      · exact absurd heq (by decide)
      · exact hmem h

/-- No other byte is decoded to a line break. -/
theorem newline_not_mem_decodeFrom {s : State} {bytes : List UInt8} (hs : s.Beyond)
    (h : 0x0A ∉ bytes) : '\n' ∉ decodeFrom s bytes := by
  induction bytes generalizing s with
  | nil =>
    cases s with
    | ground => exact List.not_mem_nil
    | owed => exact (by decide : '\n' ∉ [replacement])
  | cons b bytes ih =>
    have hb : b.toNat ≠ 0x0A := fun heq =>
      h (List.mem_cons.mpr (.inl (UInt8.toNat_inj.mp heq).symm))
    obtain ⟨hmem, hbeyond⟩ := next_spec hs hb
    rw [decodeFrom, List.mem_append]
    rintro (hwritten | hrest)
    · exact hmem hwritten
    · exact ih hbeyond (fun hmem => h (List.mem_cons_of_mem _ hmem)) hrest

theorem newline_not_mem_decode {bytes : List UInt8} (h : 0x0A ∉ bytes) : '\n' ∉ decode bytes :=
  newline_not_mem_decodeFrom trivial h

/-! ## Nothing is lost -/

theorem first_ne_nil (b : ℕ) : (first b).1 ≠ [] ∨ ∃ more tail value,
    (first b).2 = .owed more tail value := by
  unfold first
  split_ifs <;> first
    | exact .inl (List.cons_ne_nil _ _)
    | exact .inr ⟨_, _, _, rfl⟩

theorem decodeFrom_owed_ne_nil (bytes : List UInt8) : ∀ more tail value,
    decodeFrom (.owed more tail value) bytes ≠ [] := by
  induction bytes with
  | nil => exact fun _ _ _ => List.cons_ne_nil _ _
  | cons b bytes ih =>
    intro more tail value
    rw [decodeFrom]
    unfold next
    dsimp only
    split_ifs
    · cases more with
      | zero => exact List.cons_ne_nil _ _
      | succ more => exact ih _ _ _
    · exact List.cons_ne_nil _ _

theorem decode_ne_nil {bytes : List UInt8} (h : bytes ≠ []) : decode bytes ≠ [] := by
  cases bytes with
  | nil => exact absurd rfl h
  | cons b bytes =>
    show (first b.toNat).1 ++ decodeFrom (first b.toNat).2 bytes ≠ []
    rcases first_ne_nil b.toNat with hwritten | ⟨more, tail, value, howed⟩
    · exact List.append_ne_nil_of_left_ne_nil hwritten _
    · rw [howed]
      exact List.append_ne_nil_of_right_ne_nil _ (decodeFrom_owed_ne_nil _ _ _ _)

/-! ## Encoded texts -/

/-- The bytes of a text. -/
def encode (chars : List Char) : List UInt8 := chars.flatMap String.utf8EncodeChar

section Encoded

variable {tail : Tail} {m n more value : ℕ} {bytes : List UInt8}

theorem toNat_byte (h : n < 0x100) : (UInt8.ofNat n).toNat = n := UInt8.toNat_ofNat_of_lt' h

theorem decodeFrom_ground (h : n < 0x100) :
    decodeFrom .ground (UInt8.ofNat n :: bytes) =
      (first n).1 ++ decodeFrom (first n).2 bytes := by
  rw [decodeFrom, toNat_byte h]
  rfl

theorem decodeFrom_accept (h : tail.low ≤ n + 0x80 ∧ n + 0x80 ≤ tail.high) :
    decodeFrom (.owed more tail value) (UInt8.ofNat (n + 0x80) :: bytes) =
      (accept more (value * 0x40 + n)).1 ++
        decodeFrom (accept more (value * 0x40 + n)).2 bytes := by
  have hlt : n + 0x80 < 0x100 := by
    have := tail.high_le
    omega
  have hnext : next (.owed more tail value) (n + 0x80) = accept more (value * 0x40 + n) := by
    unfold next
    dsimp only
    rw [if_pos h, Nat.add_sub_cancel]
  rw [decodeFrom, toNat_byte hlt, hnext]

theorem decodeFrom_last (h : tail.low ≤ n + 0x80 ∧ n + 0x80 ≤ tail.high) :
    decodeFrom (.owed 0 tail value) (UInt8.ofNat (n + 0x80) :: bytes) =
      Char.ofNat (value * 0x40 + n) :: decode bytes :=
  decodeFrom_accept h

theorem decodeFrom_more (h : tail.low ≤ n + 0x80 ∧ n + 0x80 ≤ tail.high) :
    decodeFrom (.owed (more + 1) tail value) (UInt8.ofNat (n + 0x80) :: bytes) =
      decodeFrom (.owed more .any (value * 0x40 + n)) bytes :=
  decodeFrom_accept h

theorem mod_mem_any : Tail.any.low ≤ n % 0x40 + 0x80 ∧ n % 0x40 + 0x80 ≤ Tail.any.high := by
  simp only [Tail.low, Tail.high]
  omega

theorem first_two (hlow : 2 ≤ m) (hhigh : m < 0x20) :
    first (m + 0xC0) = ([], .owed 0 .any m) := by
  rw [first, if_neg (by omega), if_pos (by omega), Nat.add_sub_cancel]

/-- The second byte of three keeps the overlong forms and the surrogates out. -/
theorem first_three (hm : m < 0x10) (hn : n < 0x40) (hlow : m = 0 → 0x20 ≤ n)
    (hhigh : m = 0xD → n < 0x20) :
    ∃ tail : Tail, first (m + 0xE0) = ([], .owed 1 tail m) ∧
      tail.low ≤ n + 0x80 ∧ n + 0x80 ≤ tail.high := by
  rw [first, if_neg (by omega), if_neg (by omega), Nat.add_sub_cancel]
  by_cases hzero : m = 0
  · rw [if_pos (by omega)]
    exact ⟨.afterE0, rfl, by simp only [Tail.low]; omega, by simp only [Tail.high]; omega⟩
  rw [if_neg (by omega)]
  by_cases hsurrogate : m = 0xD
  · rw [if_pos (by omega)]
    exact ⟨.afterED, rfl, by simp only [Tail.low]; omega, by simp only [Tail.high]; omega⟩
  rw [if_neg (by omega), if_pos (by omega)]
  exact ⟨.any, rfl, by simp only [Tail.low]; omega, by simp only [Tail.high]; omega⟩

/-- The second byte of four keeps the overlong forms and what is no character out. -/
theorem first_four (hm : m ≤ 4) (hn : n < 0x40) (hlow : m = 0 → 0x10 ≤ n)
    (hhigh : m = 4 → n < 0x10) :
    ∃ tail : Tail, first (m + 0xF0) = ([], .owed 2 tail m) ∧
      tail.low ≤ n + 0x80 ∧ n + 0x80 ≤ tail.high := by
  rw [first, if_neg (by omega), if_neg (by omega), if_neg (by omega), if_neg (by omega),
    if_neg (by omega), Nat.add_sub_cancel]
  by_cases hzero : m = 0
  · rw [if_pos (by omega)]
    exact ⟨.afterF0, rfl, by simp only [Tail.low]; omega, by simp only [Tail.high]; omega⟩
  rw [if_neg (by omega)]
  by_cases hlast : m = 4
  · rw [if_pos (by omega)]
    exact ⟨.afterF4, rfl, by simp only [Tail.low]; omega, by simp only [Tail.high]; omega⟩
  rw [if_neg (by omega), if_pos (by omega)]
  exact ⟨.any, rfl, by simp only [Tail.low]; omega, by simp only [Tail.high]; omega⟩

end Encoded

theorem decode_utf8EncodeChar (c : Char) (bytes : List UInt8) :
    decode (String.utf8EncodeChar c ++ bytes) = c :: decode bytes := by
  have hvalid : c.toNat < 0xD800 ∨ 0xDFFF < c.toNat ∧ c.toNat < 0x110000 := c.valid
  have hchar : Char.ofNat c.toNat = c := Char.ofNat_toNat c
  have hval : c.val.toNat = c.toNat := rfl
  unfold String.utf8EncodeChar
  change decode ((if c.toNat ≤ 0x7f then _ else _) ++ bytes) = _
  split_ifs with hone htwo hthree
  · have hfirst : first c.toNat = ([Char.ofNat c.toNat], .ground) := if_pos (by omega)
    show decodeFrom .ground (UInt8.ofNat c.toNat :: bytes) = _
    rw [decodeFrom_ground (by omega), hfirst, hchar]
    rfl
  · have hm : c.toNat / 64 % 0x20 = c.toNat / 64 := Nat.mod_eq_of_lt (by omega)
    have hvalue : c.toNat / 64 * 0x40 + c.toNat % 0x40 = c.toNat := by omega
    show decodeFrom .ground (UInt8.ofNat (c.toNat / 64 % 0x20 + 0xC0) ::
      UInt8.ofNat (c.toNat % 0x40 + 0x80) :: bytes) = _
    rw [hm, decodeFrom_ground (by omega), first_two (by omega) (by omega), List.nil_append,
      decodeFrom_last mod_mem_any, hvalue, hchar]
  · have hm : c.toNat / 4096 % 0x10 = c.toNat / 4096 := Nat.mod_eq_of_lt (by omega)
    have hvalue : (c.toNat / 4096 * 0x40 + c.toNat / 64 % 0x40) * 0x40 + c.toNat % 0x40 =
        c.toNat := by omega
    obtain ⟨tail, hfirst, hrange⟩ := first_three (m := c.toNat / 4096)
      (n := c.toNat / 64 % 0x40) (by omega) (by omega) (by omega) (by omega)
    show decodeFrom .ground (UInt8.ofNat (c.toNat / 4096 % 0x10 + 0xE0) ::
      UInt8.ofNat (c.toNat / 64 % 0x40 + 0x80) :: UInt8.ofNat (c.toNat % 0x40 + 0x80) ::
        bytes) = _
    rw [hm, decodeFrom_ground (by omega), hfirst, List.nil_append, decodeFrom_more hrange,
      decodeFrom_last mod_mem_any, hvalue, hchar]
  · have hm : c.toNat / 262144 % 0x08 = c.toNat / 262144 := Nat.mod_eq_of_lt (by omega)
    have hvalue : ((c.toNat / 262144 * 0x40 + c.toNat / 4096 % 0x40) * 0x40 +
        c.toNat / 64 % 0x40) * 0x40 + c.toNat % 0x40 = c.toNat := by omega
    obtain ⟨tail, hfirst, hrange⟩ := first_four (m := c.toNat / 262144)
      (n := c.toNat / 4096 % 0x40) (by omega) (by omega) (by omega) (by omega)
    show decodeFrom .ground (UInt8.ofNat (c.toNat / 262144 % 0x08 + 0xF0) ::
      UInt8.ofNat (c.toNat / 4096 % 0x40 + 0x80) :: UInt8.ofNat (c.toNat / 64 % 0x40 + 0x80) ::
        UInt8.ofNat (c.toNat % 0x40 + 0x80) :: bytes) = _
    rw [hm, decodeFrom_ground (by omega), hfirst, List.nil_append, decodeFrom_more hrange,
      decodeFrom_more mod_mem_any, decodeFrom_last mod_mem_any, hvalue, hchar]

theorem decode_encode (chars : List Char) : decode (encode chars) = chars := by
  induction chars with
  | nil => rfl
  | cons c chars ih =>
    rw [encode, List.flatMap_cons, decode_utf8EncodeChar]
    exact congrArg (c :: ·) ih

/-- The text of bytes that are the bytes of a text. -/
def fromUtf8 (bytes : List UInt8) : Option (List Char) :=
  if encode (decode bytes) = bytes then some (decode bytes) else none

theorem fromUtf8_encode (chars : List Char) : fromUtf8 (encode chars) = some chars := by
  rw [fromUtf8, decode_encode, if_pos rfl]

end Utf8Lossy
end Bitloops
