import Bitloops.Checkpoints.Storage
import Mathlib

/-!
# Keys of roles

Roles are found under a key made of lower-case letters, digits and single underscores between
them.  A normalized key is its own normalized key, so a stored key can be looked up as it is.
-/

namespace Bitloops
namespace ArchitectureRoles

open Checkpoints

def normalizeRoleChar (c : Char) : Char :=
  if 'A' ≤ c ∧ c ≤ 'Z' then c.toLower
  else if ('a' ≤ c ∧ c ≤ 'z') ∨ ('0' ≤ c ∧ c ≤ '9') then c
  else '_'

/-- One pass of the loop; the flag is `previous_was_sep`. -/
def pushRoleChar (state : List Char × Bool) (c : Char) : List Char × Bool :=
  if normalizeRoleChar c = '_' then
    if state.2 || state.1.isEmpty then state else (state.1 ++ ['_'], true)
  else (state.1 ++ [normalizeRoleChar c], false)

/-- `trim_matches('_')`. -/
def trimUnderscores (text : List Char) : List Char :=
  ((text.dropWhile (· = '_')).reverse.dropWhile (· = '_')).reverse

def normalizeRoleKey (value : String) : String :=
  String.ofList (trimUnderscores ((trimText value).toList.foldl pushRoleChar ([], false)).1)

def normalizeRoleAlias (aliasKey : String) : String := normalizeRoleKey aliasKey

/-! ## Characters -/

/-- The characters of a normalized key: lower-case letters, digits and underscores. -/
def IsKeyChar (c : Char) : Prop :=
  (97 ≤ c.toNat ∧ c.toNat ≤ 122) ∨ (48 ≤ c.toNat ∧ c.toNat ≤ 57) ∨ c = '_'

theorem toNat_toLower {c : Char} (h : 'A' ≤ c ∧ c ≤ 'Z') : c.toLower.toNat = c.toNat + 32 := by
  have hval : c.val ≥ 'A'.val ∧ c.val ≤ 'Z'.val := h
  have hupper : c.val.toNat ≤ 90 := UInt32.le_iff_toNat_le.mp hval.2
  rw [Char.toLower, dif_pos hval]
  show (c.val + ('a'.val - 'A'.val)).toNat = c.val.toNat + 32
  rw [UInt32.toNat_add]
  have hstep : ('a'.val - 'A'.val).toNat = 32 := rfl
  omega

theorem isKeyChar_normalizeRoleChar (c : Char) : IsKeyChar (normalizeRoleChar c) := by
  unfold normalizeRoleChar
  by_cases hupper : 'A' ≤ c ∧ c ≤ 'Z'
  · rw [if_pos hupper]
    have hlow : 65 ≤ c.toNat := UInt32.le_iff_toNat_le.mp hupper.1
    have hhigh : c.toNat ≤ 90 := UInt32.le_iff_toNat_le.mp hupper.2
    refine .inl ?_
    rw [toNat_toLower hupper]
    omega
  · rw [if_neg hupper]
    by_cases hkept : ('a' ≤ c ∧ c ≤ 'z') ∨ ('0' ≤ c ∧ c ≤ '9')
    · rw [if_pos hkept]
      rcases hkept with ⟨hlow, hhigh⟩ | ⟨hlow, hhigh⟩
      · exact .inl ⟨UInt32.le_iff_toNat_le.mp hlow, UInt32.le_iff_toNat_le.mp hhigh⟩
      · exact .inr (.inl ⟨UInt32.le_iff_toNat_le.mp hlow, UInt32.le_iff_toNat_le.mp hhigh⟩)
    · rw [if_neg hkept]
      exact .inr (.inr rfl)

theorem IsKeyChar.normalizeRoleChar_eq {c : Char} (h : IsKeyChar c) : normalizeRoleChar c = c := by
  rcases h with h | h | rfl
  · have hupper : ¬ ('A' ≤ c ∧ c ≤ 'Z') := by
      rintro ⟨-, hhigh⟩
      have hhigh : c.toNat ≤ 90 := UInt32.le_iff_toNat_le.mp hhigh
      omega
    have hlower : 'a' ≤ c ∧ c ≤ 'z' :=
      ⟨UInt32.le_iff_toNat_le.mpr h.1, UInt32.le_iff_toNat_le.mpr h.2⟩
    rw [normalizeRoleChar, if_neg hupper, if_pos (.inl hlower)]
  · have hupper : ¬ ('A' ≤ c ∧ c ≤ 'Z') := by
      rintro ⟨hlow, -⟩
      have hlow : 65 ≤ c.toNat := UInt32.le_iff_toNat_le.mp hlow
      omega
    have hdigit : '0' ≤ c ∧ c ≤ '9' :=
      ⟨UInt32.le_iff_toNat_le.mpr h.1, UInt32.le_iff_toNat_le.mpr h.2⟩
    rw [normalizeRoleChar, if_neg hupper, if_pos (.inr hdigit)]
  · decide

theorem IsKeyChar.isWhitespace_eq {c : Char} (h : IsKeyChar c) :
    Daemon.isWhitespace c = false := by
  rcases h with h | h | rfl
  · simp only [Daemon.isWhitespace, Bool.or_eq_false_iff, Bool.and_eq_false_iff,
      decide_eq_false_iff_not]
    omega
  · simp only [Daemon.isWhitespace, Bool.or_eq_false_iff, Bool.and_eq_false_iff,
      decide_eq_false_iff_not]
    omega
  · decide

/-! ## Normalized keys -/

/-- What the loop has written: characters of keys, an underscore neither first nor after another
one. -/
structure KeyFront (text : List Char) : Prop where
  chars : ∀ c ∈ text, IsKeyChar c
  single : text.IsChain fun a b => ¬ (a = '_' ∧ b = '_')
  head : ∀ c ∈ text.head?, c ≠ '_'

/-- A normalized key has no underscore at its end either. -/
structure NormalKey (text : List Char) : Prop extends KeyFront text where
  last : ∀ c ∈ text.getLast?, c ≠ '_'

/-- What the loop keeps: the flag is set after an underscore. -/
structure LoopState (state : List Char × Bool) : Prop where
  front : KeyFront state.1
  flag : state.2 = true ↔ state.1.getLast? = some '_'

theorem LoopState.push {state : List Char × Bool} (h : LoopState state) (c : Char) :
    LoopState (pushRoleChar state c) := by
  obtain ⟨text, flag⟩ := state
  obtain ⟨⟨hchars, hsingle, hhead⟩, hflag⟩ := h
  dsimp only at hchars hsingle hhead hflag
  unfold pushRoleChar
  by_cases hc : normalizeRoleChar c = '_'
  · rw [if_pos hc]
    by_cases hskip : (flag || text.isEmpty) = true
    · rw [if_pos hskip]
      exact ⟨⟨hchars, hsingle, hhead⟩, hflag⟩
    · rw [if_neg hskip]
      obtain ⟨hflag', hempty⟩ : ¬ flag = true ∧ ¬ text = [] := by simpa using hskip
      refine ⟨⟨?_, ?_, ?_⟩, by simp⟩
      · intro d hd
        rcases List.mem_append.mp hd with hd | hd
        · exact hchars d hd
        · exact .inr (.inr (List.mem_singleton.mp hd))
      · refine List.isChain_append.mpr ⟨hsingle, List.isChain_singleton _, ?_⟩
        rintro a ha b - ⟨rfl, -⟩
        exact hflag' (hflag.mpr ha)
      · cases text with
        | nil => exact absurd rfl hempty
        | cons first rest => exact hhead
  · rw [if_neg hc]
    refine ⟨⟨?_, ?_, ?_⟩, by simpa using hc⟩
    · intro d hd
      rcases List.mem_append.mp hd with hd | hd
      · exact hchars d hd
      · exact List.mem_singleton.mp hd ▸ isKeyChar_normalizeRoleChar c
    · refine List.isChain_append.mpr ⟨hsingle, List.isChain_singleton _, ?_⟩
      rintro a - b hb ⟨-, rfl⟩
      exact hc (Option.some.inj hb)
    · cases text with
      | nil =>
        intro d hd
        exact Option.some.inj hd ▸ hc
      | cons first rest => exact hhead

theorem loopState_foldl (text : List Char) {state : List Char × Bool} (h : LoopState state) :
    LoopState (text.foldl pushRoleChar state) := by
  induction text generalizing state with
  | nil => exact h
  | cons c rest ih => exact ih (h.push c)

/-- Nothing is trimmed from the front of what the loop has written. -/
theorem KeyFront.normalKey_trimUnderscores {text : List Char} (h : KeyFront text) :
    NormalKey (trimUnderscores text) := by
  have hfront : text.dropWhile (· = '_') = text := by
    cases text with
    | nil => rfl
    | cons c rest =>
      have hc : c ≠ '_' := h.head c rfl
      rw [List.dropWhile_cons, if_neg (by simpa using hc)]
  obtain ⟨back, hback⟩ := List.dropWhile_suffix (l := text.reverse) (fun c => decide (c = '_'))
  have hsplit : text = trimUnderscores text ++ back.reverse := by
    rw [trimUnderscores, hfront, ← List.reverse_append, hback, List.reverse_reverse]
  refine ⟨⟨fun c hc => h.chars c ?_, ?_, fun c hc => h.head c ?_⟩, ?_⟩
  · rw [hsplit]
    exact List.mem_append_left _ hc
  · have hsingle := h.single
    rw [hsplit] at hsingle
    exact (List.isChain_append.mp hsingle).1
  · rw [hsplit, List.head?_append, hc, Option.some_or]
    rfl
  · intro c hc
    rw [trimUnderscores, hfront, List.getLast?_reverse] at hc
    have hkept := List.head?_dropWhile_not (fun c => decide (c = '_')) text.reverse
    rw [hc] at hkept
    simpa using hkept

theorem normalKey_normalizeRoleKey (value : String) : NormalKey (normalizeRoleKey value).toList := by
  have hstart : LoopState ([], false) :=
    ⟨⟨fun c hc => absurd hc List.not_mem_nil, List.isChain_nil, fun c hc => nomatch hc⟩,
      by simp⟩
  rw [normalizeRoleKey, String.toList_ofList]
  exact (loopState_foldl _ hstart).front.normalKey_trimUnderscores

/-- The loop writes a key as it is. -/
theorem foldl_pushRoleChar {front back : List Char} {flag : Bool}
    (h : KeyFront (front ++ back)) (hflag : flag = true ↔ front.getLast? = some '_') :
    (back.foldl pushRoleChar (front, flag)).1 = front ++ back := by
  induction back generalizing front flag with
  | nil => rw [List.foldl_nil, List.append_nil]
  | cons c rest ih =>
    have hc : normalizeRoleChar c = c :=
      (h.chars c (List.mem_append_right _ List.mem_cons_self)).normalizeRoleChar_eq
    have hpush : pushRoleChar (front, flag) c = (front ++ [c], decide (c = '_')) := by
      rw [pushRoleChar, hc]
      by_cases hsep : c = '_'
      · subst hsep
        have hempty : front ≠ [] := by
          rintro rfl
          exact h.head '_' rfl rfl
        have hset : flag = false := by
          refine Bool.eq_false_iff.mpr fun hset => ?_
          exact (List.isChain_append.mp h.single).2.2 '_' (hflag.mp hset) '_' rfl ⟨rfl, rfl⟩
        simp [hset, hempty]
      · simp [hsep]
    have hnext : KeyFront ((front ++ [c]) ++ rest) := by
      rw [List.append_assoc]
      exact h
    rw [List.foldl_cons, hpush, ih hnext (by simp), List.append_assoc]
    rfl

theorem NormalKey.normalizeRoleKey_eq {key : String} (h : NormalKey key.toList) :
    normalizeRoleKey key = key := by
  have hhead : ∀ {text : List Char}, (∀ c ∈ text, IsKeyChar c) →
      text.dropWhile Daemon.isWhitespace = text := by
    intro text hchars
    cases text with
    | nil => rfl
    | cons c rest =>
      rw [List.dropWhile_cons, (hchars c List.mem_cons_self).isWhitespace_eq]
      rfl
  have htrim : trimText key = key := by
    rw [trimText, hhead h.chars, hhead fun c hc => h.chars c (List.mem_reverse.mp hc),
      List.reverse_reverse, String.ofList_toList]
  have hloop : (key.toList.foldl pushRoleChar ([], false)).1 = [] ++ key.toList :=
    foldl_pushRoleChar h.toKeyFront (by simp)
  have hunderscores : trimUnderscores key.toList = key.toList := by
    have hfront : key.toList.dropWhile (· = '_') = key.toList := by
      cases htext : key.toList with
      | nil => rfl
      | cons c rest =>
        have hc : c ≠ '_' := h.head c (by rw [htext]; rfl)
        rw [List.dropWhile_cons, if_neg (by simpa using hc)]
    have hback : key.toList.reverse.dropWhile (· = '_') = key.toList.reverse := by
      cases htext : key.toList.reverse with
      | nil => rfl
      | cons c rest =>
        have hc : c ≠ '_' := h.last c (by rw [← List.head?_reverse, htext]; rfl)
        rw [List.dropWhile_cons, if_neg (by simpa using hc)]
    rw [trimUnderscores, hfront, hback, List.reverse_reverse]
  rw [normalizeRoleKey, htrim, hloop, List.nil_append, hunderscores, String.ofList_toList]

/-- **A normalized key is its own normalized key.** -/
theorem normalizeRoleKey_normalizeRoleKey (value : String) :
    normalizeRoleKey (normalizeRoleKey value) = normalizeRoleKey value :=
  (normalKey_normalizeRoleKey value).normalizeRoleKey_eq

/-- The texts that are normalized keys are exactly those that normalization leaves as they are. -/
theorem normalizeRoleKey_range (key : String) :
    ((∃ value, normalizeRoleKey value = key) ↔ NormalKey key.toList) ∧
      (normalizeRoleKey key = key ↔ NormalKey key.toList) := by
  have hrange : (∃ value, normalizeRoleKey value = key) ↔ NormalKey key.toList := by
    constructor
    · rintro ⟨value, rfl⟩
      exact normalKey_normalizeRoleKey value
    · exact fun h => ⟨key, h.normalizeRoleKey_eq⟩
  exact ⟨hrange, fun h => hrange.mp ⟨key, h⟩, fun h => h.normalizeRoleKey_eq⟩

example : normalizeRoleKey " Command--Surface (v2) " = "command_surface_v2" := by decide

end ArchitectureRoles
end Bitloops
