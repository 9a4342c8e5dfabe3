import Bitloops.Foundation.Terminated
import Mathlib.Data.List.Basic

/-!
# Lines of a text, and blocks of lines

* `textLines text`: the lines of a text as `str::lines` gives them, without their ends, which are a
  line feed or a carriage return and a line feed; `textLines_joinLines` reads lines back.
* `blocks starts l`: the entries where `starts` holds, each with the entries up to the next one;
  `blocks_flatMap` reads blocks back.
-/

namespace Bitloops
namespace TextLines

open Terminated

variable {α : Type*}

/-! ## Lines -/

/-- A line ends before the carriage return that its line feed follows. -/
def stripReturn (line : List Char) : List Char :=
  if line.getLast? = some '\r' then line.dropLast else line

def textLinesFrom (current : List Char) : List Char → List (List Char)
  | [] => if current = [] then [] else [current]
  | c :: text =>
    if c = '\n' then stripReturn current :: textLinesFrom [] text
    else textLinesFrom (current ++ [c]) text

def textLines (text : List Char) : List (List Char) := textLinesFrom [] text

/-- Lines that end with a line feed. -/
def joinLines (lines : List (List Char)) : List Char := lines.flatMap fun line => line ++ ['\n']

theorem textLinesFrom_append {line : List Char} (h : '\n' ∉ line) (current text : List Char) :
    textLinesFrom current (line ++ '\n' :: text) =
      stripReturn (current ++ line) :: textLinesFrom [] text := by
  induction line generalizing current with
  | nil => rw [List.nil_append, textLinesFrom, if_pos rfl, List.append_nil]
  | cons c line ih =>
    have hc : c ≠ '\n' := fun heq => h (heq ▸ List.mem_cons_self)
    rw [List.cons_append, textLinesFrom, if_neg hc, ih fun hmem => h (List.mem_cons_of_mem c hmem),
      List.append_assoc, List.singleton_append]

/-- Lines come back without the carriage returns at their ends. -/
theorem textLines_joinLines {lines : List (List Char)} (h : ∀ line ∈ lines, '\n' ∉ line) :
    textLines (joinLines lines) = lines.map stripReturn := by
  induction lines with
  | nil => rfl
  | cons line lines ih =>
    have hrest := ih fun other hother => h other (List.mem_cons_of_mem line hother)
    rw [textLines] at hrest
    rw [joinLines, List.flatMap_cons, List.append_assoc, List.singleton_append, textLines,
      textLinesFrom_append (h line List.mem_cons_self), List.nil_append, List.map_cons, ← hrest,
      joinLines]

theorem textLinesFrom_append_cons (current front rest : List Char) :
    textLinesFrom current (front ++ '\n' :: rest) =
      textLinesFrom current (front ++ ['\n']) ++ textLines rest := by
  induction front generalizing current with
  | nil =>
    rw [List.nil_append, List.nil_append, textLinesFrom, if_pos rfl, textLinesFrom, if_pos rfl]
    rfl
  | cons c front ih =>
    rw [List.cons_append, List.cons_append, textLinesFrom, textLinesFrom]
    split_ifs
    · rw [ih, List.cons_append]
    · exact ih _

/-- The lines up to the end of a line, and the lines after it. -/
theorem textLines_append {front : List Char} (h : front = [] ∨ front.getLast? = some '\n')
    (rest : List Char) : textLines (front ++ rest) = textLines front ++ textLines rest := by
  rcases h with rfl | h
  · rfl
  · obtain ⟨front, rfl⟩ := List.getLast?_eq_some_iff.mp h
    rw [List.append_assoc]
    exact textLinesFrom_append_cons [] front rest

theorem length_textLines (text : List Char) :
    (textLines text).length = (chunks '\n' text).length := by
  induction text using line_induction '\n' with
  | last text h =>
    have hlines : ∀ (current text : List Char), '\n' ∉ text →
        textLinesFrom current text = if current ++ text = [] then [] else [current ++ text] := by
      intro current text
      induction text generalizing current with
      | nil => simp [textLinesFrom]
      | cons c text ih =>
        intro hmem
        rw [List.mem_cons, not_or] at hmem
        rw [textLinesFrom, if_neg fun heq => hmem.1 heq.symm, ih _ hmem.2, List.append_assoc]
        rfl
    rw [textLines, hlines [] text h, List.nil_append]
    by_cases hnil : text = []
    · rw [hnil]
      rfl
    · rw [if_neg hnil, chunks_of_notMem h hnil]
  | line body rest h ih =>
    rw [textLines, textLinesFrom_append h, chunks_append_cons h, List.length_cons, List.length_cons,
      ← ih]
    rfl

theorem stripReturn_eq_self_iff {line : List Char} :
    stripReturn line = line ↔ line.getLast? ≠ some '\r' := by
  rw [stripReturn]
  split_ifs with h
  · refine iff_of_false (fun heq => ?_) (not_not_intro h)
    have hlength := congrArg List.length heq
    rw [List.length_dropLast] at hlength
    cases line with
    | nil => exact nomatch h
    | cons c line => rw [List.length_cons] at hlength; omega
  · exact iff_of_true rfl h

/-- A first character that is no carriage return stays. -/
theorem stripReturn_cons {c : Char} (hc : c ≠ '\r') (line : List Char) :
    stripReturn (c :: line) = c :: stripReturn line := by
  cases line with
  | nil =>
    exact if_neg fun h => hc (Option.some.inj h)
  | cons d line =>
    rw [stripReturn, stripReturn, List.getLast?_cons_cons]
    split_ifs
    · rfl
    · rfl

/-! ## Blocks -/

/-- What stands before the first start, and every start with what follows it up to the next one. -/
def blocks (starts : α → Bool) : List α → List α × List (α × List α)
  | [] => ([], [])
  | x :: l =>
    let (front, rest) := blocks starts l
    if starts x then ([], (x, front) :: rest) else (x :: front, rest)

variable {starts : α → Bool}

theorem blocks_append {front : List α} (h : ∀ x ∈ front, starts x = false) (l : List α) :
    blocks starts (front ++ l) = (front ++ (blocks starts l).1, (blocks starts l).2) := by
  induction front with
  | nil => rfl
  | cons x front ih =>
    rw [List.cons_append, blocks, ih fun y hy => h y (List.mem_cons_of_mem x hy),
      h x List.mem_cons_self]
    rfl

/-- Blocks come back. -/
theorem blocks_flatMap {parts : List (α × List α)}
    (h : ∀ part ∈ parts, starts part.1 = true ∧ ∀ x ∈ part.2, starts x = false) :
    blocks starts (parts.flatMap fun part => part.1 :: part.2) = ([], parts) := by
  induction parts with
  | nil => rfl
  | cons part parts ih =>
    obtain ⟨hstart, hrest⟩ := h part List.mem_cons_self
    rw [List.flatMap_cons, List.cons_append, blocks, blocks_append hrest,
      ih fun other hother => h other (List.mem_cons_of_mem part hother)]
    refine (if_pos hstart).trans ?_
    rw [List.append_nil]

end TextLines
end Bitloops
