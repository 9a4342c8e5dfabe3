import Mathlib.Data.List.Basic

/-!
# Positions and fragments of a transcript

A transcript file is either one JSON document with a `messages` array, and then its positions
count messages, or a text whose positions count lines.  `transcriptFragment` cuts the part
between two positions out of it.
-/

namespace Bitloops
namespace Interactions

/-- `split_inclusive('\n')`: the lines with their line breaks. -/
def splitInclusive : List Char → List (List Char)
  | [] => []
  | c :: rest =>
    if c = '\n' then [c] :: splitInclusive rest
    else
      match splitInclusive rest with
      | [] => [[c]]
      | line :: lines => (c :: line) :: lines

/-- What `serde_json` makes of a transcript. -/
structure DocumentCodec where
  /-- The items of `messages`, where the transcript is an object with such an array. -/
  messages : String → Option (List String)
  /-- The document with other `messages`. -/
  withMessages : String → List String → String

/-- The items from the position `start` to the position `stop`. -/
def sliceBetween {α : Type*} (items : List α) (start stop : ℕ) : List α :=
  (items.take (min stop items.length)).drop start

variable (codec : DocumentCodec)

/-- `transcript_position_from_bytes`. -/
def transcriptPosition (data : String) : ℕ :=
  if data = "" then 0
  else
    match codec.messages data with
    | some messages => messages.length
    | none => (splitInclusive data.toList).length

/-- `transcript_fragment_from_bytes`. -/
def transcriptFragment (data : String) (startOffset endOffset : ℕ) : String :=
  if startOffset ≥ endOffset then ""
  else
    match codec.messages data with
    | some messages =>
      if startOffset ≥ messages.length then ""
      else codec.withMessages data (sliceBetween messages startOffset endOffset)
    | none =>
      let lines := splitInclusive data.toList
      if startOffset ≥ lines.length then ""
      else String.ofList (sliceBetween lines startOffset endOffset).flatten

/-! ## Texts of whole lines -/

/-- A line with its line break. -/
def IsLine (line : List Char) : Prop := ∃ body, '\n' ∉ body ∧ line = body ++ ['\n']

def textOf (lines : List (List Char)) : String := String.ofList lines.flatten

theorem splitInclusive_append {body rest : List Char} (h : '\n' ∉ body) :
    splitInclusive (body ++ '\n' :: rest) = (body ++ ['\n']) :: splitInclusive rest := by
  induction body with
  | nil => simp [splitInclusive]
  | cons c body ih =>
    have hc : c ≠ '\n' := fun heq => h (heq ▸ List.mem_cons_self)
    have hbody : '\n' ∉ body := fun hmem => h (List.mem_cons_of_mem _ hmem)
    simp [splitInclusive, hc, ih hbody]

theorem splitInclusive_flatten {lines : List (List Char)} (h : ∀ line ∈ lines, IsLine line) :
    splitInclusive lines.flatten = lines := by
  induction lines with
  | nil => rfl
  | cons line lines ih =>
    obtain ⟨body, hbody, rfl⟩ := h line List.mem_cons_self
    have hrest := ih fun l hl => h l (List.mem_cons_of_mem _ hl)
    rw [List.flatten_cons, List.append_assoc, List.singleton_append,
      splitInclusive_append hbody, hrest]

theorem textOf_ne_empty {line : List Char} {lines : List (List Char)}
    (h : ∀ l ∈ line :: lines, IsLine l) : textOf (line :: lines) ≠ "" := by
  obtain ⟨body, -, rfl⟩ := h line List.mem_cons_self
  intro hempty
  have hlist := congrArg String.toList hempty
  simp [textOf] at hlist

/-! ## Slices -/

section Slices

variable {α : Type*} {old new rest items : List α} {start stop : ℕ}

theorem sliceBetween_append :
    sliceBetween (old ++ (new ++ rest)) old.length (old ++ new).length = new := by
  have hmin : min (old ++ new).length (old ++ new ++ rest).length = (old ++ new).length :=
    Nat.min_eq_left (by simp)
  rw [← List.append_assoc, sliceBetween, hmin, List.take_left, List.drop_left]

/-- A slice to the end. -/
theorem sliceBetween_length : sliceBetween items start items.length = items.drop start := by
  rw [sliceBetween, Nat.min_self, List.take_length]

theorem sliceBetween_eq_nil (h : start ≥ stop ∨ start ≥ items.length) :
    sliceBetween items start stop = [] := by
  refine List.drop_eq_nil_of_le ?_
  rw [List.length_take]
  omega

end Slices

/-! ## Positions and fragments of lines and of documents -/

section Windows

variable {codec} {lines : List (List Char)} {data : String} {messages : List String}
  {start stop : ℕ}

theorem toList_textOf : (textOf lines).toList = lines.flatten := by
  rw [textOf, String.toList_ofList]

theorem transcriptPosition_textOf (h : ∀ line ∈ lines, IsLine line)
    (hdocument : codec.messages (textOf lines) = none) :
    transcriptPosition codec (textOf lines) = lines.length := by
  cases lines with
  | nil => simp [transcriptPosition, textOf]
  | cons line lines =>
    rw [transcriptPosition, if_neg (textOf_ne_empty h), hdocument]
    dsimp only
    rw [toList_textOf, splitInclusive_flatten h]

theorem transcriptFragment_textOf (h : ∀ line ∈ lines, IsLine line)
    (hdocument : codec.messages (textOf lines) = none) :
    transcriptFragment codec (textOf lines) start stop =
      textOf (sliceBetween lines start stop) := by
  have hnil : textOf [] = "" := rfl
  rw [transcriptFragment, hdocument]
  dsimp only
  rw [toList_textOf, splitInclusive_flatten h]
  split_ifs with hstop hlength
  · rw [sliceBetween_eq_nil (.inl hstop), hnil]
  · rw [sliceBetween_eq_nil (.inr hlength), hnil]
  · rfl

theorem transcriptPosition_of_messages (hdata : data ≠ "")
    (h : codec.messages data = some messages) :
    transcriptPosition codec data = messages.length := by
  rw [transcriptPosition, if_neg hdata, h]

theorem transcriptFragment_of_messages (h : codec.messages data = some messages)
    (hstart : start < stop) (hlength : start < messages.length) :
    transcriptFragment codec data start stop =
      codec.withMessages data (sliceBetween messages start stop) := by
  rw [transcriptFragment, if_neg (by omega), h]
  dsimp only
  rw [if_neg (by omega)]

end Windows

end Interactions
end Bitloops
