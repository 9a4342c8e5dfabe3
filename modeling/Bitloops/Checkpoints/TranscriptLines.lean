import Bitloops.ArchitectureRoles.Taxonomy
import Bitloops.Foundation.Terminated

/-!
# Transcripts from a line on

A transcript is read as a whole, from bytes that were cut at the beginning of a line, or line by
line from a file.  `parseFromBytes_sliceFromLine` says that both ways from a line on find the same
lines, and `fileLines_append` that reading on from the number of lines that was reported for a
beginning of the file finds each line once.
-/

namespace Bitloops
namespace Checkpoints
namespace TranscriptLines

open ArchitectureRoles Terminated

/-- A line of a transcript. -/
structure Line where
  type : String
  uuid : String
  message : JsonValue

def newline : UInt8 := 0x0A

/-- What `serde_json` makes of the bytes of a line.  White space may follow a value, and no bytes
are no value. -/
structure JsonReader where
  line : List UInt8 → Option Line
  value : List UInt8 → Option JsonValue
  line_nil : line [] = none
  value_nil : value [] = none
  line_newline : ∀ raw, line (raw ++ [newline]) = line raw
  value_newline : ∀ raw, value (raw ++ [newline]) = value raw

def typeUser : String := "user"

def typeAssistant : String := "assistant"

section Reader

variable (json : JsonReader)

/-- A line in another form than the usual one. -/
def lineOfValue (value : JsonValue) : Option Line := do
  let role ← (value.get "role" <|> value.get "type").bind JsonValue.asStr
  if role ≠ typeUser ∧ role ≠ typeAssistant then none
  else
    let uuid := ((value.get "uuid" <|> value.get "id").bind JsonValue.asStr).getD ""
    let message ← value.get "message" <|>
      (value.get "content").map fun content => .object [("content", content)]
    some ⟨role, uuid, message⟩

def parseLine (rawLine : List UInt8) : Option Line :=
  match json.line rawLine with
  | some parsed => some parsed
  | none => (json.value rawLine).bind lineOfValue

def parseFromBytes (content : List UInt8) : List Line :=
  (content.splitOn newline).filterMap fun rawLine =>
    if rawLine.isEmpty then none else parseLine json rawLine

/-- How many lines end before the scan stops, and where the line begins. -/
def scanLines (fromLine : ℕ) : ℕ → ℕ → List UInt8 → ℕ × Option ℕ
  | _, lineCount, [] => (lineCount, none)
  | idx, lineCount, byte :: content =>
    if byte = newline then
      if lineCount + 1 = fromLine then (lineCount + 1, some (idx + 1))
      else scanLines fromLine (idx + 1) (lineCount + 1) content
    else scanLines fromLine (idx + 1) lineCount content

def sliceFromLine (content : List UInt8) (fromLine : ℕ) : List UInt8 :=
  if content.isEmpty ∨ fromLine = 0 then content
  else
    match scanLines fromLine 0 0 content with
    | (_, none) => []
    | (lineCount, some offset) =>
      if lineCount < fromLine then []
      else if offset ≥ content.length then []
      else content.drop offset

/-- The loop over the reads of the file. -/
def readLoop (fromLine : ℕ) (state : List Line × ℕ) (lineBytes : List UInt8) : List Line × ℕ :=
  let (lines, totalLines) := state
  let lines :=
    if totalLines ≥ fromLine then
      match parseLine json lineBytes with
      | some parsed => lines ++ [parsed]
      | none => lines
    else lines
  (lines, totalLines + 1)

/-- The lines of the file from a line on, and the number of all its lines. -/
def parseFromFileAtLine (content : List UInt8) (fromLine : ℕ) : List Line × ℕ :=
  (chunks newline content).foldl (readLoop json fromLine) ([], 0)

end Reader

/-! ## Cutting at a line -/

/-- The scan stops where the line begins. -/
theorem scanLines_spec {fromLine lineCount idx k : ℕ} {content : List UInt8}
    (hk : lineCount + (k + 1) = fromLine) :
    (∃ count, scanLines fromLine idx lineCount content = (count, none) ∧
      afterLines newline (k + 1) content = []) ∨
    ∃ offset, scanLines fromLine idx lineCount content = (fromLine, some offset) ∧ idx ≤ offset ∧
      afterLines newline (k + 1) content = content.drop (offset - idx) := by
  induction content generalizing lineCount idx k with
  | nil => exact Or.inl ⟨lineCount, rfl, rfl⟩
  | cons byte content ih =>
    rw [scanLines, afterLines]
    have hdrop : ∀ offset, idx + 1 ≤ offset →
        (byte :: content).drop (offset - idx) = content.drop (offset - (idx + 1)) := by
      intro offset hle
      obtain ⟨d, rfl⟩ := Nat.exists_eq_add_of_le hle
      rw [show idx + 1 + d - idx = d + 1 by omega, Nat.add_sub_cancel_left, List.drop_succ_cons]
    by_cases hbyte : byte = newline
    · rw [if_pos hbyte, if_pos hbyte]
      by_cases hlast : lineCount + 1 = fromLine
      · obtain rfl : k = 0 := by omega
        rw [if_pos hlast, hlast, afterLines]
        refine Or.inr ⟨idx + 1, rfl, Nat.le_succ idx, ?_⟩
        rw [Nat.add_sub_cancel_left, List.drop_succ_cons, List.drop_zero]
      · obtain ⟨k, rfl⟩ : ∃ j, k = j + 1 := ⟨k - 1, by omega⟩
        rw [if_neg hlast]
        rcases @ih (lineCount + 1) (idx + 1) k (by omega) with
          hnone | ⟨offset, hscan, hle, hafter⟩
        · exact Or.inl hnone
        · exact Or.inr ⟨offset, hscan, by omega, by rw [hafter, hdrop offset hle]⟩
    · rw [if_neg hbyte, if_neg hbyte]
      rcases @ih lineCount (idx + 1) k hk with
        hnone | ⟨offset, hscan, hle, hafter⟩
      · exact Or.inl hnone
      · exact Or.inr ⟨offset, hscan, by omega, by rw [hafter, hdrop offset hle]⟩

theorem sliceFromLine_eq (content : List UInt8) (fromLine : ℕ) :
    sliceFromLine content fromLine = afterLines newline fromLine content := by
  cases fromLine with
  | zero => rw [sliceFromLine, if_pos (Or.inr rfl), afterLines]
  | succ n =>
    by_cases hnil : content = []
    · rw [hnil]
      rfl
    · rw [sliceFromLine, if_neg (by simp [hnil])]
      rcases @scanLines_spec (n + 1) 0 0 n content (by omega) with ⟨count, hscan, hafter⟩ | ⟨offset, hscan, -, hafter⟩
      · rw [hscan, hafter]
      · rw [hscan, hafter, Nat.sub_zero]
        simp only [lt_irrefl, if_false]
        split_ifs with hend
        · exact (List.drop_eq_nil_of_le hend).symm
        · rfl

/-! ## Reading from a line -/

variable (json : JsonReader)

theorem parseLine_nil : parseLine json [] = none := by
  rw [parseLine, json.line_nil, json.value_nil]
  rfl

theorem parseLine_newline (raw : List UInt8) :
    parseLine json (raw ++ [newline]) = parseLine json raw := by
  rw [parseLine, json.line_newline, json.value_newline, parseLine]

theorem parseFromBytes_eq (content : List UInt8) :
    parseFromBytes json content = (chunks newline content).filterMap (parseLine json) := by
  rw [← filterMap_splitOn (parseLine_nil json) (parseLine_newline json), parseFromBytes]
  refine List.filterMap_congr fun rawLine _ => ?_
  split_ifs with hempty
  · rw [List.isEmpty_iff.mp hempty, parseLine_nil]
  · rfl

theorem foldl_readLoop (fromLine : ℕ) (lineChunks : List (List UInt8)) (state : List Line × ℕ) :
    lineChunks.foldl (readLoop json fromLine) state =
      (state.1 ++ (lineChunks.drop (fromLine - state.2)).filterMap (parseLine json),
        state.2 + lineChunks.length) := by
  induction lineChunks generalizing state with
  | nil => simp
  | cons chunk lineChunks ih =>
    obtain ⟨lines, total⟩ := state
    rw [List.foldl_cons, ih]
    rcases Nat.lt_or_ge total fromLine with hlt | hge
    · obtain ⟨d, rfl⟩ := Nat.exists_eq_add_of_lt hlt
      have hdrop : total + d + 1 - total = d + 1 := by omega
      have hrest : total + d + 1 - (total + 1) = d := by omega
      simp only [readLoop, if_neg (not_le.mpr hlt), hdrop, hrest, List.drop_succ_cons,
        List.length_cons]
      rw [Nat.add_assoc, Nat.add_comm 1]
    · have hdrop : fromLine - total = 0 := by omega
      have hrest : fromLine - (total + 1) = 0 := by omega
      simp only [readLoop, if_pos hge, hdrop, hrest, List.drop_zero, List.length_cons,
        List.filterMap_cons]
      cases parseLine json chunk with
      | none => simp [Nat.add_assoc, Nat.add_comm 1]
      | some parsed => simp [Nat.add_assoc, Nat.add_comm 1]

theorem parseFromFileAtLine_eq (content : List UInt8) (fromLine : ℕ) :
    parseFromFileAtLine json content fromLine =
      (((chunks newline content).drop fromLine).filterMap (parseLine json),
        (chunks newline content).length) := by
  rw [parseFromFileAtLine, foldl_readLoop]
  simp

/-- Cutting and parsing reads the lines of the file from there on. -/
theorem parseFromBytes_sliceFromLine (content : List UInt8) (fromLine : ℕ) :
    parseFromBytes json (sliceFromLine content fromLine) =
      (parseFromFileAtLine json content fromLine).1 := by
  rw [parseFromBytes_eq, sliceFromLine_eq, chunks_afterLines, parseFromFileAtLine_eq]

/-! ## Reading on -/

/-- The beginning of the file ends with a line, its line feed included or not. -/
def EndsLine (front rest : List UInt8) : Prop :=
  front = [] ∨ front.getLast? = some newline ∨ rest = [] ∨ rest.head? = some newline

theorem drop_chunks_append {front rest : List UInt8} (h : EndsLine front rest) :
    (chunks newline front).filterMap (parseLine json) ++
        ((chunks newline (front ++ rest)).drop (chunks newline front).length).filterMap
          (parseLine json) =
      (chunks newline (front ++ rest)).filterMap (parseLine json) := by
  by_cases hends : front = [] ∨ front.getLast? = some newline
  · rw [chunks_append hends, List.drop_left, List.filterMap_append]
  · obtain ⟨hne, hlast⟩ := not_or.mp hends
    rcases h with h | h | rfl | h
    · exact absurd h hne
    · exact absurd h hlast
    · rw [List.append_nil, List.drop_length, List.filterMap_nil, List.append_nil]
    · -- the line feed belongs to the last line of the beginning
      obtain ⟨rest, rfl⟩ : ∃ rest', rest = newline :: rest' := by
        obtain ⟨rest', hrest⟩ := List.head?_eq_some_iff.mp h
        exact ⟨rest', hrest⟩
      have happend : front ++ newline :: rest = (front ++ [newline]) ++ rest := by
        rw [List.append_assoc]
        rfl
      have hsame : (chunks newline front).filterMap (parseLine json) =
          (chunks newline (front ++ [newline])).filterMap (parseLine json) := by
        rw [← filterMap_splitOn (parseLine_nil json) (parseLine_newline json),
          ← filterMap_splitOn (parseLine_nil json) (parseLine_newline json),
          List.splitOn_append_cons_self, List.filterMap_append, List.splitOn_nil,
          List.filterMap_cons, parseLine_nil]
        simp
      rw [happend, chunks_append (Or.inr (List.getLast?_concat ..)),
        ← length_chunks_concat hne hlast, List.drop_left, List.filterMap_append, hsame]

/-- The lines of the beginning and the lines from the reported number on are all lines. -/
theorem fileLines_append {front rest : List UInt8} (h : EndsLine front rest) :
    (parseFromFileAtLine json front 0).1 ++
        (parseFromFileAtLine json (front ++ rest) (parseFromFileAtLine json front 0).2).1 =
      (parseFromFileAtLine json (front ++ rest) 0).1 := by
  simp only [parseFromFileAtLine_eq, List.drop_zero]
  exact drop_chunks_append json h

/-- Reading from a line on is cutting and parsing, and reading on finds each line once. -/
theorem reading_from_a_line (json : JsonReader) :
    (∀ content fromLine, parseFromBytes json (sliceFromLine content fromLine) =
      (parseFromFileAtLine json content fromLine).1) ∧
    ∀ front rest, EndsLine front rest →
      (parseFromFileAtLine json front 0).1 ++
          (parseFromFileAtLine json (front ++ rest) (parseFromFileAtLine json front 0).2).1 =
        (parseFromFileAtLine json (front ++ rest) 0).1 :=
  ⟨parseFromBytes_sliceFromLine json, fun _ _ h => fileLines_append json h⟩

/-! ## A transcript of two lines -/

/-- A line of the user without a message. -/
def userLine : List UInt8 :=
  "\x7b\"type\":\"user\",\"uuid\":\"u\",\"message\":null\x7d".toList.map
    fun c => UInt8.ofNat c.toNat

def withoutNewlines (raw : List UInt8) : List UInt8 :=
  (raw.reverse.dropWhile (· = newline)).reverse

theorem withoutNewlines_append (raw : List UInt8) :
    withoutNewlines (raw ++ [newline]) = withoutNewlines raw := by
  rw [withoutNewlines, List.reverse_append]
  exact congrArg List.reverse (List.dropWhile_cons_of_pos (decide_eq_true rfl))

/-- A reader of this line, with line feeds after it. -/
def userLineReader : JsonReader where
  line raw := if withoutNewlines raw = userLine then some ⟨"user", "u", .null⟩ else none
  value raw :=
    if withoutNewlines raw = userLine then
      some (.object [("type", .string "user"), ("uuid", .string "u"), ("message", .null)])
    else none
  line_nil := if_neg (by decide)
  value_nil := if_neg (by decide)
  line_newline raw := by rw [withoutNewlines_append]
  value_newline raw := by rw [withoutNewlines_append]

/-- The second line is read on its own after the first one, whose line feed comes later. -/
theorem userLine_read_on :
    EndsLine userLine (newline :: userLine) ∧
      (parseFromFileAtLine userLineReader userLine 0).1 ++
          (parseFromFileAtLine userLineReader (userLine ++ newline :: userLine)
            (parseFromFileAtLine userLineReader userLine 0).2).1 =
        (parseFromFileAtLine userLineReader (userLine ++ newline :: userLine) 0).1 :=
  have hends : EndsLine userLine (newline :: userLine) := Or.inr (Or.inr (Or.inr rfl))
  ⟨hends, (reading_from_a_line userLineReader).2 _ _ hends⟩

end TranscriptLines
end Checkpoints
end Bitloops
