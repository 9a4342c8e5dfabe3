import Bitloops.Agents.GeminiChunks
import Bitloops.Agents.TokenUsage
import Mathlib.Algebra.BigOperators.Group.List.Basic
import Mathlib.Data.List.TakeWhile

/-!
# The usage of the turns of a session

A calculator `Adds` at a cut of a transcript when the usage of the beginning and the usage from its
position on are the usage of the transcript.  `claude_adds` and `openCode_adds` say that two agents
always do, and `codex_adds_iff`, `copilot_adds_iff` and `gemini_adds_iff` when the others do.
-/

namespace Bitloops
namespace Agents
namespace TokenUsages

open ArchitectureRoles Checkpoints Checkpoints.TranscriptLines GeminiTranscripts Terminated TextLines
open Utf8Lossy
open LanguageAdapter (trim)

/-! ## Sums -/

theorem TokenUsage.zero_def : (0 : TokenUsage) = {} := rfl

instance : AddCancelCommMonoid TokenUsage where
  add_assoc _ _ _ := by ext <;> exact Int.add_assoc ..
  add_left_cancel usage _ _ h := by
    have hfields := TokenUsage.ext_iff.mp h
    ext
    · exact Int.add_left_cancel hfields.1
    · exact Int.add_left_cancel hfields.2.1
    · exact Int.add_left_cancel hfields.2.2.1
    · exact Int.add_left_cancel hfields.2.2.2.1
    · exact Int.add_left_cancel hfields.2.2.2.2
  zero_add _ := by ext <;> exact Int.zero_add _
  add_zero _ := by ext <;> exact Int.add_zero _
  add_comm _ _ := by ext <;> exact Int.add_comm ..
  nsmul := nsmulRec

/-- A loop that adds something at each entry. -/
theorem foldl_add {α : Type} {step : TokenUsage → α → TokenUsage} {amount : α → TokenUsage}
    (h : ∀ usage x, step usage x = usage + amount x) (xs : List α) (usage : TokenUsage) :
    xs.foldl step usage = usage + (xs.map amount).sum := by
  induction xs generalizing usage with
  | nil => exact (add_zero usage).symm
  | cons x xs ih => rw [List.foldl_cons, ih, h, List.map_cons, List.sum_cons, add_assoc]

/-- The usage of the beginning, and the usage from its position on, are the usage of the whole. -/
def Adds (calculator : TokenCalculator) (front rest : List UInt8) : Prop :=
  ∃ position whole first later,
    calculator.position front = some position ∧ calculator.usage (front ++ rest) 0 = some whole ∧
      calculator.usage front 0 = some first ∧
        calculator.usage (front ++ rest) position = some later ∧ whole = first + later

theorem adds_iff {calculator : TokenCalculator} {front rest : List UInt8} {position : ℕ}
    {whole first later : TokenUsage} (hposition : calculator.position front = some position)
    (hwhole : calculator.usage (front ++ rest) 0 = some whole)
    (hfirst : calculator.usage front 0 = some first)
    (hlater : calculator.usage (front ++ rest) position = some later) :
    Adds calculator front rest ↔ whole = first + later := by
  constructor
  · rintro ⟨position', whole', first', later', hposition', hwhole', hfirst', hlater', hsum⟩
    obtain rfl := Option.some.inj (hposition.symm.trans hposition')
    obtain rfl := Option.some.inj (hwhole.symm.trans hwhole')
    obtain rfl := Option.some.inj (hfirst.symm.trans hfirst')
    obtain rfl := Option.some.inj (hlater.symm.trans hlater')
    exact hsum
  · exact fun hsum => ⟨_, _, _, _, hposition, hwhole, hfirst, hlater, hsum⟩

/-- The usage of a turn, from what was there before it. -/
def turnUsage (calculator : TokenCalculator) (front turn : List UInt8) : Option TokenUsage := do
  let position ← calculator.position front
  calculator.usage (front ++ turn) position

/-- The usages of the turns of a session, one after the other. -/
def turnsUsage (calculator : TokenCalculator) : List UInt8 → List (List UInt8) → Option TokenUsage
  | _, [] => some 0
  | front, turn :: turns => do
    let usage ← turnUsage calculator front turn
    let later ← turnsUsage calculator (front ++ turn) turns
    some (usage + later)

/-- The calculator adds at the end of each turn. -/
def AddsTurns (calculator : TokenCalculator) : List UInt8 → List (List UInt8) → Prop
  | _, [] => True
  | front, turn :: turns => Adds calculator front turn ∧ AddsTurns calculator (front ++ turn) turns

/-- The turns add up to the session. -/
theorem turnsUsage_of_addsTurns {calculator : TokenCalculator} {front : List UInt8}
    {turns : List (List UInt8)} {first : TokenUsage} (hfirst : calculator.usage front 0 = some first)
    (h : AddsTurns calculator front turns) :
    ∃ usage, turnsUsage calculator front turns = some usage ∧
      calculator.usage (front ++ turns.flatten) 0 = some (first + usage) := by
  induction turns generalizing front first with
  | nil => exact ⟨0, rfl, by rw [List.flatten_nil, List.append_nil, hfirst, add_zero]⟩
  | cons turn turns ih =>
    obtain ⟨⟨position, whole, first', later, hposition, hwhole, hfront, hlater, hsum⟩, hturns⟩ := h
    obtain rfl : first = first' := Option.some.inj (hfirst.symm.trans hfront)
    obtain ⟨usage, husage, htotal⟩ := ih hwhole hturns
    refine ⟨later + usage, ?_, ?_⟩
    · rw [turnsUsage, turnUsage, hposition]
      simp [hlater, husage]
    · rw [List.flatten_cons, ← List.append_assoc, htotal, hsum, add_assoc]

/-- The beginning ends at the end of a line. -/
def EndsLine {α : Type} (stop : α) (front : List α) : Prop :=
  front = [] ∨ front.getLast? = some stop

/-! ## Entries by id -/

theorem lookup_append_of_notMem {β : Type} {id : String} {table other : List (String × β)}
    (h : id ∉ table.map Prod.fst) : (table ++ other).lookup id = other.lookup id := by
  induction table with
  | nil => rfl
  | cons entry table ih =>
    rw [List.map_cons, List.mem_cons, not_or] at h
    rw [List.cons_append, List.lookup_cons, beq_false_of_ne h.1]
    exact ih h.2

theorem lookup_map {β γ : Type} {f : β → γ} (id : String) (table : List (String × β)) :
    (table.map fun entry => (entry.1, f entry.2)).lookup id = (table.lookup id).map f := by
  induction table with
  | nil => rfl
  | cons entry table ih =>
    rw [List.map_cons, List.lookup_cons, List.lookup_cons, ih]
    cases id == entry.1 <;> rfl

/-! ## Claude -/

section Claude

variable {reader : ClaudeReader} {table other : List (String × MessageUsage)}

/-- Messages with other ids leave the entries alone. -/
theorem replaceUsage_append {msg : MessageWithUsage} (h : msg.id ∉ table.map Prod.fst) :
    replaceUsage (table ++ other) msg = table ++ replaceUsage other msg := by
  have hkept : (table.map fun entry =>
      if entry.1 = msg.id then (msg.id, msg.usage) else entry) = table := by
    refine (List.map_congr_left fun entry hentry => if_neg fun heq => h ?_).trans (List.map_id _)
    exact heq ▸ List.mem_map_of_mem hentry
  rw [replaceUsage, replaceUsage, lookup_append_of_notMem h]
  cases other.lookup msg.id with
  | none => exact List.append_assoc ..
  | some current =>
    simp only
    split_ifs
    · rw [List.map_append, hkept]
    · rfl

theorem foldl_replaceUsage_append {msgs : List MessageWithUsage}
    (h : ∀ msg ∈ msgs, msg.id ∉ table.map Prod.fst) :
    msgs.foldl replaceUsage (table ++ other) = table ++ msgs.foldl replaceUsage other := by
  induction msgs generalizing other with
  | nil => rfl
  | cons msg msgs ih =>
    rw [List.foldl_cons, replaceUsage_append (h msg List.mem_cons_self),
      ih fun later hlater => h later (List.mem_cons_of_mem _ hlater), List.foldl_cons]

theorem mem_keys_replaceUsage {msg : MessageWithUsage} {id : String}
    (h : id ∈ (replaceUsage table msg).map Prod.fst) : id ∈ table.map Prod.fst ∨ id = msg.id := by
  rw [replaceUsage] at h
  split at h
  · rw [List.map_append, List.mem_append] at h
    exact h.imp_right fun hlast => by simpa using hlast
  · split_ifs at h
    · obtain ⟨entry', hentry', rfl⟩ := List.mem_map.mp h
      obtain ⟨entry, hentry, rfl⟩ := List.mem_map.mp hentry'
      split_ifs with heq
      · exact Or.inr rfl
      · exact Or.inl (List.mem_map_of_mem hentry)
    · exact Or.inl h

theorem mem_keys_foldl_replaceUsage {msgs : List MessageWithUsage} {id : String}
    (h : id ∈ (msgs.foldl replaceUsage table).map Prod.fst) :
    id ∈ table.map Prod.fst ∨ ∃ msg ∈ msgs, msg.id = id := by
  induction msgs generalizing table with
  | nil => exact Or.inl h
  | cons msg msgs ih =>
    rcases ih h with hkey | ⟨later, hlater, heq⟩
    · rcases mem_keys_replaceUsage hkey with hold | rfl
      · exact Or.inl hold
      · exact Or.inr ⟨msg, List.mem_cons_self, rfl⟩
    · exact Or.inr ⟨later, List.mem_cons_of_mem _ hlater, heq⟩

/-- No id of a message that counts in the one transcript counts in the other. -/
def DisjointIds (reader : ClaudeReader) (front rest : List TranscriptLines.Line) : Prop :=
  ∀ msg ∈ front.filterMap (countedMessage reader), ∀ later ∈ rest.filterMap (countedMessage reader),
    msg.id ≠ later.id

theorem usageByMessageId_append {front rest : List TranscriptLines.Line}
    (h : DisjointIds reader front rest) :
    usageByMessageId reader (front ++ rest) =
      usageByMessageId reader front ++ usageByMessageId reader rest := by
  rw [usageByMessageId, List.filterMap_append, List.foldl_append, ← usageByMessageId]
  have hfold := @foldl_replaceUsage_append (usageByMessageId reader front) []
    (rest.filterMap (countedMessage reader)) fun later hlater hkey => by
      rcases mem_keys_foldl_replaceUsage hkey with hnil | ⟨msg, hmsg, heq⟩
      · exact absurd hnil List.not_mem_nil
      · exact h msg hmsg later hlater heq
  rwa [List.append_nil] at hfold

theorem claudeUsage_append {front rest : List TranscriptLines.Line}
    (h : DisjointIds reader front rest) :
    claudeUsage reader (front ++ rest) = claudeUsage reader front + claudeUsage reader rest := by
  rw [claudeUsage, usageByMessageId_append h]
  simp only [List.map_append, List.sum_append, List.length_append, Int.natCast_add]
  rfl

def fileLines (reader : ClaudeReader) (data : List UInt8) : List TranscriptLines.Line :=
  (parseFromFileAtLine reader.toJsonReader data 0).1

/-- Claude's usage adds up when no message goes on after the cut. -/
theorem claude_adds {front rest : List UInt8} (hfront : EndsLine newline front)
    (h : DisjointIds reader (fileLines reader front) (fileLines reader rest)) :
    Adds (claude reader) front rest := by
  have hrest : (parseFromFileAtLine reader.toJsonReader (front ++ rest)
      (parseFromFileAtLine reader.toJsonReader front 0).2).1 = fileLines reader rest := by
    simp only [fileLines, parseFromFileAtLine_eq, chunks_append hfront, List.drop_left,
      List.drop_zero]
  have hlines := @TranscriptLines.fileLines_append reader.toJsonReader front rest
    (hfront.elim Or.inl fun hlast => Or.inr (Or.inl hlast))
  refine ⟨_, _, _, _, rfl, rfl, rfl, rfl, ?_⟩
  rw [hrest] at hlines ⊢
  rw [← hlines]
  exact claudeUsage_append h

end Claude

/-! ## Codex -/

section Codex

variable {reader : CodexReader}

/-- The counters of the lines that count tokens. -/
def counters (reader : CodexReader) (lines : List (List Char)) : List CodexTokenUsageCounters :=
  lines.filterMap (parseTotalTokenUsage reader)

theorem foldl_codexStep (fromOffset : ℕ) (lines : List (List Char)) (i : ℕ) (state : CodexState) :
    (lines.zipIdx i).foldl (codexStep reader fromOffset) state =
      { before := (counters reader (lines.take (fromOffset - i))).getLast?.getD state.before
        latestAfter :=
          (counters reader (lines.drop (fromOffset - i))).getLast?.or state.latestAfter
        apiCallCount :=
          state.apiCallCount + (counters reader (lines.drop (fromOffset - i))).length } := by
  induction lines generalizing i state with
  | nil => simp [counters]
  | cons line lines ih =>
    rw [List.zipIdx_cons, List.foldl_cons, ih]
    rcases Nat.lt_or_ge i fromOffset with hlt | hge
    · obtain ⟨d, rfl⟩ := Nat.exists_eq_add_of_lt hlt
      have hfirst : i + d + 1 - i = d + 1 := by omega
      have hlater : i + d + 1 - (i + 1) = d := by omega
      rw [hfirst, hlater, List.take_succ_cons, List.drop_succ_cons, counters, counters, codexStep]
      cases hcount : parseTotalTokenUsage reader line with
      | none => rw [counters, List.filterMap_cons, hcount]
      | some total =>
        rw [counters, List.filterMap_cons, hcount]
        simp only [if_pos hlt, List.getLast?_cons, Option.getD_some]
    · have hfirst : fromOffset - i = 0 := by omega
      have hlater : fromOffset - (i + 1) = 0 := by omega
      rw [hfirst, hlater, List.take_zero, List.drop_zero, List.take_zero, List.drop_zero, counters,
        counters, codexStep]
      cases hcount : parseTotalTokenUsage reader line with
      | none => rw [counters, List.filterMap_cons, hcount]
      | some total =>
        rw [counters, List.filterMap_cons, hcount]
        simp only [if_neg (Nat.not_lt.mpr hge), List.getLast?_cons, List.length_cons]
        congr 1
        · cases (lines.filterMap (parseTotalTokenUsage reader)).getLast? <;> rfl
        · rw [Int.add_assoc, Int.add_comm 1]
          rfl

/-- The usage of counters that follow others. -/
def usageSince (before : CodexTokenUsageCounters) (counts : List CodexTokenUsageCounters) :
    TokenUsage :=
  match counts.getLast? with
  | none => {}
  | some after => codexDelta before after counts.length

theorem codexUsage_eq (text : List Char) (fromOffset : ℕ) :
    codexUsage reader text fromOffset =
      usageSince ((counters reader ((textLines text).take fromOffset)).getLast?.getD {})
        (counters reader ((textLines text).drop fromOffset)) := by
  rw [usageSince]
  cases hlast : (counters reader ((textLines text).drop fromOffset)).getLast? with
  | none => simp only [codexUsage, foldl_codexStep, Nat.sub_zero, hlast, Option.or_none]
  | some after =>
    simp only [codexUsage, foldl_codexStep, Nat.sub_zero, hlast, Option.or_none, Int.zero_add]

theorem apiCallCount_usageSince (before : CodexTokenUsageCounters)
    (counts : List CodexTokenUsageCounters) :
    (usageSince before counts).apiCallCount = counts.length := by
  rw [usageSince]
  cases hlast : counts.getLast? with
  | none => rw [List.getLast?_eq_none_iff.mp hlast]; rfl
  | some after => rfl

/-- Numbers of an `i32` that are not negative. -/
structure CodexTokenUsageCounters.InRange (c : CodexTokenUsageCounters) : Prop where
  input : 0 ≤ c.inputTokens ∧ c.inputTokens < 2 ^ 31
  cached : 0 ≤ c.cachedInputTokens ∧ c.cachedInputTokens < 2 ^ 31
  output : 0 ≤ c.outputTokens ∧ c.outputTokens < 2 ^ 31

structure CodexTokenUsageCounters.Le (c d : CodexTokenUsageCounters) : Prop where
  input : c.inputTokens ≤ d.inputTokens
  cached : c.cachedInputTokens ≤ d.cachedInputTokens
  output : c.outputTokens ≤ d.outputTokens

/-- Counters that never go back. -/
def NonDecreasing (counts : List CodexTokenUsageCounters) : Prop :=
  (∀ c ∈ counts, c.InRange) ∧ counts.Pairwise CodexTokenUsageCounters.Le

theorem saturatingSub_eq {a b : ℤ} (hlow : -2 ^ 31 ≤ a - b) (hhigh : a - b < 2 ^ 31) :
    saturatingSub a b = a - b := by
  rw [saturatingSub]
  omega

theorem codexDelta_eq {c d : CodexTokenUsageCounters} (hc : c.InRange) (hd : d.InRange)
    (hle : c.Le d) (n : ℤ) :
    codexDelta c d n =
      { inputTokens := (d.inputTokens - c.inputTokens) - (d.cachedInputTokens - c.cachedInputTokens)
        cacheReadTokens := d.cachedInputTokens - c.cachedInputTokens
        outputTokens := d.outputTokens - c.outputTokens
        apiCallCount := n } := by
  obtain ⟨⟨hci, hci'⟩, ⟨hcc, hcc'⟩, ⟨hco, hco'⟩⟩ := hc
  obtain ⟨⟨hdi, hdi'⟩, ⟨hdc, hdc'⟩, ⟨hdo, hdo'⟩⟩ := hd
  obtain ⟨hi, hcached, ho⟩ := hle
  have hinput := saturatingSub_eq (a := d.inputTokens) (b := c.inputTokens) (by omega) (by omega)
  have hread := saturatingSub_eq (a := d.cachedInputTokens) (b := c.cachedInputTokens)
    (by omega) (by omega)
  have houtput := saturatingSub_eq (a := d.outputTokens) (b := c.outputTokens)
    (by omega) (by omega)
  have hfresh := saturatingSub_eq (a := d.inputTokens - c.inputTokens)
    (b := d.cachedInputTokens - c.cachedInputTokens) (by omega) (by omega)
  rw [codexDelta, hinput, hread, houtput, hfresh]

theorem usageSince_append {first later : List CodexTokenUsageCounters}
    (h : NonDecreasing (first ++ later)) :
    usageSince {} (first ++ later) =
      usageSince {} first + usageSince (first.getLast?.getD {}) later := by
  cases hfirst : first.getLast? with
  | none =>
    rw [List.getLast?_eq_none_iff.mp hfirst]
    exact (zero_add _).symm
  | some c =>
    cases hlater : later.getLast? with
    | none =>
      rw [List.getLast?_eq_none_iff.mp hlater, List.append_nil]
      exact (add_zero _).symm
    | some d =>
      have hcmem := List.mem_of_getLast? hfirst
      have hdmem := List.mem_of_getLast? hlater
      have hc := h.1 c (List.mem_append_left _ hcmem)
      have hd := h.1 d (List.mem_append_right _ hdmem)
      have hle := (List.pairwise_append.mp h.2).2.2 c hcmem d hdmem
      have hzero : ({} : CodexTokenUsageCounters).InRange := by
        refine ⟨?_, ?_, ?_⟩ <;> exact ⟨Int.le_refl 0, by decide⟩
      have hzeroLe : ∀ {e : CodexTokenUsageCounters}, e.InRange →
          ({} : CodexTokenUsageCounters).Le e := fun he => ⟨he.input.1, he.cached.1, he.output.1⟩
      have hlast : (first ++ later).getLast? = some d := by
        rw [List.getLast?_append, hlater]
        rfl
      rw [usageSince, usageSince, usageSince, hlast, hfirst, hlater, Option.getD_some]
      simp only
      rw [codexDelta_eq hzero hd (hzeroLe hd), codexDelta_eq hzero hc (hzeroLe hc),
        codexDelta_eq hc hd hle, List.length_append]
      ext
      · show _ = _ + _
        simp only
        omega
      · rfl
      · show _ = _ + _
        simp only
        omega
      · show _ = _ + _
        simp only
        omega
      · exact Int.natCast_add ..

theorem encode_append (front rest : List Char) :
    encode (front ++ rest) = encode front ++ encode rest := List.flatMap_append

/-- Codex's usage adds up exactly when the reported position comes after the counts of the
beginning and before all later ones. -/
theorem codex_adds_iff {front rest : List Char} (hfront : EndsLine '\n' front)
    (h : NonDecreasing (counters reader (textLines (front ++ rest)))) :
    Adds (codex reader) (encode front) (encode rest) ↔
      (counters reader ((textLines (front ++ rest)).take
        (transcriptPositionFromBytes reader (encode front)))).length =
          (counters reader (textLines front)).length := by
  generalize hposition : transcriptPositionFromBytes reader (encode front) = position
  have hsplit := List.take_append_drop position (textLines (front ++ rest))
  have hcounts : counters reader ((textLines (front ++ rest)).take position) ++
      counters reader ((textLines (front ++ rest)).drop position) =
        counters reader (textLines front) ++ counters reader (textLines rest) := by
    rw [counters, counters, ← List.filterMap_append, hsplit, textLines_append hfront,
      List.filterMap_append]
    rfl
  have hwhole : counters reader (textLines (front ++ rest)) =
      counters reader (textLines front) ++ counters reader (textLines rest) := by
    rw [textLines_append hfront, counters, List.filterMap_append]
    rfl
  have husage : ∀ text k, (codex reader).usage (encode text) k =
      some (usageSince ((counters reader ((textLines text).take k)).getLast?.getD {})
        (counters reader ((textLines text).drop k))) := by
    intro text k
    rw [← codexUsage_eq]
    exact congrArg (Option.map _) (fromUtf8_encode text)
  rw [@adds_iff (codex reader) _ _ _ _ _ _ (congrArg some hposition)
    (encode_append front rest ▸ husage _ 0) (husage _ 0) (encode_append front rest ▸ husage _ _)]
  simp only [List.take_zero, List.drop_zero]
  constructor
  · intro hsum
    have hcalls := congrArg TokenUsage.apiCallCount hsum
    have hadd : ∀ a b : TokenUsage, (a + b).apiCallCount = a.apiCallCount + b.apiCallCount :=
      fun _ _ => rfl
    rw [hadd, apiCallCount_usageSince, apiCallCount_usageSince, apiCallCount_usageSince, hwhole,
      ← hcounts] at hcalls
    rw [List.length_append] at hcalls
    omega
  · intro hlength
    obtain ⟨hfirst, hlater⟩ := List.append_inj hcounts hlength
    rw [hfirst, hlater, hwhole]
    exact usageSince_append (hwhole ▸ h)

/-- A transcript of lines has their number as its position. -/
theorem codex_adds {front rest : List Char} (hfront : EndsLine '\n' front)
    (h : NonDecreasing (counters reader (textLines (front ++ rest))))
    (hlines : structuredMessageCount reader (encode front) = none) :
    Adds (codex reader) (encode front) (encode rest) := by
  have hposition : transcriptPositionFromBytes reader (encode front) =
      (textLines front).length := by
    rw [transcriptPositionFromBytes, hlines, decode_encode, ← length_textLines]
    split_ifs with hnil
    · have hdecode := decode_encode front
      rw [hnil] at hdecode
      rw [← hdecode]
      rfl
    · rfl
  rw [codex_adds_iff hfront h, hposition, textLines_append hfront, List.take_left]

end Codex

/-! ## Copilot -/

section Copilot

variable {reader : CopilotReader}

/-- The event of a line. -/
def lineEvent (reader : CopilotReader) (line : List Char) : Option CopilotEvent :=
  if trim line = [] then none else reader.event line

theorem foldl_eventStep (startOffset : ℕ) (lines : List (List Char))
    (state : List CopilotEvent × ℕ) :
    lines.foldl (eventStep reader startOffset) state =
      (state.1 ++ (lines.drop (startOffset - state.2)).filterMap (lineEvent reader),
        state.2 + lines.length) := by
  induction lines generalizing state with
  | nil => simp
  | cons line lines ih =>
    obtain ⟨events, count⟩ := state
    have hcount : count + (line :: lines).length = count + 1 + lines.length := by
      rw [List.length_cons]
      omega
    rw [List.foldl_cons, ih, hcount]
    rcases Nat.lt_or_ge count startOffset with hlt | hge
    · obtain ⟨d, rfl⟩ := Nat.exists_eq_add_of_lt hlt
      have hskip : count + 1 ≤ count + d + 1 ∨ trim line = [] := Or.inl (by omega)
      have hlater : count + d + 1 - (count + 1) = d := by omega
      have hdrop : count + d + 1 - count = d + 1 := by omega
      simp only [eventStep, if_pos hskip, hlater, hdrop, List.drop_succ_cons]
    · have hlater : startOffset - (count + 1) = 0 := by omega
      have hdrop : startOffset - count = 0 := by omega
      have hskip : count + 1 ≤ startOffset ∨ trim line = [] ↔ trim line = [] := by
        rw [or_iff_right]
        omega
      simp only [eventStep, hskip]
      by_cases hblank : trim line = []
      · simp only [if_pos hblank, hlater, hdrop, List.drop_zero, List.filterMap_cons, lineEvent]
      · simp only [if_neg hblank, hdrop, List.drop_zero, List.filterMap_cons, lineEvent]
        cases reader.event line with
        | none => simp only [hlater, List.drop_zero]
        | some event => simp only [hlater, List.drop_zero, List.append_assoc, List.singleton_append]

theorem parseEventsFromOffset_eq (text : List Char) (startOffset : ℕ) :
    parseEventsFromOffset reader text startOffset =
      (((textLines text).drop startOffset).filterMap (lineEvent reader),
        (textLines text).length) := by
  rw [parseEventsFromOffset, foldl_eventStep, List.nil_append, Nat.sub_zero, Nat.zero_add]

def textEvents (reader : CopilotReader) (text : List Char) : List CopilotEvent :=
  (textLines text).filterMap (lineEvent reader)

/-- The metrics of the last shutdown. -/
def lastShutdown (reader : CopilotReader) (events : List CopilotEvent) :
    Option (List ModelMetric) :=
  events.reverse.findSome? (shutdownMetrics reader)

theorem lastShutdown_append (first later : List CopilotEvent) :
    lastShutdown reader (first ++ later) =
      (lastShutdown reader later).or (lastShutdown reader first) := by
  rw [lastShutdown, List.reverse_append, List.findSome?_append]
  rfl

def metricUsage (metric : ModelMetric) : TokenUsage where
  inputTokens := metric.inputTokens
  outputTokens := metric.outputTokens
  cacheReadTokens := metric.cacheReadTokens
  cacheCreationTokens := metric.cacheWriteTokens
  apiCallCount := metric.requestCount

def outputUsage (outputTokens : ℤ) : TokenUsage where
  outputTokens := outputTokens
  apiCallCount := if outputTokens > 0 then 1 else 0

theorem addMetric_eq (usage : TokenUsage) (metric : ModelMetric) :
    addMetric usage metric = usage + metricUsage metric := rfl

theorem addOutput_eq (usage : TokenUsage) (outputTokens : ℤ) :
    addOutput usage outputTokens = usage + outputUsage outputTokens := by
  ext
  · exact (Int.add_zero _).symm
  · exact (Int.add_zero _).symm
  · exact (Int.add_zero _).symm
  · rfl
  · show (if _ then _ else _) = _ + (if _ then _ else _)
    split_ifs
    · rfl
    · exact (Int.add_zero _).symm

theorem copilotUsage_eq (events : List CopilotEvent) :
    copilotUsage reader events =
      match lastShutdown reader events with
      | some metrics => (metrics.map metricUsage).sum
      | none => ((events.filterMap (assistantOutput reader)).map outputUsage).sum := by
  rw [copilotUsage, ← lastShutdown]
  cases lastShutdown reader events with
  | none => exact (foldl_add addOutput_eq _ _).trans (zero_add _)
  | some metrics => exact (foldl_add addMetric_eq _ _).trans (zero_add _)

structure TokenUsage.NonNegative (usage : TokenUsage) : Prop where
  input : 0 ≤ usage.inputTokens
  creation : 0 ≤ usage.cacheCreationTokens
  read : 0 ≤ usage.cacheReadTokens
  output : 0 ≤ usage.outputTokens
  calls : 0 ≤ usage.apiCallCount

theorem TokenUsage.NonNegative.add_eq_zero_iff {a b : TokenUsage} (ha : a.NonNegative)
    (hb : b.NonNegative) : a + b = 0 ↔ a = 0 ∧ b = 0 := by
  obtain ⟨_, _, _, _, _⟩ := ha
  obtain ⟨_, _, _, _, _⟩ := hb
  rw [TokenUsage.ext_iff, TokenUsage.ext_iff, TokenUsage.ext_iff]
  change (_ + _ = (0 : ℤ) ∧ _ + _ = (0 : ℤ) ∧ _ + _ = (0 : ℤ) ∧ _ + _ = (0 : ℤ) ∧
    _ + _ = (0 : ℤ)) ↔ (_ = (0 : ℤ) ∧ _ = (0 : ℤ) ∧ _ = (0 : ℤ) ∧ _ = (0 : ℤ) ∧ _ = (0 : ℤ)) ∧
      _ = (0 : ℤ) ∧ _ = (0 : ℤ) ∧ _ = (0 : ℤ) ∧ _ = (0 : ℤ) ∧ _ = (0 : ℤ)
  omega

/-- Usages that are not negative add up to nothing only if each of them is nothing. -/
theorem sum_eq_zero_iff {usages : List TokenUsage} (h : ∀ usage ∈ usages, usage.NonNegative) :
    usages.sum.NonNegative ∧ (usages.sum = 0 ↔ ∀ usage ∈ usages, usage = 0) := by
  induction usages with
  | nil =>
    refine ⟨?_, iff_of_true rfl fun _ hmem => absurd hmem List.not_mem_nil⟩
    constructor <;> exact Int.le_refl 0
  | cons usage usages ih =>
    obtain ⟨hsum, hzero⟩ := ih fun other hother => h other (List.mem_cons_of_mem _ hother)
    have husage := h usage List.mem_cons_self
    rw [List.sum_cons, List.forall_mem_cons, husage.add_eq_zero_iff hsum, hzero]
    refine ⟨?_, Iff.rfl⟩
    exact ⟨Int.add_nonneg husage.input hsum.input, Int.add_nonneg husage.creation hsum.creation,
      Int.add_nonneg husage.read hsum.read, Int.add_nonneg husage.output hsum.output,
      Int.add_nonneg husage.calls hsum.calls⟩

/-- The counts of the events are not negative. -/
def NonNegativeCounts (reader : CopilotReader) (events : List CopilotEvent) : Prop :=
  ∀ event ∈ events,
    (∀ metrics ∈ shutdownMetrics reader event, ∀ metric ∈ metrics,
      (metricUsage metric).NonNegative) ∧
      ∀ outputTokens ∈ assistantOutput reader event, 0 ≤ outputTokens

/-- The events count nothing: no metric of the last shutdown, and without one no message. -/
def Silent (reader : CopilotReader) (events : List CopilotEvent) : Prop :=
  match lastShutdown reader events with
  | some metrics => ∀ metric ∈ metrics, metricUsage metric = 0
  | none => ∀ outputTokens ∈ events.filterMap (assistantOutput reader), outputTokens = 0

theorem outputUsage_nonNegative {outputTokens : ℤ} (h : 0 ≤ outputTokens) :
    (outputUsage outputTokens).NonNegative := by
  refine ⟨Int.le_refl 0, Int.le_refl 0, Int.le_refl 0, h, ?_⟩
  show 0 ≤ (if _ then (1 : ℤ) else 0)
  split_ifs <;> decide

theorem outputUsage_eq_zero_iff {outputTokens : ℤ} : outputUsage outputTokens = 0 ↔
    outputTokens = 0 := by
  constructor
  · exact congrArg TokenUsage.outputTokens
  · rintro rfl
    rfl

theorem copilotUsage_eq_zero_iff {events : List CopilotEvent}
    (h : NonNegativeCounts reader events) : copilotUsage reader events = 0 ↔
      Silent reader events := by
  rw [copilotUsage_eq, Silent]
  cases hlast : lastShutdown reader events with
  | none =>
    simp only
    rw [(sum_eq_zero_iff ?_).2, List.forall_mem_map]
    · simp only [outputUsage_eq_zero_iff]
    · rw [List.forall_mem_map]
      intro outputTokens hmem
      obtain ⟨event, hevent, houtput⟩ := List.mem_filterMap.mp hmem
      exact outputUsage_nonNegative ((h event hevent).2 outputTokens houtput)
  | some metrics =>
    simp only
    rw [(sum_eq_zero_iff ?_).2, List.forall_mem_map]
    rw [List.forall_mem_map]
    obtain ⟨event, hevent, hmetrics⟩ := List.exists_of_findSome?_eq_some hlast
    exact (h event (List.mem_reverse.mp hevent)).1 metrics hmetrics

/-- Nothing is counted twice: what a shutdown replaces is silent. -/
def CountedOnce (reader : CopilotReader) (first later : List CopilotEvent) : Prop :=
  match lastShutdown reader later, lastShutdown reader first with
  | some _, _ => Silent reader first
  | none, some _ => Silent reader later
  | none, none => True

theorem copilotUsage_append_iff {first later : List CopilotEvent}
    (h : NonNegativeCounts reader (first ++ later)) :
    copilotUsage reader (first ++ later) = copilotUsage reader first + copilotUsage reader later ↔
      CountedOnce reader first later := by
  have hfirst : NonNegativeCounts reader first := fun e he => h e (List.mem_append_left _ he)
  have hlater : NonNegativeCounts reader later := fun e he => h e (List.mem_append_right _ he)
  have hwhole := @copilotUsage_eq reader (first ++ later)
  rw [lastShutdown_append] at hwhole
  rw [CountedOnce]
  cases hlast : lastShutdown reader later with
  | some metrics =>
    have heq := @copilotUsage_eq reader later
    rw [hlast] at hwhole heq
    rw [hwhole.trans heq.symm, right_eq_add]
    exact copilotUsage_eq_zero_iff hfirst
  | none =>
    cases hold : lastShutdown reader first with
    | some metrics =>
      have heq := @copilotUsage_eq reader first
      rw [hlast, hold] at hwhole
      rw [hold] at heq
      rw [hwhole.trans heq.symm, left_eq_add]
      exact copilotUsage_eq_zero_iff hlater
    | none =>
      rw [hlast, hold] at hwhole
      refine iff_of_true ?_ trivial
      rw [hwhole, copilotUsage_eq, copilotUsage_eq, hlast, hold]
      simp only [Option.or, List.filterMap_append, List.map_append, List.sum_append]

theorem copilot_adds_iff {front rest : List Char} (hfront : EndsLine '\n' front)
    (h : NonNegativeCounts reader (textEvents reader (front ++ rest))) :
    Adds (copilot reader) (encode front) (encode rest) ↔
      CountedOnce reader (textEvents reader front) (textEvents reader rest) := by
  have husage : ∀ text k, (copilot reader).usage (encode text) k =
      some (copilotUsage reader (((textLines text).drop k).filterMap (lineEvent reader))) := by
    intro text k
    refine (congrArg (Option.map _) (fromUtf8_encode text)).trans ?_
    rw [Option.map_some, parseEventsFromOffset_eq]
  have hposition : (copilot reader).position (encode front) = some (textLines front).length := by
    have htext := fromUtf8_encode front
    rw [copilot]
    simp only
    split_ifs with hnil
    · rw [hnil] at htext
      rw [← Option.some.inj htext]
      rfl
    · rw [htext, Option.map_some, parseEventsFromOffset_eq]
  rw [adds_iff hposition (encode_append front rest ▸ husage _ 0) (husage _ 0)
    (encode_append front rest ▸ husage _ _)]
  rw [textEvents, textLines_append hfront, List.filterMap_append] at h
  rw [textLines_append hfront, List.drop_zero, List.drop_zero, List.drop_left,
    List.filterMap_append]
  exact copilotUsage_append_iff h

end Copilot

/-! ## Gemini -/

section Gemini

variable {D : Type} {codec : GeminiCodec D}

/-- The messages of a part after those of another one. -/
def afterMessages (first later : JsonlState D) : JsonlState D where
  messages := first.messages ++ later.messages
  idIndex := first.idIndex ++
    later.idIndex.map fun entry => (entry.1, first.messages.length + entry.2)

/-- A message with another id leaves the earlier ones alone. -/
theorem upsertMessage_afterMessages {first later : JsonlState D} {msg : GeminiMessage D}
    (h : msg.id ≠ "" → msg.id ∉ first.idIndex.map Prod.fst) :
    upsertMessage (afterMessages first later) msg =
      afterMessages first (upsertMessage later msg) := by
  by_cases hid : msg.id = ""
  · rw [upsertMessage, upsertMessage, if_pos hid, if_pos hid]
    simp [afterMessages]
  · have hlookup : (afterMessages first later).idIndex.lookup msg.id =
        (later.idIndex.lookup msg.id).map (first.messages.length + ·) := by
      rw [afterMessages, lookup_append_of_notMem (h hid)]
      exact lookup_map _ _
    rw [upsertMessage, upsertMessage, if_neg hid, if_neg hid, hlookup]
    cases later.idIndex.lookup msg.id with
    | none => simp [afterMessages]
    | some idx =>
      simp only [Option.map_some]
      rw [afterMessages, afterMessages, List.set_append_right _ _ (Nat.le_add_right _ _),
        Nat.add_sub_cancel_left]

theorem foldl_upsertMessage_afterMessages {first later : JsonlState D}
    {msgs : List (GeminiMessage D)}
    (h : ∀ msg ∈ msgs, msg.id ≠ "" → msg.id ∉ first.idIndex.map Prod.fst) :
    msgs.foldl upsertMessage (afterMessages first later) =
      afterMessages first (msgs.foldl upsertMessage later) := by
  induction msgs generalizing later with
  | nil => rfl
  | cons msg msgs ih =>
    rw [List.foldl_cons, upsertMessage_afterMessages (h msg List.mem_cons_self),
      ih fun other hother => h other (List.mem_cons_of_mem _ hother), List.foldl_cons]

theorem mem_ids_foldl_upsertMessage {msgs : List (GeminiMessage D)} {state : JsonlState D}
    {id : String} (h : id ∈ (msgs.foldl upsertMessage state).idIndex.map Prod.fst) :
    id ∈ state.idIndex.map Prod.fst ∨ ∃ msg ∈ msgs, msg.id = id := by
  induction msgs generalizing state with
  | nil => exact Or.inl h
  | cons msg msgs ih =>
    rcases ih h with hkey | ⟨other, hother, heq⟩
    · rw [upsertMessage] at hkey
      split_ifs at hkey
      · exact Or.inl hkey
      · split at hkey
        · exact Or.inl hkey
        · rw [List.map_append, List.mem_append] at hkey
          refine hkey.imp_right fun hlast => ⟨msg, List.mem_cons_self, ?_⟩
          simpa [eq_comm] using hlast
    · exact Or.inr ⟨other, List.mem_cons_of_mem _ hother, heq⟩

/-- The messages of the lines, each as it was first written. -/
def lineMessages (codec : GeminiCodec D) (text : List Char) : List (GeminiMessage D) :=
  (textLines text).filterMap (lineMessage codec)

def jsonlMessages (codec : GeminiCodec D) (text : List Char) : List (GeminiMessage D) :=
  ((lineMessages codec text).foldl upsertMessage {}).messages

theorem parseTranscriptJsonl_encode (text : List Char) :
    parseTranscriptJsonl codec (encode text) = some (jsonlMessages codec text) := by
  rw [parseTranscriptJsonl, fromUtf8_encode]
  rfl

/-- No message of the one part is written again in the other. -/
def DisjointMessages (codec : GeminiCodec D) (front rest : List Char) : Prop :=
  ∀ msg ∈ lineMessages codec front, ∀ later ∈ lineMessages codec rest,
    later.id ≠ "" → msg.id ≠ later.id

theorem jsonlMessages_append {front rest : List Char} (hfront : EndsLine '\n' front)
    (h : DisjointMessages codec front rest) :
    jsonlMessages codec (front ++ rest) =
      jsonlMessages codec front ++ jsonlMessages codec rest := by
  have hfold := @foldl_upsertMessage_afterMessages _
    ((lineMessages codec front).foldl upsertMessage {}) {}
    (lineMessages codec rest) fun later hlater hid hkey => by
      rcases mem_ids_foldl_upsertMessage hkey with hnil | ⟨msg, hmsg, heq⟩
      · exact absurd hnil List.not_mem_nil
      · exact h msg hmsg later hlater hid heq
  have hstart : ∀ state : JsonlState D, afterMessages state {} = state := by
    intro state
    simp [afterMessages]
  rw [hstart] at hfold
  rw [jsonlMessages, lineMessages, textLines_append hfront, List.filterMap_append,
    List.foldl_append, ← lineMessages, ← lineMessages, hfold]
  rfl

/-! ### One JSON value -/

/-- White space may stand before a value, and nothing else after the line that it ends on. -/
structure ReadsValues (value : List Char → Option JsonValue) : Prop where
  space : ∀ c text, jsonSpace c = true → value (c :: text) = value text
  line : ∀ line rest v, '\n' ∉ line → value line = some v →
    value (line ++ '\n' :: rest) = if rest.all jsonSpace then some v else none

/-- Each line is a JSON value, or white space. -/
def ValidLines (codec : GeminiCodec D) (text : List Char) : Prop :=
  ∀ line ∈ text.splitOn '\n', line.all jsonSpace = true ∨ (codec.value line).isSome = true

theorem value_append_of_space (h : ReadsValues codec.value) {blank : List Char}
    (hblank : blank.all jsonSpace = true) (text : List Char) :
    codec.value (blank ++ text) = codec.value text := by
  induction blank with
  | nil => rfl
  | cons c blank ih =>
    rw [List.all_cons, Bool.and_eq_true] at hblank
    rw [List.cons_append, h.space _ _ hblank.1, ih hblank.2]

/-- What is a value with the rest of the transcript is that value without it. -/
theorem value_front (h : ReadsValues codec.value) {front rest : List Char} {v : JsonValue}
    (hfront : EndsLine '\n' front) (hlines : ValidLines codec front)
    (hblank : front.all jsonSpace = false) (hvalue : codec.value (front ++ rest) = some v) :
    codec.value front = some v := by
  induction front using line_induction '\n' with
  | last front hnotMem =>
    rcases hfront with rfl | hlast
    · exact nomatch hblank
    · exact absurd (List.mem_of_getLast? hlast) hnotMem
  | line body later hbody ih =>
    rw [ValidLines, List.splitOn_append_cons_self_of_not_mem hbody, List.forall_mem_cons] at hlines
    rw [List.append_assoc, List.cons_append] at hvalue
    rcases hlines.1 with hspace | hsome
    · have hskip : ∀ text, codec.value (body ++ '\n' :: text) = codec.value text := by
        intro text
        rw [value_append_of_space h hspace, h.space _ _ rfl]
      rw [hskip] at hvalue ⊢
      refine ih ?_ hlines.2 ?_ hvalue
      · rcases hfront with hnil | hlast
        · exact absurd hnil (by simp)
        · rw [List.getLast?_append_cons, List.getLast?_cons] at hlast
          cases hlater : later.getLast? with
          | none => exact Or.inl (List.getLast?_eq_none_iff.mp hlater)
          | some c =>
            rw [hlater] at hlast
            exact Or.inr (hlater.trans hlast)
      · rw [List.all_append, hspace, List.all_cons] at hblank
        exact hblank
    · obtain ⟨w, hw⟩ := Option.isSome_iff_exists.mp hsome
      rw [h.line _ _ w hbody hw] at hvalue ⊢
      split_ifs at hvalue with hrest
      rw [List.all_append, Bool.and_eq_true] at hrest
      rw [if_pos hrest.1]
      exact hvalue

theorem isWhitespace_of_jsonSpace {c : Char} (h : jsonSpace c = true) :
    LanguageAdapter.isWhitespace c = true := by
  rw [jsonSpace, Bool.or_eq_true, Bool.or_eq_true, Bool.or_eq_true, decide_eq_true_eq,
    decide_eq_true_eq, decide_eq_true_eq, decide_eq_true_eq] at h
  rcases h with ((rfl | rfl) | rfl) | rfl <;> rfl

theorem textLinesFrom_of_space {current text : List Char} (hcurrent : current.all jsonSpace = true)
    (htext : text.all jsonSpace = true) :
    ∀ line ∈ textLinesFrom current text, line.all jsonSpace = true := by
  have hstrip : ∀ line : List Char, line.all jsonSpace = true →
      (stripReturn line).all jsonSpace = true := by
    intro line hline
    rw [stripReturn]
    split_ifs
    · exact List.all_eq_true.mpr fun c hc =>
        List.all_eq_true.mp hline c (List.dropLast_subset line hc)
    · exact hline
  induction text generalizing current with
  | nil =>
    rw [textLinesFrom]
    split_ifs
    · exact fun _ hline => absurd hline List.not_mem_nil
    · exact fun line hline => List.mem_singleton.mp hline ▸ hcurrent
  | cons c text ih =>
    rw [List.all_cons, Bool.and_eq_true] at htext
    rw [textLinesFrom]
    split_ifs
    · rw [List.forall_mem_cons]
      exact ⟨hstrip current hcurrent, ih rfl htext.2⟩
    · refine ih ?_ htext.2
      rw [List.all_append, hcurrent, List.all_cons, htext.1]
      rfl

theorem lineMessages_of_space {text : List Char} (h : text.all jsonSpace = true) :
    lineMessages codec text = [] := by
  rw [lineMessages, List.filterMap_eq_nil_iff]
  intro line hline
  have hspace := @textLinesFrom_of_space [] _ rfl h line hline
  have htrim : trim line = [] := by
    have hdrop : line.dropWhile LanguageAdapter.isWhitespace = [] :=
      List.dropWhile_eq_nil_iff.mpr fun c hc =>
        isWhitespace_of_jsonSpace (List.all_eq_true.mp hspace c hc)
    rw [LanguageAdapter.trim, hdrop]
    rfl
  rw [lineMessage, if_pos htrim]

/-! ### Adding up -/

/-- The beginning has messages on lines, and is no document itself. -/
def ReadByLines (codec : GeminiCodec D) (front : List Char) : Prop :=
  jsonlMessages codec front ≠ [] ∧ declaresMessages codec (encode front) = false

theorem encode_eq_nil {text : List Char} : encode text = [] ↔ text = [] := by
  constructor
  · intro h
    rw [← decode_encode text, h]
    rfl
  · rintro rfl
    rfl

theorem parseTranscript_of_readByLines {front : List Char} (h : ReadByLines codec front) :
    parseTranscript codec (encode front) = some (jsonlMessages codec front) := by
  have hne : encode front ≠ [] := by
    intro hnil
    rw [encode_eq_nil] at hnil
    exact h.1 (hnil ▸ rfl)
  obtain ⟨msg, messages, hmessages⟩ := List.exists_cons_of_ne_nil h.1
  rw [parseTranscript, if_neg hne, h.2, parseTranscriptJsonl_encode, hmessages]
  rfl

/-- More lines do not make a document of it. -/
theorem ReadByLines.append {front rest : List Char} (h : ReadByLines codec front)
    (hvalues : ReadsValues codec.value) (hfront : EndsLine '\n' front)
    (hlines : ValidLines codec (front ++ rest)) (hdisjoint : DisjointMessages codec front rest) :
    ReadByLines codec (front ++ rest) := by
  refine ⟨?_, ?_⟩
  · rw [jsonlMessages_append hfront hdisjoint]
    exact List.append_ne_nil_of_left_ne_nil h.1 _
  · have hblank : front.all jsonSpace = false := by
      by_contra hspace
      rw [Bool.not_eq_false] at hspace
      refine h.1 ?_
      rw [jsonlMessages, lineMessages_of_space hspace]
      rfl
    have hvalid : ValidLines codec front := by
      rcases hfront with rfl | hlast
      · exact nomatch hblank
      · obtain ⟨body, rfl⟩ := List.getLast?_eq_some_iff.mp hlast
        rw [ValidLines, List.append_assoc, List.singleton_append,
          List.splitOn_append_cons_self] at hlines
        rw [ValidLines, List.splitOn_append_cons_self]
        intro line hline
        rcases List.mem_append.mp hline with hbody | hend
        · exact hlines line (List.mem_append_left _ hbody)
        · rw [List.splitOn_nil, List.mem_singleton] at hend
          exact Or.inl (hend ▸ rfl)
    have hdeclares := h.2
    rw [declaresMessages, fromUtf8_encode, Option.bind_some] at hdeclares ⊢
    cases hvalue : codec.value (front ++ rest) with
    | none => rfl
    | some v =>
      rw [value_front hvalues hfront hvalid hblank hvalue] at hdeclares
      exact hdeclares

/-- The beginning is read by its lines, or as a document whose messages have the tokens of the first
messages of the transcript; a header alone is a document without messages. -/
def Continues (codec : GeminiCodec D) (front rest : List Char) : Prop :=
  ReadByLines codec front ∨
    ¬ ReadByLines codec front ∧
      ∃ messages, parseTranscript codec (encode front) = some messages ∧
        (messages = [] ∨ geminiUsage messages = geminiUsage
          (((parseTranscript codec (encode (front ++ rest))).getD []).take messages.length))

def tokensUsage (tokens : GeminiMessageTokens) : TokenUsage where
  inputTokens := tokens.input
  outputTokens := tokens.output
  cacheReadTokens := tokens.cached
  apiCallCount := 1

theorem geminiUsage_append (first later : List (GeminiMessage D)) :
    geminiUsage (first ++ later) = geminiUsage first + geminiUsage later := by
  have hstep : ∀ (usage : TokenUsage) (tokens : GeminiMessageTokens),
      addGeminiTokens usage tokens = usage + tokensUsage tokens := by
    intro usage tokens
    ext
    · rfl
    · exact (Int.add_zero _).symm
    · rfl
    · rfl
    · rfl
  rw [geminiUsage, geminiUsage, geminiUsage, foldl_add hstep, foldl_add hstep, foldl_add hstep,
    ← TokenUsage.zero_def, zero_add, zero_add, zero_add, List.filterMap_append, List.map_append,
    List.sum_append]

theorem gemini_usage (data : List UInt8) (k : ℕ) :
    (gemini codec).usage data k =
      some (geminiUsage (((parseTranscript codec data).getD []).drop k)) := by
  rw [gemini]
  simp only
  cases parseTranscript codec data with
  | none => rw [Option.getD_none, List.drop_nil]; rfl
  | some messages => rfl

theorem gemini_position (data : List UInt8) :
    (gemini codec).position data = (parseTranscript codec data).map List.length := by
  rw [gemini]
  simp only
  split_ifs with hnil
  · rw [parseTranscript, if_pos hnil]
    rfl
  · rfl

/-- Gemini's usage adds up exactly when the beginning `Continues` to the transcript. -/
theorem gemini_adds_iff {front rest : List Char} (hvalues : ReadsValues codec.value)
    (hfront : EndsLine '\n' front) (hlines : ValidLines codec (front ++ rest))
    (hdisjoint : DisjointMessages codec front rest) :
    Adds (gemini codec) (encode front) (encode rest) ↔ Continues codec front rest := by
  have hadds : ∀ messages, parseTranscript codec (encode front) = some messages →
      (Adds (gemini codec) (encode front) (encode rest) ↔
        geminiUsage messages = geminiUsage
          (((parseTranscript codec (encode (front ++ rest))).getD []).take messages.length)) := by
    intro messages hparse
    have hposition : (gemini codec).position (encode front) = some messages.length := by
      rw [gemini_position, hparse, Option.map_some]
    rw [adds_iff hposition (gemini_usage _ _) (gemini_usage _ _) (gemini_usage _ _),
      ← encode_append, List.drop_zero, List.drop_zero, hparse, Option.getD_some]
    generalize ((parseTranscript codec (encode (front ++ rest))).getD []) = whole
    have hsplit := geminiUsage_append (whole.take messages.length) (whole.drop messages.length)
    rw [List.take_append_drop] at hsplit
    rw [hsplit, add_left_inj]
    exact eq_comm
  by_cases hread : ReadByLines codec front
  · refine iff_of_true ?_ (Or.inl hread)
    have happend := hread.append hvalues hfront hlines hdisjoint
    rw [hadds _ (parseTranscript_of_readByLines hread), parseTranscript_of_readByLines happend,
      Option.getD_some, jsonlMessages_append hfront hdisjoint, List.take_left]
  · rw [Continues, or_iff_right hread, and_iff_right hread]
    constructor
    · intro h
      obtain ⟨position, -, -, -, hposition, -⟩ := id h
      rw [gemini_position] at hposition
      obtain ⟨messages, hparse, -⟩ := Option.map_eq_some_iff.mp hposition
      exact ⟨messages, hparse, Or.inr ((hadds messages hparse).mp h)⟩
    · rintro ⟨messages, hparse, h⟩
      refine (hadds messages hparse).mpr ?_
      rcases h with rfl | h
      · rfl
      · exact h

end Gemini

/-! ## OpenCode -/

section OpenCode

variable {message : List UInt8 → Option OpenCodeMessage}

theorem parseMessages_append {front : List UInt8} (hfront : EndsLine newline front)
    (rest : List UInt8) :
    parseMessages message (front ++ rest) = parseMessages message front ++
      parseMessages message rest := by
  have hparse : ∀ data, parseMessages message data =
      (data.splitOn newline).filterMap fun line =>
        if line.all isAsciiWhitespace then none else message line := by
    intro data
    rw [parseMessages]
    split_ifs with hnil
    · rw [hnil]
      rfl
    · rfl
  rcases hfront with rfl | hlast
  · rfl
  · obtain ⟨body, rfl⟩ := List.getLast?_eq_some_iff.mp hlast
    rw [hparse, hparse (body ++ [newline]), hparse rest, List.append_assoc, List.singleton_append,
      List.splitOn_append_cons_self, List.splitOn_append_cons_self, List.filterMap_append,
      List.filterMap_append, List.splitOn_nil]
    simp

def messageTokensUsage (tokens : MessageTokens) : TokenUsage where
  inputTokens := tokens.input
  outputTokens := tokens.output
  cacheReadTokens := tokens.cacheRead
  cacheCreationTokens := tokens.cacheWrite
  apiCallCount := 1

theorem openCode_adds {front : List UInt8} (hfront : EndsLine newline front) (rest : List UInt8) :
    Adds (openCode message) front rest := by
  have hstep : ∀ (usage : TokenUsage) (tokens : MessageTokens),
      addMessageTokens usage tokens = usage + messageTokensUsage tokens := fun _ _ => rfl
  refine ⟨_, _, _, _, rfl, rfl, rfl, rfl, ?_⟩
  rw [parseMessages_append hfront, List.drop_zero, List.drop_zero, List.drop_left,
    List.filterMap_append, foldl_add hstep, foldl_add hstep, foldl_add hstep,
    ← TokenUsage.zero_def, zero_add, zero_add, zero_add, List.map_append, List.sum_append]

end OpenCode

/-! ## All agents -/

/-- At a cut between lines, with no message on both sides and no count that is negative or goes
back: Claude and OpenCode always add up, Codex, Copilot and Gemini under their conditions.  Turns
that all add up are the session. -/
theorem usage_over_turns {D : Type} (claudeReader : ClaudeReader) (codexReader : CodexReader)
    (copilotReader : CopilotReader) (codec : GeminiCodec D)
    (message : List UInt8 → Option OpenCodeMessage) :
    (∀ front rest, EndsLine newline front →
      DisjointIds claudeReader (fileLines claudeReader front) (fileLines claudeReader rest) →
        Adds (claude claudeReader) front rest) ∧
    (∀ front rest, EndsLine '\n' front →
      NonDecreasing (counters codexReader (textLines (front ++ rest))) →
        (Adds (codex codexReader) (encode front) (encode rest) ↔
          (counters codexReader ((textLines (front ++ rest)).take
            (transcriptPositionFromBytes codexReader (encode front)))).length =
              (counters codexReader (textLines front)).length)) ∧
    (∀ front rest, EndsLine '\n' front →
      NonNegativeCounts copilotReader (textEvents copilotReader (front ++ rest)) →
        (Adds (copilot copilotReader) (encode front) (encode rest) ↔
          CountedOnce copilotReader (textEvents copilotReader front)
            (textEvents copilotReader rest))) ∧
    (ReadsValues codec.value → ∀ front rest, EndsLine '\n' front →
      ValidLines codec (front ++ rest) → DisjointMessages codec front rest →
        (Adds (gemini codec) (encode front) (encode rest) ↔ Continues codec front rest)) ∧
    (∀ front rest, EndsLine newline front → Adds (openCode message) front rest) ∧
    ∀ (calculator : TokenCalculator) (front : List UInt8) (turns : List (List UInt8))
      (first : TokenUsage), calculator.usage front 0 = some first →
        AddsTurns calculator front turns →
          ∃ usage, turnsUsage calculator front turns = some usage ∧
            calculator.usage (front ++ turns.flatten) 0 = some (first + usage) :=
  ⟨fun _ _ => claude_adds, fun _ _ => codex_adds_iff, fun _ _ => copilot_adds_iff,
    fun hvalues _ _ => gemini_adds_iff hvalues, fun _ rest hfront => openCode_adds hfront rest,
    fun _ _ _ _ => turnsUsage_of_addsTurns⟩

/-! ## A session that is shut down -/

def messageText : List Char :=
  "\x7b\"type\":\"assistant.message\",\"data\":\x7b\"outputTokens\":9\x7d\x7d".toList

def shutdownText : List Char :=
  "\x7b\"type\":\"session.shutdown\",\"data\":\x7b\"modelMetrics\":".toList ++
    "[\x7b\"usage\":\x7b\"outputTokens\":9\x7d\x7d]\x7d\x7d".toList

def messageEvent : CopilotEvent :=
  ⟨eventTypeAssistantMessage, .object [("outputTokens", .number 9)]⟩

def shutdownEvent : CopilotEvent :=
  ⟨eventTypeSessionShutdown, .object [("modelMetrics", .array [.object
    [("usage", .object [("outputTokens", .number 9)])]])]⟩

/-- A message of nine tokens, and a shutdown that reports them. -/
def sessionReader : CopilotReader where
  event line :=
    if line = messageText then some messageEvent
    else if line = shutdownText then some shutdownEvent
    else none
  modelMetrics _ := some [⟨0, 0, 9, 0, 0⟩]
  outputTokens _ := some 9

theorem textEvents_message :
    textEvents sessionReader (messageText ++ ['\n']) = [messageEvent] := by
  rfl

theorem textEvents_shutdown : textEvents sessionReader shutdownText = [shutdownEvent] := by
  rfl

theorem nonNegativeCounts_session (events : List CopilotEvent) :
    NonNegativeCounts sessionReader events := by
  intro event _
  constructor
  · intro metrics hmetrics metric hmetric
    rw [shutdownMetrics] at hmetrics
    split_ifs at hmetrics
    · exact nomatch hmetrics
    · rw [← Option.some.inj hmetrics] at hmetric
      rw [List.mem_singleton.mp hmetric]
      constructor <;> decide
  · intro outputTokens houtput
    rw [assistantOutput] at houtput
    split_ifs at houtput
    · exact nomatch houtput
    · rw [← Option.some.inj houtput]
      decide

/-- The tokens of the message are counted in its turn, and once more with the shutdown. -/
theorem shutdown_counts_twice :
    ¬ Adds (copilot sessionReader) (encode (messageText ++ ['\n'])) (encode shutdownText) := by
  rw [copilot_adds_iff (Or.inr (List.getLast?_concat ..)) (nonNegativeCounts_session _),
    textEvents_message, textEvents_shutdown]
  intro h
  have hsilent : ∀ outputTokens ∈ [messageEvent].filterMap (assistantOutput sessionReader),
      outputTokens = 0 := h
  exact absurd (hsilent 9 (List.mem_singleton.mpr rfl)) (by decide)

/-! ## Sessions that go on -/

def noMessages : ClaudeReader where
  toJsonReader := userLineReader
  message _ := none

def countText : List Char := "\x7b\"type\":\"event_msg\"\x7d".toList

def countReader : CodexReader where
  line text := if text = countText then some ⟨"event_msg", "token_count", ⟨5, 2, 1⟩⟩ else none
  value _ := none

theorem readsValues_twoLines : ReadsValues GeminiChunks.twoLinesCodec.value where
  space c text h := by
    change GeminiChunks.twoLinesValue (c :: text) = GeminiChunks.twoLinesValue text
    rw [GeminiChunks.twoLinesValue, List.filter_cons_of_neg (by rw [h]; decide)]
    rfl
  line line rest v _ hvalue := by
    change GeminiChunks.twoLinesValue line = some v at hvalue
    change GeminiChunks.twoLinesValue (line ++ '\n' :: rest) = _
    have hfilter : (line ++ '\n' :: rest).filter (fun c => !jsonSpace c) =
        line.filter (fun c => !jsonSpace c) ++ rest.filter fun c => !jsonSpace c := by
      rw [List.filter_append, List.filter_cons_of_neg (by decide)]
    rw [GeminiChunks.twoLinesValue, hfilter]
    by_cases hrest : rest.all jsonSpace = true
    · have hnil : (rest.filter fun c => !jsonSpace c) = [] := by
        rw [List.filter_eq_nil_iff]
        intro c hc
        rw [List.all_eq_true.mp hrest c hc]
        decide
      rw [hnil, List.append_nil, if_pos hrest]
      exact hvalue
    · have hne : (rest.filter fun c => !jsonSpace c) ≠ [] := by
        intro hnil
        refine hrest (List.all_eq_true.mpr fun c hc => ?_)
        simpa using List.filter_eq_nil_iff.mp hnil c hc
      rw [if_neg hrest]
      generalize (rest.filter fun c => !jsonSpace c) = more at hne
      rw [GeminiChunks.twoLinesValue] at hvalue
      have hself : ∀ text : List Char, text ++ more ≠ text := fun text h =>
        hne (List.append_right_eq_self.mp h)
      have hother : ∀ text text' : List Char, text.isPrefixOf text' = false →
          text ++ more ≠ text' := by
        intro text text' hleading h
        rw [List.isPrefixOf_iff_prefix.mpr ⟨more, h⟩] at hleading
        exact nomatch hleading
      split_ifs at hvalue with huser hdocument
      · rw [huser, if_neg (hself _), if_neg (hother _ _ (by decide))]
      · rw [hdocument, if_neg (hother _ _ (by decide)), if_neg (hself _)]

/-- A message that is written twice, and a count after a count. -/
theorem sessions_go_on :
    Adds (claude noMessages) (userLine ++ [newline]) userLine ∧
      Adds (codex countReader) (encode (countText ++ ['\n'])) (encode countText) ∧
      Adds (copilot sessionReader) (encode (messageText ++ ['\n'])) (encode messageText) ∧
      Adds (gemini GeminiChunks.twoLinesCodec) (encode (GeminiChunks.userText.toList ++ ['\n']))
        (encode GeminiChunks.userText.toList) := by
  obtain ⟨hclaude, hcodex, hcopilot, hgemini, -, -⟩ := usage_over_turns noMessages countReader
    sessionReader GeminiChunks.twoLinesCodec fun _ => none
  refine ⟨?_, ?_, ?_, ?_⟩
  · refine hclaude _ _ (Or.inr (List.getLast?_concat ..)) fun msg hmsg => ?_
    obtain ⟨line, -, hcounted⟩ := List.mem_filterMap.mp hmsg
    rw [countedMessage] at hcounted
    split_ifs at hcounted
    exact nomatch hcounted
  · refine (hcodex _ _ (Or.inr (List.getLast?_concat ..)) ⟨?_, ?_⟩).mpr rfl
    · intro c hc
      have hcounts : counters countReader (textLines (countText ++ ['\n'] ++ countText)) =
          [⟨5, 2, 1⟩, ⟨5, 2, 1⟩] := rfl
      rw [hcounts] at hc
      obtain rfl : c = ⟨5, 2, 1⟩ := by simpa using hc
      constructor <;> decide
    · refine List.pairwise_pair.mpr ?_
      constructor <;> decide
  · exact (hcopilot _ _ (Or.inr (List.getLast?_concat ..)) (nonNegativeCounts_session _)).mpr trivial
  · refine (hgemini readsValues_twoLines _ _ (Or.inr (List.getLast?_concat ..)) ?_ ?_).mpr
      (Or.inl ⟨?_, rfl⟩)
    · rw [ValidLines]
      decide
    · intro msg _ later hlater hid
      have hmessages : lineMessages GeminiChunks.twoLinesCodec GeminiChunks.userText.toList =
          [⟨"", "user", "a", none, ()⟩] := rfl
      rw [hmessages] at hlater
      rw [List.mem_singleton.mp hlater] at hid
      exact absurd rfl hid
    · have hmessages : jsonlMessages GeminiChunks.twoLinesCodec
          (GeminiChunks.userText.toList ++ ['\n']) = [⟨"", "user", "a", none, ()⟩] := rfl
      rw [hmessages]
      exact List.cons_ne_nil _ _

end TokenUsages
end Agents
end Bitloops
