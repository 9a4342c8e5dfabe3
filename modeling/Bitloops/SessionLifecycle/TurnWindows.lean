import Bitloops.SessionLifecycle.AgentTranscripts
import Bitloops.SessionLifecycle.World

/-!
# The transcript windows of turns

A turn starts when the transcript is `before` and ends when it is `after`.  The start is counted
by the analyser of the agent, if it has one, the end by the analyser or in lines, and the fragment
is cut in lines or in messages of a document.  `InStep` is the condition under which the three
count alike; then the entries of the fragment are those that `after` has beyond `before`.
-/

namespace Bitloops
namespace SessionLifecycle

open Interactions

section Windows

variable {Entry : Type*} [DecidableEq Entry] (F : TranscriptFormats Entry) (agent : Agent)

/-- The fragment that is stored for a turn. -/
def turnFragment (before after : String) : String :=
  let start := (F.position agent before).getD 0
  let stop := (F.position agent after).getD start
  transcriptFragment F.toDocumentCodec after start
    (if stop ≤ start ∧ after ≠ "" then transcriptPosition F.toDocumentCodec after else stop)

/-- The fragment holds exactly the entries of the turn. -/
def HoldsTurn (before after : String) : Prop :=
  F.entries agent (turnFragment F agent before after) =
    newEntries (F.entries agent before) (F.entries agent after)

instance (before after : String) : Decidable (HoldsTurn F agent before after) :=
  inferInstanceAs (Decidable (_ = _))

/-! ## The condition -/

/-- The lines `new` and then the lines `rest`, which hold no entries, are written after the lines
`old`, and the transcript is no document. -/
structure GrownLines (before after : String) (old new rest : List (List Char)) : Prop where
  before_eq : before = textOf old
  after_eq : after = textOf (old ++ (new ++ rest))
  isLine : ∀ line ∈ old ++ (new ++ rest), IsLine line
  notDocument : F.messages after = none
  noEntries : ∀ line ∈ rest, F.entryOfLine agent line = none

/-- The lines suit the agent: the adapters of Claude Code and of Cursor cut from the beginning,
and those of OpenCode and Gemini count entries where the fragment is cut in lines. -/
def LinesInStep (old new rest : List (List Char)) : Prop :=
  match agent with
  | .claudeCode | .cursor => F.entries agent (textOf old) = []
  | .codex => F.messages (textOf old) = none
  | .copilot => True
  | .openCode => ∀ line ∈ old ++ new, (F.entryOfLine .openCode line).isSome
  | .gemini => (∀ line ∈ old ++ new, (F.entryOfLine .gemini line).isSome) ∧
      (∀ lines, lines <:+: old ++ (new ++ rest) →
        F.messages (textOf lines) = none ∧ F.declaresNull (textOf lines) = false) ∧
      ((F.lineEntries .gemini (old ++ (new ++ rest))).filter (F.entryId · ≠ "")).Pairwise
        (F.entryId · ≠ F.entryId ·)

/-- The messages `new` are put after the messages `old` into a document. -/
structure GrownDocument (before after : String) (old new : List String) : Prop where
  before_eq : before = "" ∧ old = [] ∨ F.messages before = some old
  after_eq : F.messages after = some (old ++ new)

/-- The units of the start, of the end and of the fragment agree on a turn. -/
def InStep (before after : String) : Prop :=
  (∃ old new rest, GrownLines F agent before after old new rest ∧
      LinesInStep F agent old new rest) ∨
    (agent = .gemini ∧ ∃ old new, GrownDocument F before after old new) ∨
    (agent = .cursor ∧ F.entries .cursor before = [] ∧ (F.messages after).isSome)

end Windows

/-! ## New entries -/

theorem newEntries_append {α : Type*} [DecidableEq α] (old new : List α) :
    newEntries old (old ++ new) = new := by
  unfold newEntries
  rw [List.zipIdx_append, List.filter_append, List.map_append]
  have hold : (old.zipIdx.filter fun entry => old[entry.2]? ≠ some entry.1) = [] := by
    rw [List.filter_eq_nil_iff]
    rintro ⟨entry, index⟩ hmem
    have hget := List.mk_mem_zipIdx_iff_getElem?.mp hmem
    simp [hget]
  have hnew : ((new.zipIdx (0 + old.length)).filter fun entry => old[entry.2]? ≠ some entry.1) =
      new.zipIdx (0 + old.length) := by
    rw [List.filter_eq_self]
    rintro ⟨entry, index⟩ hmem
    have hindex : old.length ≤ index := by
      have := List.le_snd_of_mem_zipIdx hmem
      simpa using this
    simp [List.getElem?_eq_none hindex]
  rw [hold, hnew, List.map_nil, List.nil_append]
  exact List.zipIdx_map_fst _ _

/-! ## Windows of lines -/

section Lines

variable {Entry : Type*} [DecidableEq Entry] {F : TranscriptFormats Entry} {agent : Agent}
  {before after : String} {old new rest : List (List Char)}

/-- What is cut out of a transcript of lines. -/
theorem turnFragment_of_grownLines (h : GrownLines F agent before after old new rest)
    {start stop : ℕ} (hstart : (F.position agent before).getD 0 = start)
    (hstop : (F.position agent after).getD start = stop) :
    turnFragment F agent before after =
      textOf (sliceBetween (old ++ (new ++ rest)) start
        (if stop ≤ start then (old ++ (new ++ rest)).length else stop)) := by
  have hdocument : F.messages (textOf (old ++ (new ++ rest))) = none := h.after_eq ▸ h.notDocument
  rw [turnFragment, hstart, hstop, h.after_eq, transcriptFragment_textOf h.isLine hdocument,
    transcriptPosition_textOf h.isLine hdocument]
  by_cases hempty : textOf (old ++ (new ++ rest)) = ""
  · -- no window of a transcript without lines holds any
    have hnil : old ++ (new ++ rest) = [] := by
      by_contra hcons
      obtain ⟨line, lines, heq⟩ := List.exists_cons_of_ne_nil hcons
      exact textOf_ne_empty (heq ▸ h.isLine) (heq ▸ hempty)
    rw [hnil]
    simp [sliceBetween]
  · simp only [hempty, ne_eq, not_false_eq_true, and_true]

/-- A turn whose start and end are counted in lines, up to the lines without entries. -/
theorem holdsTurn_of_counted (h : GrownLines F agent before after old new rest)
    (hstart : (F.position agent before).getD 0 = old.length)
    (hstop : (F.position agent after).getD old.length = (old ++ new).length ∨
      (F.position agent after).getD old.length = (old ++ (new ++ rest)).length)
    (hentries : ∀ lines, lines <:+: old ++ (new ++ rest) →
      F.entries agent (textOf lines) = F.lineEntries agent lines) :
    HoldsTurn F agent before after := by
  have hrest : F.lineEntries agent rest = [] := F.lineEntries_eq_nil h.noEntries
  have hall : turnFragment F agent before after = textOf new ∨
      turnFragment F agent before after = textOf (new ++ rest) := by
    have hnew : sliceBetween (old ++ (new ++ rest)) old.length (old ++ new).length = new :=
      sliceBetween_append
    have hend : sliceBetween (old ++ (new ++ rest)) old.length (old ++ (new ++ rest)).length =
        new ++ rest := by rw [sliceBetween_length, List.drop_left]
    rcases hstop with hstop | hstop
    · rw [turnFragment_of_grownLines h hstart hstop]
      split_ifs
      · exact .inr (congrArg textOf hend)
      · exact .inl (congrArg textOf hnew)
    · rw [turnFragment_of_grownLines h hstart hstop, ite_self]
      exact .inr (congrArg textOf hend)
  have hfragment : F.entries agent (turnFragment F agent before after) =
      F.lineEntries agent new := by
    rcases hall with heq | heq
    · rw [heq, hentries new ⟨old, rest, by simp⟩]
    · rw [heq, hentries (new ++ rest) ⟨old, [], by simp⟩, F.lineEntries_append, hrest,
        List.append_nil]
  have hbefore := hentries old ⟨[], new ++ rest, by simp⟩
  have hafter := hentries (old ++ (new ++ rest)) ⟨[], [], by simp⟩
  rw [HoldsTurn, hfragment, h.before_eq, h.after_eq, hbefore, hafter, F.lineEntries_append,
    F.lineEntries_append, hrest, List.append_nil, newEntries_append]

/-- A turn whose agent has no analyser, with nothing in the transcript before it. -/
theorem holdsTurn_of_uncounted (h : GrownLines F agent before after old new rest)
    (hposition : ∀ data, F.position agent data = none)
    (hold : F.entries agent (textOf old) = []) : HoldsTurn F agent before after := by
  have hfragment : turnFragment F agent before after = after := by
    have hstart : (F.position agent before).getD 0 = 0 := by rw [hposition, Option.getD_none]
    have hstop : (F.position agent after).getD 0 = 0 := by rw [hposition, Option.getD_none]
    rw [turnFragment_of_grownLines h hstart hstop, if_pos (Nat.le_refl 0), sliceBetween_length,
      List.drop_zero, h.after_eq]
  rw [HoldsTurn, hfragment, h.before_eq, hold]
  exact (newEntries_append [] _).symm

theorem entries_part (h : GrownLines F agent before after old new rest)
    (hagent : agent ≠ .gemini ∧ agent ≠ .cursor) {lines : List (List Char)}
    (hpart : lines <:+: old ++ (new ++ rest)) :
    F.entries agent (textOf lines) = F.lineEntries agent lines :=
  TranscriptFormats.entries_textOf (fun line hline => h.isLine line (hpart.subset hline))
    hagent.1 fun heq => absurd heq hagent.2

theorem geminiLines_part (h : GrownLines F .gemini before after old new rest)
    (hok : LinesInStep F .gemini old new rest) {lines : List (List Char)}
    (hpart : lines <:+: old ++ (new ++ rest)) : F.GeminiLines lines where
  isLine line hline := h.isLine line (hpart.subset hline)
  notDocument := hok.2.1 lines hpart
  ids := hok.2.2.sublist ((hpart.sublist.filterMap _).filter _)

theorem holdsTurn_of_linesInStep (h : GrownLines F agent before after old new rest)
    (hok : LinesInStep F agent old new rest) : HoldsTurn F agent before after := by
  cases agent with
  | claudeCode | cursor => exact holdsTurn_of_uncounted h (fun _ => rfl) hok
  | codex =>
    have hold : ∀ line ∈ old, IsLine line := fun line hline =>
      h.isLine line (List.mem_append_left _ hline)
    refine holdsTurn_of_counted h ?_ (.inr ?_) fun _ => entries_part h (by simp)
    · rw [h.before_eq]
      exact transcriptPosition_textOf hold hok
    · rw [h.after_eq]
      exact transcriptPosition_textOf h.isLine (h.after_eq ▸ h.notDocument)
  | copilot =>
    have hold : ∀ line ∈ old, IsLine line := fun line hline =>
      h.isLine line (List.mem_append_left _ hline)
    refine holdsTurn_of_counted h ?_ (.inr ?_) fun _ => entries_part h (by simp)
    · rw [h.before_eq, TranscriptFormats.position, toList_textOf, splitInclusive_flatten hold]
      rfl
    · rw [h.after_eq, TranscriptFormats.position, toList_textOf, splitInclusive_flatten h.isLine]
      rfl
  | openCode =>
    have hparts := fun lines (hpart : lines <:+: old ++ (new ++ rest)) =>
      entries_part h (by simp) hpart
    refine holdsTurn_of_counted h ?_ (.inl ?_) hparts
    · rw [h.before_eq, TranscriptFormats.position, hparts old ⟨[], new ++ rest, by simp⟩]
      exact F.length_lineEntries fun line hline => hok line (List.mem_append_left _ hline)
    · rw [h.after_eq, TranscriptFormats.position,
        hparts (old ++ (new ++ rest)) ⟨[], [], by simp⟩,
        ← List.append_assoc, F.lineEntries_append, F.lineEntries_eq_nil h.noEntries,
        List.append_nil]
      exact F.length_lineEntries hok
  | gemini =>
    have hparts := fun lines (hpart : lines <:+: old ++ (new ++ rest)) =>
      geminiLines_part h hok hpart
    have hold := hparts old ⟨[], new ++ rest, by simp⟩
    have hafter := hparts (old ++ (new ++ rest)) ⟨[], [], by simp⟩
    have hlength := F.length_lineEntries hok.1
    have hentries : F.lineEntries .gemini (old ++ (new ++ rest)) =
        F.lineEntries .gemini (old ++ new) := by
      rw [← List.append_assoc, F.lineEntries_append, F.lineEntries_eq_nil h.noEntries,
        List.append_nil]
    refine holdsTurn_of_counted h ?_ (.inl ?_) fun lines hpart => (hparts lines hpart).entries
    · rw [h.before_eq, hold.position fun _ => rfl]
      exact F.length_lineEntries fun line hline => hok.1 line (List.mem_append_left _ hline)
    · rw [h.after_eq, hafter.position, hentries, hlength]
      intro hnil
      rw [hentries, ← List.length_eq_zero_iff, hlength, List.length_append] at hnil
      omega

end Lines

/-! ## Windows of documents -/

section Documents

variable {Entry : Type*} [DecidableEq Entry] {F : TranscriptFormats Entry}
  {before after : String} {old new : List String}

/-- The messages from the start of the turn on are cut out of a document. -/
theorem turnFragment_of_grownDocument (h : GrownDocument F before after old new) :
    turnFragment F .gemini before after =
      transcriptFragment F.toDocumentCodec after ((F.position .gemini before).getD 0)
        (old ++ new).length := by
  have hafter := F.ne_empty_of_messages h.after_eq
  have hparse := F.parseTranscript_of_messages h.after_eq
  have hcount := transcriptPosition_of_messages hafter h.after_eq
  rw [turnFragment]
  congr 1
  cases hfound : (old ++ new).mapM F.entryOfMessage with
  | none =>
    have hstop : F.position .gemini after = none := by
      rw [TranscriptFormats.position, hparse, hfound, Option.map_none]
    rw [hstop, Option.getD_none, if_pos ⟨Nat.le_refl _, hafter⟩, hcount]
  | some found =>
    have hstop : F.position .gemini after = some (old ++ new).length := by
      rw [TranscriptFormats.position, hparse, hfound, Option.map_some,
        length_of_mapM_eq_some hfound]
    rw [hstop, hcount, Option.getD_some, ite_self]

theorem holdsTurn_of_grownDocument (h : GrownDocument F before after old new) :
    HoldsTurn F .gemini before after := by
  have hbefore : F.parseTranscript before = old.mapM F.entryOfMessage := by
    rcases h.before_eq with ⟨rfl, rfl⟩ | hmessages
    · exact if_pos rfl
    · exact F.parseTranscript_of_messages hmessages
  have hafter := F.parseTranscript_of_messages h.after_eq
  rw [HoldsTurn, turnFragment_of_grownDocument h]
  simp only [TranscriptFormats.entries, TranscriptFormats.position]
  rw [F.parseTranscript_fragment h.after_eq, hbefore, hafter, List.mapM_append]
  cases hold : old.mapM F.entryOfMessage with
  | none =>
    -- the parser reads neither the earlier messages nor a document that begins with them
    have hall : (old ++ new).mapM F.entryOfMessage = none := by
      rw [List.mapM_append, hold]
      rfl
    rw [Option.map_none, Option.getD_none, List.drop_zero, hall]
    rfl
  | some entries =>
    rw [Option.map_some, Option.getD_some, length_of_mapM_eq_some hold, List.drop_left]
    cases hnew : new.mapM F.entryOfMessage with
    | none => rfl
    | some found => exact (newEntries_append entries found).symm

/-- A document of Cursor, with nothing in it before the turn. -/
theorem holdsTurn_of_document (hbefore : F.entries .cursor before = [])
    (hafter : (F.messages after).isSome) : HoldsTurn F .cursor before after := by
  obtain ⟨messages, hmessages⟩ := Option.isSome_iff_exists.mp hafter
  have hne := F.ne_empty_of_messages hmessages
  have hfragment : turnFragment F .cursor before after =
      transcriptFragment F.toDocumentCodec after 0 messages.length := by
    rw [turnFragment, TranscriptFormats.position, TranscriptFormats.position, Option.getD_none,
      Option.getD_none, if_pos ⟨Nat.le_refl 0, hne⟩,
      transcriptPosition_of_messages hne hmessages]
  rw [HoldsTurn, hfragment, hbefore]
  refine Eq.trans ?_ (newEntries_append [] _).symm
  cases messages with
  | nil =>
    rw [transcriptFragment, List.length_nil, if_pos (Nat.le_refl 0)]
    simp only [TranscriptFormats.entries, hmessages, F.messages_empty]
    rfl
  | cons message messages =>
    have hpos : 0 < (message :: messages).length := Nat.succ_pos _
    rw [transcriptFragment_of_messages hmessages hpos hpos,
      sliceBetween_length, List.drop_zero]
    simp only [TranscriptFormats.entries, hmessages,
      F.messages_withMessages after (message :: messages) hafter]

end Documents

/-- A turn that is in step with its transcript is stored with exactly its entries. -/
theorem holdsTurn_of_inStep {Entry : Type*} [DecidableEq Entry] {F : TranscriptFormats Entry}
    {agent : Agent} {before after : String} (h : InStep F agent before after) :
    HoldsTurn F agent before after := by
  rcases h with ⟨old, new, rest, hgrown, hlines⟩ | ⟨rfl, old, new, hgrown⟩ | ⟨rfl, hold, hafter⟩
  · exact holdsTurn_of_linesInStep hgrown hlines
  · exact holdsTurn_of_grownDocument hgrown
  · exact holdsTurn_of_document hold hafter

end SessionLifecycle
end Bitloops
