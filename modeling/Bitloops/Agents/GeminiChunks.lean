import Bitloops.Agents.Chunking
import Bitloops.Agents.GeminiTranscripts
import Mathlib

/-!
# Chunks of a transcript of Gemini

A document is cut between its messages, anything else between its lines, and the chunks are joined
as documents.  `restores_iff` says for which transcripts this gives back the messages.
-/

namespace Bitloops
namespace Agents
namespace GeminiChunks

open Chunking GeminiTranscripts GreedyGroups Results

variable {D : Type}

/-! ## Cutting and joining -/

/-- The length of `\x7b"messages":[]\x7d`. -/
def emptySize : ℕ := 15

structure GroupState (D : Type) where
  chunks : List (List UInt8) := []
  currentMessages : List (GeminiMessage D) := []
  currentSize : ℕ := emptySize

inductive ChunkError where
  | jsonl (error : LineTooLong)
  | noChunks

section Codec

variable (codec : GeminiCodec D)

def chunkMessage (maxSize : ℕ) (state : GroupState D) (msg : GeminiMessage D) : GroupState D :=
  let msgSize := (codec.messageBytes msg).length + 1
  let state :=
    if state.currentSize + msgSize > maxSize ∧ state.currentMessages ≠ [] then
      { chunks := state.chunks ++ [transcriptBytes codec.messageBytes state.currentMessages] }
    else state
  { state with
    currentMessages := state.currentMessages ++ [msg]
    currentSize := state.currentSize + msgSize }

def chunkTranscript (content : List UInt8) (maxSize : ℕ) :
    Except ChunkError (List (List UInt8)) :=
  match codec.document content with
  | none => (chunkJsonl content maxSize).mapError .jsonl
  | some [] => .ok [content]
  | some messages =>
    let state := messages.foldl (chunkMessage codec maxSize) {}
    let chunks :=
      if state.currentMessages ≠ [] then
        state.chunks ++ [transcriptBytes codec.messageBytes state.currentMessages]
      else state.chunks
    if chunks = [] then .error .noChunks else .ok chunks

def reassembleTranscript (chunks : List (List UInt8)) : Option (List UInt8) := do
  let transcripts ← chunks.mapM codec.document
  some (transcriptBytes codec.messageBytes transcripts.flatten)

/-- Whatever chunks the transcript is cut into, they are small enough, they can be joined, and the
result has the messages of the transcript. -/
def Restores (content : List UInt8) (maxSize : ℕ) : Prop :=
  ∀ chunks, chunkTranscript codec content maxSize = .ok chunks →
    (∀ chunk ∈ chunks, chunk.length ≤ maxSize) ∧
      ∃ bytes, reassembleTranscript codec chunks = some bytes ∧
        parseTranscript codec bytes = parseTranscript codec content

/-- When the messages come back.  A document has room for each of its messages in a chunk, and it
is read as the document with these messages.  In any other transcript every group of lines that the
limit allows is a document itself, and these documents have the messages of the transcript. -/
def Restorable (content : List UInt8) (maxSize : ℕ) : Prop :=
  match codec.document content with
  | some [] => content.length ≤ maxSize ∧ parseTranscript codec content = some []
  | some messages =>
    (∀ msg ∈ messages, emptySize + (codec.messageBytes msg).length ≤ maxSize) ∧
      parseTranscript codec content = some ((messages.map codec.reread).map codec.reread)
  | none =>
    content = [] ∨ (∃ line ∈ content.splitOn newline, maxSize < line.length + 1) ∨
      ∃ transcripts,
        ((lineGroups content maxSize).map [newline].intercalate).mapM codec.document =
            some transcripts ∧
          parseTranscript codec content = some (transcripts.flatten.map codec.reread)

/-! ## Documents -/

variable {codec} {messages : List (GeminiMessage D)} {content : List UInt8} {maxSize : ℕ}

theorem transcriptBytes_ne_nil {messageBytes : GeminiMessage D → List UInt8} :
    transcriptBytes messageBytes messages ≠ [] := by
  rw [transcriptBytes, List.append_assoc]
  exact List.append_ne_nil_of_left_ne_nil (by decide) _

/-- A document that was written is read as such. -/
theorem parseTranscript_transcriptBytes
    (h : ∀ msg ∈ messages, Readable codec.document msg) :
    parseTranscript codec (transcriptBytes codec.messageBytes messages) =
      some (messages.map codec.reread) := by
  obtain ⟨root, items, hroot, hitems⟩ := codec.root_transcriptBytes messages h
  have hdeclares : declaresMessages codec (transcriptBytes codec.messageBytes messages) = true := by
    rw [declaresMessages, hroot, Option.bind_some, hitems]
  rw [parseTranscript, if_neg transcriptBytes_ne_nil, if_pos hdeclares,
    codec.document_transcriptBytes messages h]

theorem readable_reread {msg : GeminiMessage D} (h : Readable codec.document msg) :
    Readable codec.document (codec.reread msg) := by
  refine ⟨_, _, codec.document_transcriptBytes [msg] ?_, List.mem_singleton.mpr rfl⟩
  rwa [List.forall_mem_singleton]

/-- Documents are joined to a document with all their messages. -/
theorem parseTranscript_reassembled {chunks : List (List UInt8)}
    {transcripts : List (List (GeminiMessage D))}
    (h : chunks.mapM codec.document = some transcripts) :
    parseTranscript codec (transcriptBytes codec.messageBytes transcripts.flatten) =
      some (transcripts.flatten.map codec.reread) := by
  refine parseTranscript_transcriptBytes fun msg hmsg => ?_
  obtain ⟨transcript, htranscript, hmem⟩ := List.mem_flatten.mp hmsg
  obtain ⟨i, hi, rfl⟩ := List.getElem_of_mem htranscript
  have hdocs := mapM_eq_some.mp h
  exact ⟨_, _, hdocs.get (hdocs.length_eq ▸ hi) hi, hmem⟩

theorem reassembleTranscript_eq_some {chunks : List (List UInt8)} {bytes : List UInt8} :
    reassembleTranscript codec chunks = some bytes ↔
      ∃ transcripts, chunks.mapM codec.document = some transcripts ∧
        transcriptBytes codec.messageBytes transcripts.flatten = bytes := by
  rw [reassembleTranscript, Option.bind_eq_bind, Option.bind_eq_some_iff]
  simp only [Option.some_inj]

/-! ## Groups of messages -/

def messageSize (codec : GeminiCodec D) (msg : GeminiMessage D) : ℕ :=
  (codec.messageBytes msg).length + 1

theorem length_intercalate {separator : List UInt8} (hseparator : separator.length = 1)
    {parts : List (List UInt8)} (h : parts ≠ []) :
    (separator.intercalate parts).length + 1 = (parts.map fun part => part.length + 1).sum := by
  induction parts with
  | nil => exact absurd rfl h
  | cons part parts ih =>
    cases parts with
    | nil => simp
    | cons other parts =>
      have hrest := ih (List.cons_ne_nil _ _)
      rw [List.intercalate_cons_cons, List.length_append, List.length_append, hseparator,
        List.map_cons, List.sum_cons, ← hrest]
      omega

theorem length_transcriptBytes (h : messages ≠ []) :
    (transcriptBytes codec.messageBytes messages).length + 1 =
      size (messageSize codec) emptySize messages := by
  have hjoined := @length_intercalate (asciiBytes ",") rfl
    (messages.map codec.messageBytes) (mt List.map_eq_nil_iff.mp h)
  have hfront : (asciiBytes "\x7b\"messages\":[").length = 13 := rfl
  have hback : (asciiBytes "]\x7d").length = 2 := rfl
  rw [List.map_map] at hjoined
  rw [transcriptBytes, List.length_append, List.length_append, hfront, hback, size, emptySize]
  have hsum : (messages.map (messageSize codec)).sum =
      (messages.map ((fun part => part.length + 1) ∘ codec.messageBytes)).sum := rfl
  omega

/-- The state of the loop after the messages have been put into groups. -/
def ofGroups (codec : GeminiCodec D) (state : State (GeminiMessage D)) : GroupState D where
  chunks := state.closed.map (transcriptBytes codec.messageBytes)
  currentMessages := state.current
  currentSize := size (messageSize codec) emptySize state.current

theorem chunkMessage_ofGroups (state : State (GeminiMessage D)) (msg : GeminiMessage D) :
    chunkMessage codec maxSize (ofGroups codec state) msg =
      ofGroups codec (push (messageSize codec) emptySize maxSize state msg) := by
  have hcases : (ofGroups codec state).currentSize + ((codec.messageBytes msg).length + 1) >
      maxSize ∧ (ofGroups codec state).currentMessages ≠ [] ↔
        maxSize < size (messageSize codec) emptySize state.current + messageSize codec msg ∧
          state.current ≠ [] := Iff.rfl
  rw [chunkMessage, push]
  by_cases hfull : maxSize <
      size (messageSize codec) emptySize state.current + messageSize codec msg ∧ state.current ≠ []
  · rw [if_pos (hcases.mpr hfull), if_pos hfull]
    simp [ofGroups, size, messageSize]
  · rw [if_neg (mt hcases.mp hfull), if_neg hfull]
    simp [ofGroups, size_append_singleton, messageSize]

/-- The groups of messages that the limit allows. -/
def messageGroups (codec : GeminiCodec D) (messages : List (GeminiMessage D)) (maxSize : ℕ) :
    List (List (GeminiMessage D)) :=
  groups (messageSize codec) emptySize maxSize messages

theorem foldl_chunkMessage (messages : List (GeminiMessage D)) (state : State (GeminiMessage D)) :
    messages.foldl (chunkMessage codec maxSize) (ofGroups codec state) =
      ofGroups codec (messages.foldl (push (messageSize codec) emptySize maxSize) state) := by
  induction messages generalizing state with
  | nil => rfl
  | cons msg messages ih => rw [List.foldl_cons, chunkMessage_ofGroups, ih, List.foldl_cons]

theorem chunkTranscript_of_messages (hdocument : codec.document content = some messages)
    (hne : messages ≠ []) :
    chunkTranscript codec content maxSize =
      .ok ((messageGroups codec messages maxSize).map (transcriptBytes codec.messageBytes)) := by
  have hcurrent := @current_ne_nil _ (messageSize codec) emptySize maxSize _ hne
  have hfold := @foldl_chunkMessage _ codec maxSize messages {}
  obtain ⟨msg, rest, rfl⟩ := List.exists_cons_of_ne_nil hne
  have hstart : (ofGroups codec {} : GroupState D) = {} := rfl
  rw [chunkTranscript, hdocument]
  rw [hstart] at hfold
  simp only [hfold]
  rw [messageGroups, groups]
  generalize List.foldl _ _ _ = state at hcurrent ⊢
  have hmessages : (ofGroups codec state).currentMessages ≠ [] := hcurrent
  rw [if_pos hmessages, if_neg (by simp), State.groups, if_neg hcurrent, List.map_append,
    List.map_singleton]
  rfl

/-- The groups fit when each message fits alone. -/
theorem chunks_le_iff :
    (∀ chunk ∈ (messageGroups codec messages maxSize).map (transcriptBytes codec.messageBytes),
      chunk.length ≤ maxSize) ↔
      ∀ msg ∈ messages, emptySize + (codec.messageBytes msg).length ≤ maxSize := by
  rw [List.forall_mem_map]
  constructor
  · intro h msg hmsg
    rw [← flatten_groups (messageSize codec) emptySize maxSize messages] at hmsg
    obtain ⟨group, hgroup, hmem⟩ := List.mem_flatten.mp hmsg
    have hlength := @length_transcriptBytes _ codec _ (List.ne_nil_of_mem hmem)
    have hweight : messageSize codec msg ≤ (group.map (messageSize codec)).sum :=
      List.single_le_sum (fun _ _ => Nat.zero_le _) _ (List.mem_map_of_mem hmem)
    have := h group hgroup
    rw [size] at hlength
    rw [messageSize] at hweight
    omega
  · intro h group hgroup
    have hlength := @length_transcriptBytes _ codec _ (ne_nil_of_mem_groups hgroup)
    rcases fits_of_mem_groups hgroup with hsize | ⟨msg, rfl⟩
    · omega
    · have hmsg : msg ∈ messages := by
        rw [← flatten_groups (messageSize codec) emptySize maxSize messages]
        exact List.mem_flatten_of_mem hgroup List.mem_cons_self
      have := h msg hmsg
      rw [size, List.map_singleton, List.sum_singleton, messageSize] at hlength
      omega

/-! ## When the messages come back -/

theorem restores_of_chunks {chunks : List (List UInt8)}
    (h : chunkTranscript codec content maxSize = .ok chunks) :
    Restores codec content maxSize ↔
      (∀ chunk ∈ chunks, chunk.length ≤ maxSize) ∧
        ∃ transcripts, chunks.mapM codec.document = some transcripts ∧
          parseTranscript codec content = some (transcripts.flatten.map codec.reread) := by
  have hunique : ∀ other, chunkTranscript codec content maxSize = .ok other ↔ other = chunks := by
    intro other
    rw [h, Except.ok.injEq]
    exact eq_comm
  simp only [Restores, hunique, forall_eq, reassembleTranscript_eq_some]
  refine and_congr_right fun _ => ⟨?_, ?_⟩
  · rintro ⟨bytes, ⟨transcripts, hdocuments, rfl⟩, hparse⟩
    exact ⟨transcripts, hdocuments, hparse.symm.trans (parseTranscript_reassembled hdocuments)⟩
  · rintro ⟨transcripts, hdocuments, hparse⟩
    exact ⟨_, ⟨transcripts, hdocuments, rfl⟩,
      (parseTranscript_reassembled hdocuments).trans hparse.symm⟩

theorem mapM_document_groups (hdocument : codec.document content = some messages) :
    ((messageGroups codec messages maxSize).map (transcriptBytes codec.messageBytes)).mapM
        codec.document =
      some ((messageGroups codec messages maxSize).map (List.map codec.reread)) := by
  rw [mapM_eq_some, List.forall₂_map_left_iff, List.forall₂_map_right_iff, List.forall₂_same]
  intro group hgroup
  refine codec.document_transcriptBytes group fun msg hmsg => ⟨_, _, hdocument, ?_⟩
  rw [← flatten_groups (messageSize codec) emptySize maxSize messages]
  exact List.mem_flatten_of_mem hgroup hmsg

theorem restores_of_messages_iff (hdocument : codec.document content = some messages)
    (hne : messages ≠ []) :
    Restores codec content maxSize ↔
      (∀ msg ∈ messages, emptySize + (codec.messageBytes msg).length ≤ maxSize) ∧
        parseTranscript codec content = some ((messages.map codec.reread).map codec.reread) := by
  have hflatten : ((messageGroups codec messages maxSize).map (List.map codec.reread)).flatten =
      messages.map codec.reread := by
    rw [← List.map_flatten, messageGroups, flatten_groups]
  rw [restores_of_chunks (chunkTranscript_of_messages hdocument hne), chunks_le_iff,
    mapM_document_groups hdocument]
  simp only [Option.some_inj, exists_eq_left', hflatten]

theorem restores_of_no_messages_iff (hdocument : codec.document content = some []) :
    Restores codec content maxSize ↔
      content.length ≤ maxSize ∧ parseTranscript codec content = some [] := by
  have hchunks : chunkTranscript codec content maxSize = .ok [content] := by
    rw [chunkTranscript, hdocument]
  have hdocuments : [content].mapM codec.document = some [[]] := by
    rw [List.mapM_cons, hdocument]
    rfl
  rw [restores_of_chunks hchunks, List.forall_mem_singleton, hdocuments]
  simp only [Option.some_inj, exists_eq_left', List.flatten_cons, List.flatten_nil, List.append_nil,
    List.map_nil]

theorem restores_of_lines_iff (hdocument : codec.document content = none) :
    Restores codec content maxSize ↔
      content = [] ∨ (∃ line ∈ content.splitOn newline, maxSize < line.length + 1) ∨
        ∃ transcripts,
          ((lineGroups content maxSize).map [newline].intercalate).mapM codec.document =
              some transcripts ∧
            parseTranscript codec content = some (transcripts.flatten.map codec.reread) := by
  have hchunks : chunkTranscript codec content maxSize =
      (chunkJsonl content maxSize).mapError .jsonl := by
    rw [chunkTranscript, hdocument]
  by_cases hnil : content = []
  · have hempty : chunkTranscript codec content maxSize = .ok [] := by
      rw [hchunks, hnil]
      rfl
    refine iff_of_true ((restores_of_chunks hempty).mpr ⟨?_, [], rfl, ?_⟩) (Or.inl hnil)
    · exact fun _ hchunk => absurd hchunk List.not_mem_nil
    · rw [parseTranscript, if_pos hnil]
      rfl
  · by_cases hfits : ∀ line ∈ content.splitOn newline, lineSize line ≤ maxSize
    · have hjsonl := chunkJsonl_of_fits hnil hfits
      rw [hjsonl] at hchunks
      have hlong : ¬ ∃ line ∈ content.splitOn newline, maxSize < line.length + 1 := by
        rintro ⟨line, hline, hlong⟩
        exact absurd (hfits line hline) (Nat.not_le.mpr hlong)
      rw [restores_of_chunks hchunks, or_iff_right hnil, or_iff_right hlong,
        and_iff_right (chunkJsonl_spec hjsonl).1]
    · refine iff_of_true (fun chunks hok => ?_) (Or.inr (Or.inl ?_))
      · cases hjsonl : chunkJsonl content maxSize with
        | error e =>
          rw [hchunks, hjsonl] at hok
          exact nomatch hok
        | ok pieces =>
          rcases chunkJsonl_eq_ok_iff.mp hjsonl with ⟨h, -⟩ | ⟨-, h, -⟩
          · exact absurd h hnil
          · exact absurd h hfits
      · obtain ⟨line, h⟩ := not_forall.mp hfits
        obtain ⟨hline, hlong⟩ := Classical.not_imp.mp h
        exact ⟨line, hline, Nat.not_le.mp hlong⟩

theorem restores_iff (codec : GeminiCodec D) (content : List UInt8) (maxSize : ℕ) :
    Restores codec content maxSize ↔ Restorable codec content maxSize := by
  rw [Restorable]
  cases hdocument : codec.document content with
  | none => exact restores_of_lines_iff hdocument
  | some messages =>
    cases messages with
    | nil => exact restores_of_no_messages_iff hdocument
    | cons msg messages => exact restores_of_messages_iff hdocument (List.cons_ne_nil _ _)

/-- The agents with lines get their bytes back.  Gemini gets its messages back exactly from the
transcripts that are `Restorable`, and the names of the files lead to their order exactly for up to
`2 ^ 31` of them. -/
theorem chunks_restore_transcripts (codec : GeminiCodec D) :
    (∀ content maxSize chunks, chunkJsonl content maxSize = .ok chunks →
      (∀ chunk ∈ chunks, chunk.length ≤ maxSize) ∧ reassembleJsonl chunks = content) ∧
    (∀ content maxSize, Restores codec content maxSize ↔ Restorable codec content maxSize) ∧
    ∀ baseName n, (∀ files : List (List Char), files.Perm (chunkFileNames baseName n) →
      sortChunkFiles files baseName = chunkFileNames baseName n) ↔ n ≤ 2 ^ 31 :=
  ⟨fun _ _ _ => chunkJsonl_spec, restores_iff codec, sortChunkFiles_names_iff⟩

end Codec

/-! ## A transcript of two lines -/

def userText : String := "\x7b\"type\":\"user\",\"content\":\"a\"\x7d"

def twoLines : List UInt8 := asciiBytes userText ++ newline :: asciiBytes userText

/-- The messages are written as the line of this transcript. -/
def userBytes (_ : GeminiMessage Unit) : List UInt8 := asciiBytes userText

def emptyDocument (data : List UInt8) : Option (List (GeminiMessage Unit)) :=
  if data = transcriptBytes userBytes [] then some [] else none

theorem not_readable_emptyDocument (msg : GeminiMessage Unit) : ¬ Readable emptyDocument msg := by
  rintro ⟨data, messages, hdocument, hmem⟩
  rw [emptyDocument] at hdocument
  split_ifs at hdocument
  rw [← Option.some.inj hdocument] at hmem
  exact List.not_mem_nil hmem

/-- White space may stand around a value. -/
def twoLinesValue (text : List Char) : Option ArchitectureRoles.JsonValue :=
  let value := text.filter fun c => !jsonSpace c
  if value = userText.toList then
    some (.object [("type", .string "user"), ("content", .string "a")])
  else if value = "\x7b\"messages\":[]\x7d".toList then some (.object [("messages", .array [])])
  else none

/-- A codec that knows these lines, and the document without messages. -/
def twoLinesCodec : GeminiCodec Unit where
  document := emptyDocument
  value := twoLinesValue
  message _ := some ⟨"", "user", "a", none, ()⟩
  messageBytes := userBytes
  reread := id
  document_nil := if_neg transcriptBytes_ne_nil.symm
  document_transcriptBytes messages h := by
    cases messages with
    | nil => exact if_pos rfl
    | cons msg messages => exact absurd (h msg List.mem_cons_self) (not_readable_emptyDocument msg)
  root_transcriptBytes messages h := by
    cases messages with
    | nil => exact ⟨.object [("messages", .array [])], [], rfl, rfl⟩
    | cons msg messages => exact absurd (h msg List.mem_cons_self) (not_readable_emptyDocument msg)

/-- The lines are cut into one chunk, which is no document, so that no messages come back. -/
theorem twoLines_lost :
    chunkTranscript twoLinesCodec twoLines 100 = .ok [twoLines] ∧
      reassembleTranscript twoLinesCodec [twoLines] = none ∧
      ¬ Restores twoLinesCodec twoLines 100 := by
  have hchunks : chunkTranscript twoLinesCodec twoLines 100 = .ok [twoLines] := by
    rfl
  have hnone : reassembleTranscript twoLinesCodec [twoLines] = none := by
    rfl
  refine ⟨hchunks, hnone, fun h => ?_⟩
  obtain ⟨bytes, hbytes, -⟩ := (h [twoLines] hchunks).2
  rw [hnone] at hbytes
  exact nomatch hbytes

end GeminiChunks
end Agents
end Bitloops
