import Bitloops.SessionLifecycle.Host

/-!
# The transcripts of the agents

Every lifecycle adapter reads the transcripts of its agent in its own way.  Most transcripts are
lines of JSON, and Gemini also knows a document with a `messages` array.  What the agents make of
a line, and what `serde_json` makes of a document, are parameters; how the adapters split a
transcript, count in it and collapse its messages is defined here.
-/

namespace Bitloops
namespace SessionLifecycle

open Interactions

inductive Agent where
  | claudeCode
  | codex
  | copilot
  | cursor
  | gemini
  | openCode
  deriving DecidableEq, Repr

/-- How the texts of transcripts are read, with entries of the type `Entry`. -/
structure TranscriptFormats (Entry : Type*) extends TranscriptReaders where
  /-- An empty text is no JSON. -/
  messages_empty : toDocumentCodec.messages "" = none
  /-- The items that `withMessages` puts into a document are those that `messages` finds. -/
  messages_withMessages : ∀ data messages, (toDocumentCodec.messages data).isSome →
    toDocumentCodec.messages (toDocumentCodec.withMessages data messages) = some messages
  /-- The entry of a line; none in a blank, malformed or bookkeeping line. -/
  entryOfLine : Agent → List Char → Option Entry
  /-- The message of Gemini that an item of `messages` is. -/
  entryOfMessage : String → Option Entry
  /-- The identifier of a message of Gemini, which may be empty. -/
  entryId : Entry → String
  /-- The transcript is an object whose `messages` is `null`. -/
  declaresNull : String → Bool
  /-- The transcript is an object without `messages`. -/
  isBareObject : String → Bool
  /-- The files that entries modify. -/
  modifiedFiles : List Entry → List String

namespace TranscriptFormats

variable {Entry : Type*} (F : TranscriptFormats Entry)

/-- The entries of the lines of a transcript. -/
def lineEntries (agent : Agent) (lines : List (List Char)) : List Entry :=
  lines.filterMap (F.entryOfLine agent)

theorem lineEntries_append (agent : Agent) (old new : List (List Char)) :
    F.lineEntries agent (old ++ new) = F.lineEntries agent old ++ F.lineEntries agent new :=
  List.filterMap_append

theorem lineEntries_eq_nil {agent : Agent} {lines : List (List Char)}
    (h : ∀ line ∈ lines, F.entryOfLine agent line = none) : F.lineEntries agent lines = [] :=
  List.filterMap_eq_nil_iff.mpr h

/-- Every line has its entry. -/
theorem length_lineEntries {agent : Agent} {lines : List (List Char)}
    (h : ∀ line ∈ lines, (F.entryOfLine agent line).isSome) :
    (F.lineEntries agent lines).length = lines.length :=
  List.filterMap_length_eq_length.mpr h

/-! ## Gemini -/

/-- Put a message in the place of the one with its id, or append it. -/
def upsertMessage (messages : List Entry) (message : Entry) : List Entry :=
  if F.entryId message ≠ "" ∧ F.entryId message ∈ messages.map F.entryId then
    messages.map fun old => if F.entryId old = F.entryId message then message else old
  else messages ++ [message]

/-- Messages with identifiers of their own are appended. -/
theorem foldl_upsertMessage : ∀ {messages found : List Entry},
    ((found ++ messages).filter (F.entryId · ≠ "")).Pairwise (F.entryId · ≠ F.entryId ·) →
      messages.foldl F.upsertMessage found = found ++ messages
  | [], found, _ => (List.append_nil found).symm
  | message :: messages, found, h => by
    have hfresh : ¬ (F.entryId message ≠ "" ∧ F.entryId message ∈ found.map F.entryId) := by
      rintro ⟨hid, hmem⟩
      obtain ⟨old, hold, heq⟩ := List.mem_map.mp hmem
      rw [List.filter_append, List.pairwise_append] at h
      refine h.2.2 old (List.mem_filter.mpr ⟨hold, ?_⟩) message
        (List.mem_filter.mpr ⟨List.mem_cons_self, ?_⟩) heq
      · simpa [heq] using hid
      · simpa using hid
    have happend : found ++ message :: messages = (found ++ [message]) ++ messages := by simp
    rw [List.foldl_cons, upsertMessage, if_neg hfresh, happend]
    rw [happend] at h
    exact foldl_upsertMessage h

/-- `parse_transcript_jsonl`. -/
def parseTranscriptJsonl (data : String) : List Entry :=
  (F.lineEntries .gemini (splitInclusive data.toList)).foldl F.upsertMessage []

/-- `GeminiTranscript` of a whole document. -/
def parseDocument (data : String) : Option (List Entry) :=
  match F.messages data with
  | some messages => messages.mapM F.entryOfMessage
  | none => if F.isBareObject data then some [] else none

/-- `parse_transcript`. -/
def parseTranscript (data : String) : Option (List Entry) :=
  if data = "" then some []
  else if (F.messages data).isSome || F.declaresNull data then F.parseDocument data
  else if F.parseTranscriptJsonl data ≠ [] then some (F.parseTranscriptJsonl data)
  else F.parseDocument data

/-! ## Entries and positions -/

/-- What the parser of the agent finds in a transcript. -/
def entries (agent : Agent) (data : String) : List Entry :=
  match agent with
  | .gemini => (F.parseTranscript data).getD []
  | .cursor =>
    match F.messages data with
    | some messages => messages.filterMap fun message => F.entryOfLine .cursor message.toList
    | none => F.lineEntries .cursor (splitInclusive data.toList)
  | agent => F.lineEntries agent (splitInclusive data.toList)

/-- `get_transcript_position`, where the adapter has a transcript analyser. -/
def position (agent : Agent) (data : String) : Option ℕ :=
  match agent with
  | .claudeCode | .cursor => none
  | .codex => some (transcriptPosition F.toDocumentCodec data)
  | .copilot => some (splitInclusive data.toList).length
  | .gemini => (F.parseTranscript data).map (·.length)
  | .openCode => some (F.entries .openCode data).length

/-- `extract_modified_files_from_offset`, where the adapter has a transcript analyser. -/
def extractModifiedFiles (agent : Agent) (data : String) (offset : ℕ) :
    Option (List String × ℕ) :=
  match agent with
  | .claudeCode | .cursor => none
  | .codex => some ([], transcriptPosition F.toDocumentCodec data)
  | .copilot =>
    let lines := splitInclusive data.toList
    some (F.modifiedFiles (F.lineEntries .copilot (lines.drop offset)), lines.length)
  | .gemini =>
    (F.parseTranscript data).map fun messages =>
      (F.modifiedFiles (messages.drop offset), messages.length)
  | .openCode =>
    let messages := F.entries .openCode data
    some (F.modifiedFiles (messages.drop offset), messages.length)

/-- Both functions of an analyser count alike. -/
theorem map_snd_extractModifiedFiles (agent : Agent) (data : String) (offset : ℕ) :
    (F.extractModifiedFiles agent data offset).map (·.2) = F.position agent data := by
  cases agent with
  | gemini =>
    rw [extractModifiedFiles, position, Option.map_map]
    rfl
  | _ => rfl

/-! ## Transcripts of lines -/

section Lines

variable {F} {agent : Agent} {lines : List (List Char)}

theorem entries_textOf (hlines : ∀ line ∈ lines, IsLine line) (hagent : agent ≠ .gemini)
    (hdocument : agent = .cursor → F.messages (textOf lines) = none) :
    F.entries agent (textOf lines) = F.lineEntries agent lines := by
  cases agent with
  | gemini => exact absurd rfl hagent
  | cursor =>
    rw [entries, hdocument rfl]
    dsimp only
    rw [toList_textOf, splitInclusive_flatten hlines]
  | claudeCode | codex | copilot | openCode =>
    rw [entries, toList_textOf, splitInclusive_flatten hlines]
    all_goals exact fun heq => nomatch heq

/-- The lines of Gemini, no two of which carry the same identifier. -/
structure GeminiLines (F : TranscriptFormats Entry) (lines : List (List Char)) : Prop where
  isLine : ∀ line ∈ lines, IsLine line
  notDocument : F.messages (textOf lines) = none ∧ F.declaresNull (textOf lines) = false
  ids : ((F.lineEntries .gemini lines).filter (F.entryId · ≠ "")).Pairwise
    (F.entryId · ≠ F.entryId ·)

/-- The parser finds the entries of the lines, or it fails where there are none. -/
theorem GeminiLines.parseTranscript (h : GeminiLines F lines) :
    F.parseTranscript (textOf lines) = some (F.lineEntries .gemini lines) ∨
      F.parseTranscript (textOf lines) = none ∧ F.lineEntries .gemini lines = [] := by
  have hjsonl : F.parseTranscriptJsonl (textOf lines) = F.lineEntries .gemini lines := by
    rw [parseTranscriptJsonl, toList_textOf, splitInclusive_flatten h.isLine]
    exact F.foldl_upsertMessage h.ids
  cases lines with
  | nil => exact .inl rfl
  | cons line lines =>
    rw [TranscriptFormats.parseTranscript, if_neg (textOf_ne_empty h.isLine), h.notDocument.1,
      h.notDocument.2, if_neg (by simp), hjsonl]
    by_cases hnil : F.lineEntries .gemini (line :: lines) = []
    · rw [if_neg (not_not.mpr hnil), parseDocument, h.notDocument.1, hnil]
      dsimp only
      split_ifs
      · exact .inl rfl
      · exact .inr ⟨rfl, rfl⟩
    · exact .inl (if_pos hnil)

theorem GeminiLines.entries (h : GeminiLines F lines) :
    F.entries .gemini (textOf lines) = F.lineEntries .gemini lines := by
  rw [TranscriptFormats.entries]
  rcases h.parseTranscript with heq | ⟨heq, hnil⟩
  · rw [heq, Option.getD_some]
  · rw [heq, hnil, Option.getD_none]

theorem GeminiLines.position (h : GeminiLines F lines) {default : ℕ}
    (hdefault : F.lineEntries .gemini lines = [] → default = 0) :
    (F.position .gemini (textOf lines)).getD default = (F.lineEntries .gemini lines).length := by
  rw [TranscriptFormats.position]
  rcases h.parseTranscript with heq | ⟨heq, hnil⟩
  · rw [heq]
    rfl
  · rw [heq, hnil]
    exact hdefault hnil

end Lines

/-! ## Documents -/

section Documents

variable {F} {data : String} {messages : List String}

theorem ne_empty_of_messages (h : F.messages data = some messages) : data ≠ "" := by
  rintro rfl
  cases F.messages_empty.symm.trans h

theorem parseTranscript_of_messages (h : F.messages data = some messages) :
    F.parseTranscript data = messages.mapM F.entryOfMessage := by
  rw [parseTranscript, if_neg (ne_empty_of_messages h), parseDocument, h]
  rfl

/-- What the parser finds in the messages from a position on. -/
theorem parseTranscript_fragment (h : F.messages data = some messages) (start : ℕ) :
    F.parseTranscript (transcriptFragment F.toDocumentCodec data start messages.length) =
      (messages.drop start).mapM F.entryOfMessage := by
  by_cases hstart : start < messages.length
  · rw [transcriptFragment_of_messages h hstart hstart, sliceBetween_length]
    exact F.parseTranscript_of_messages (F.messages_withMessages _ _ (by rw [h]; rfl))
  · rw [transcriptFragment, if_pos (by omega), List.drop_eq_nil_of_le (by omega)]
    exact if_pos rfl

end Documents

end TranscriptFormats

theorem length_of_mapM_eq_some {α β : Type*} {f : α → Option β} :
    ∀ {items : List α} {found : List β}, items.mapM f = some found →
      found.length = items.length
  | [], found, h => by
    obtain rfl := Option.some.inj h
    rfl
  | item :: items, found, h => by
    rw [List.mapM_cons] at h
    obtain ⟨entry, -, hrest⟩ := Option.bind_eq_some_iff.mp h
    obtain ⟨entries, hentries, hfound⟩ := Option.bind_eq_some_iff.mp hrest
    obtain rfl := Option.some.inj hfound
    rw [List.length_cons, List.length_cons, length_of_mapM_eq_some hentries]

/-- The entries of a transcript that were not at their places in an earlier one. -/
def newEntries {Entry : Type*} [DecidableEq Entry] (old new : List Entry) : List Entry :=
  (new.zipIdx.filter fun entry => old[entry.2]? ≠ some entry.1).map (·.1)

end SessionLifecycle
end Bitloops
