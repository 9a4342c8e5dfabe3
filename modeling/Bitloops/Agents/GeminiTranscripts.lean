import Bitloops.ArchitectureRoles.Taxonomy
import Bitloops.Foundation.TextLines
import Bitloops.Foundation.Utf8Lossy
import Bitloops.LanguageAdapter.RustImports

/-!
# Transcripts of Gemini

A transcript of Gemini is a document `\x7b"messages": [...]\x7d`, or one JSON value on each line.
`parseTranscript` reads both, and keeps the latest form of a message that was written more than
once.
-/

namespace Bitloops
namespace Agents
namespace GeminiTranscripts

open ArchitectureRoles TextLines Utf8Lossy
open LanguageAdapter (trim)

structure GeminiMessageTokens where
  input : ℤ
  output : ℤ
  cached : ℤ
  deriving DecidableEq

/-- A message; `details` are its tool calls and thoughts, and the other numbers of tokens. -/
structure GeminiMessage (D : Type) where
  id : String
  type : String
  content : String
  tokens : Option GeminiMessageTokens
  details : D

def messageTypeUser : String := "user"

def messageTypeGemini : String := "gemini"

variable {D : Type}

def asciiBytes (text : String) : List UInt8 := text.toList.map fun c => UInt8.ofNat c.toNat

/-- `serde_json::to_vec` of a transcript with these messages. -/
def transcriptBytes (messageBytes : GeminiMessage D → List UInt8)
    (messages : List (GeminiMessage D)) : List UInt8 :=
  asciiBytes "\x7b\"messages\":[" ++ (asciiBytes ",").intercalate (messages.map messageBytes) ++
    asciiBytes "]\x7d"

/-- The messages of a transcript document. -/
def Readable (document : List UInt8 → Option (List (GeminiMessage D))) (message : GeminiMessage D) :
    Prop :=
  ∃ data messages, document data = some messages ∧ message ∈ messages

/-- `serde_json` skips these characters around a value. -/
def jsonSpace (c : Char) : Bool := c = ' ' || c = '\t' || c = '\n' || c = '\r'

/-- What `serde_json` reads and writes.  A message that is written is read as `reread` says: a
number in the arguments of a tool call may change in its last digit. -/
structure GeminiCodec (D : Type) where
  document : List UInt8 → Option (List (GeminiMessage D))
  value : List Char → Option JsonValue
  message : JsonValue → Option (GeminiMessage D)
  messageBytes : GeminiMessage D → List UInt8
  reread : GeminiMessage D → GeminiMessage D
  document_nil : document [] = none
  document_transcriptBytes : ∀ messages, (∀ message ∈ messages, Readable document message) →
    document (transcriptBytes messageBytes messages) = some (messages.map reread)
  root_transcriptBytes : ∀ messages, (∀ message ∈ messages, Readable document message) →
    ∃ root items,
      (fromUtf8 (transcriptBytes messageBytes messages)).bind value = some root ∧
        root.get "messages" = some (.array items)

variable (codec : GeminiCodec D)

/-! ## Lines -/

structure JsonlState (D : Type) where
  messages : List (GeminiMessage D) := []
  idIndex : List (String × ℕ) := []

/-- Upsert by id: the latest write replaces earlier ones. -/
def upsertMessage (state : JsonlState D) (msg : GeminiMessage D) : JsonlState D :=
  if msg.id = "" then { state with messages := state.messages ++ [msg] }
  else
    match state.idIndex.lookup msg.id with
    | some idx => { state with messages := state.messages.set idx msg }
    | none =>
      { messages := state.messages ++ [msg],
        idIndex := state.idIndex ++ [(msg.id, state.messages.length)] }

/-- The message of a line. -/
def lineMessage (line : List Char) : Option (GeminiMessage D) :=
  if trim line = [] then none
  else do
    let value ← codec.value (trim line)
    if (value.get "$set").isSome then none
    else do
      let msgType ← (value.get "type").bind JsonValue.asStr
      if msgType ≠ messageTypeUser ∧ msgType ≠ messageTypeGemini then none
      else codec.message value

def parseTranscriptJsonl (data : List UInt8) : Option (List (GeminiMessage D)) := do
  let text ← fromUtf8 data
  some (((textLines text).filterMap (lineMessage codec)).foldl upsertMessage {}).messages

/-! ## Transcripts -/

/-- The root of a document declares its messages. -/
def declaresMessages (data : List UInt8) : Bool :=
  match ((fromUtf8 data).bind codec.value).bind (·.get "messages") with
  | some (.array _) | some .null => true
  | _ => false

def parseTranscript (data : List UInt8) : Option (List (GeminiMessage D)) :=
  if data = [] then some []
  else if declaresMessages codec data then codec.document data
  else
    match parseTranscriptJsonl codec data with
    | some (msg :: messages) => some (msg :: messages)
    | _ => codec.document data

end GeminiTranscripts
end Agents
end Bitloops
