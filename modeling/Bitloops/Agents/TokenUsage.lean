import Bitloops.Agents.GeminiTranscripts
import Bitloops.Checkpoints.TranscriptLines
import Mathlib

/-!
# Token usage

How the agents count the tokens of a transcript from a position on, and the position that they
report for a transcript.  Numbers are integers; the differences of Codex saturate.
-/

namespace Bitloops
namespace Agents
namespace TokenUsages

open ArchitectureRoles Checkpoints.TranscriptLines GeminiTranscripts TextLines Utf8Lossy
open LanguageAdapter (trim)

@[ext]
structure TokenUsage where
  inputTokens : ℤ := 0
  cacheCreationTokens : ℤ := 0
  cacheReadTokens : ℤ := 0
  outputTokens : ℤ := 0
  apiCallCount : ℤ := 0
  deriving DecidableEq

namespace TokenUsage

instance : Zero TokenUsage := ⟨{}⟩

/-- Field by field. -/
instance : Add TokenUsage where
  add a b :=
    { inputTokens := a.inputTokens + b.inputTokens
      cacheCreationTokens := a.cacheCreationTokens + b.cacheCreationTokens
      cacheReadTokens := a.cacheReadTokens + b.cacheReadTokens
      outputTokens := a.outputTokens + b.outputTokens
      apiCallCount := a.apiCallCount + b.apiCallCount }

end TokenUsage

/-- What an agent counts in a file from an offset on, and the position that it reports. -/
structure TokenCalculator where
  usage : List UInt8 → ℕ → Option TokenUsage
  position : List UInt8 → Option ℕ

/-! ## Claude -/

structure MessageUsage where
  inputTokens : ℤ
  cacheCreationInputTokens : ℤ
  cacheReadInputTokens : ℤ
  outputTokens : ℤ

structure MessageWithUsage where
  id : String
  usage : MessageUsage

/-- What `serde_json` makes of lines, and of the messages in them. -/
structure ClaudeReader extends JsonReader where
  message : JsonValue → Option MessageWithUsage

def replaceUsage (usageByMessageId : List (String × MessageUsage)) (msg : MessageWithUsage) :
    List (String × MessageUsage) :=
  match usageByMessageId.lookup msg.id with
  | none => usageByMessageId ++ [(msg.id, msg.usage)]
  | some current =>
    if msg.usage.outputTokens > current.outputTokens then
      usageByMessageId.map fun entry => if entry.1 = msg.id then (msg.id, msg.usage) else entry
    else usageByMessageId

/-- The message of a line, if its usage counts. -/
def countedMessage (reader : ClaudeReader) (line : Line) : Option MessageWithUsage :=
  if line.type ≠ typeAssistant then none
  else (reader.message line.message).filter fun msg => msg.id ≠ ""

def usageByMessageId (reader : ClaudeReader) (transcript : List Line) :
    List (String × MessageUsage) :=
  (transcript.filterMap (countedMessage reader)).foldl replaceUsage []

def claudeUsage (reader : ClaudeReader) (transcript : List Line) : TokenUsage :=
  let usages := usageByMessageId reader transcript
  { inputTokens := (usages.map fun entry => entry.2.inputTokens).sum
    cacheCreationTokens := (usages.map fun entry => entry.2.cacheCreationInputTokens).sum
    cacheReadTokens := (usages.map fun entry => entry.2.cacheReadInputTokens).sum
    outputTokens := (usages.map fun entry => entry.2.outputTokens).sum
    apiCallCount := usages.length }

/-- The position is the number of lines. -/
def claude (reader : ClaudeReader) : TokenCalculator where
  usage data startLine :=
    some (claudeUsage reader (parseFromFileAtLine reader.toJsonReader data startLine).1)
  position data := some (parseFromFileAtLine reader.toJsonReader data 0).2

/-! ## Codex -/

structure CodexTokenUsageCounters where
  inputTokens : ℤ := 0
  cachedInputTokens : ℤ := 0
  outputTokens : ℤ := 0
  deriving DecidableEq

structure CodexTokenUsageLine where
  recordType : String
  payloadType : String
  totalTokenUsage : CodexTokenUsageCounters

structure CodexReader where
  line : List Char → Option CodexTokenUsageLine
  value : List Char → Option JsonValue

/-- `i32::saturating_sub`. -/
def saturatingSub (a b : ℤ) : ℤ := max (-2 ^ 31) (min (2 ^ 31 - 1) (a - b))

def parseTotalTokenUsage (reader : CodexReader) (rawLine : List Char) :
    Option CodexTokenUsageCounters := do
  let parsed ← reader.line rawLine
  if parsed.recordType ≠ "event_msg" ∨ parsed.payloadType ≠ "token_count" then none
  else some parsed.totalTokenUsage

structure CodexState where
  before : CodexTokenUsageCounters := {}
  latestAfter : Option CodexTokenUsageCounters := none
  apiCallCount : ℤ := 0

def codexStep (reader : CodexReader) (fromOffset : ℕ) (state : CodexState)
    (entry : List Char × ℕ) : CodexState :=
  match parseTotalTokenUsage reader entry.1 with
  | none => state
  | some totalUsage =>
    if entry.2 < fromOffset then { state with before := totalUsage }
    else
      { state with latestAfter := some totalUsage, apiCallCount := state.apiCallCount + 1 }

/-- The usage between two counters. -/
def codexDelta (before after : CodexTokenUsageCounters) (apiCallCount : ℤ) : TokenUsage :=
  let totalInputDelta := saturatingSub after.inputTokens before.inputTokens
  let cacheReadDelta := saturatingSub after.cachedInputTokens before.cachedInputTokens
  { inputTokens := saturatingSub totalInputDelta cacheReadDelta
    cacheReadTokens := cacheReadDelta
    outputTokens := saturatingSub after.outputTokens before.outputTokens
    apiCallCount := apiCallCount }

def codexUsage (reader : CodexReader) (text : List Char) (fromOffset : ℕ) : TokenUsage :=
  let state := (textLines text).zipIdx.foldl (codexStep reader fromOffset) {}
  match state.latestAfter with
  | none => {}
  | some after => codexDelta state.before after state.apiCallCount

/-- A transcript that is one JSON value with messages has their number as its position. -/
def structuredMessageCount (reader : CodexReader) (data : List UInt8) : Option ℕ := do
  let text ← fromUtf8 data
  let root ← reader.value text
  match root.get "messages" with
  | some (.array messages) => some messages.length
  | _ => none

def transcriptPositionFromBytes (reader : CodexReader) (data : List UInt8) : ℕ :=
  if data = [] then 0
  else
    match structuredMessageCount reader data with
    | some messageCount => messageCount
    | none => (Terminated.chunks '\n' (decode data)).length

def codex (reader : CodexReader) : TokenCalculator where
  usage data fromOffset := (fromUtf8 data).map fun text => codexUsage reader text fromOffset
  position data := some (transcriptPositionFromBytes reader data)

/-! ## Copilot -/

structure CopilotEvent where
  eventType : String
  data : JsonValue

structure ModelMetric where
  requestCount : ℤ
  inputTokens : ℤ
  outputTokens : ℤ
  cacheReadTokens : ℤ
  cacheWriteTokens : ℤ

/-- What `serde_json` makes of lines, and of the data of shutdown and assistant events. -/
structure CopilotReader where
  event : List Char → Option CopilotEvent
  modelMetrics : JsonValue → Option (List ModelMetric)
  outputTokens : JsonValue → Option ℤ

def eventTypeAssistantMessage : String := "assistant.message"

def eventTypeSessionShutdown : String := "session.shutdown"

def eventStep (reader : CopilotReader) (startOffset : ℕ) (state : List CopilotEvent × ℕ)
    (line : List Char) : List CopilotEvent × ℕ :=
  let lineCount := state.2 + 1
  if lineCount ≤ startOffset ∨ trim line = [] then (state.1, lineCount)
  else
    match reader.event line with
    | some event => (state.1 ++ [event], lineCount)
    | none => (state.1, lineCount)

/-- The events after the offset, and the number of lines. -/
def parseEventsFromOffset (reader : CopilotReader) (text : List Char) (startOffset : ℕ) :
    List CopilotEvent × ℕ :=
  (textLines text).foldl (eventStep reader startOffset) ([], 0)

def shutdownMetrics (reader : CopilotReader) (event : CopilotEvent) : Option (List ModelMetric) :=
  if event.eventType ≠ eventTypeSessionShutdown then none else reader.modelMetrics event.data

def assistantOutput (reader : CopilotReader) (event : CopilotEvent) : Option ℤ :=
  if event.eventType ≠ eventTypeAssistantMessage then none else reader.outputTokens event.data

def addMetric (usage : TokenUsage) (metric : ModelMetric) : TokenUsage where
  inputTokens := usage.inputTokens + metric.inputTokens
  outputTokens := usage.outputTokens + metric.outputTokens
  cacheReadTokens := usage.cacheReadTokens + metric.cacheReadTokens
  cacheCreationTokens := usage.cacheCreationTokens + metric.cacheWriteTokens
  apiCallCount := usage.apiCallCount + metric.requestCount

def addOutput (usage : TokenUsage) (outputTokens : ℤ) : TokenUsage :=
  { usage with
    outputTokens := usage.outputTokens + outputTokens
    apiCallCount := if outputTokens > 0 then usage.apiCallCount + 1 else usage.apiCallCount }

/-- The totals of the last shutdown, and without one the tokens of the messages. -/
def copilotUsage (reader : CopilotReader) (events : List CopilotEvent) : TokenUsage :=
  match events.reverse.findSome? (shutdownMetrics reader) with
  | some modelMetrics => modelMetrics.foldl addMetric {}
  | none => (events.filterMap (assistantOutput reader)).foldl addOutput {}

def copilot (reader : CopilotReader) : TokenCalculator where
  usage data fromOffset :=
    (fromUtf8 data).map fun text =>
      copilotUsage reader (parseEventsFromOffset reader text fromOffset).1
  position data :=
    if data = [] then some 0
    else (fromUtf8 data).map fun text => (parseEventsFromOffset reader text 0).2

/-! ## Gemini -/

variable {D : Type}

/-- The tokens of a message of the model. -/
def geminiTokens (msg : GeminiMessage D) : Option GeminiMessageTokens :=
  if msg.type ≠ messageTypeGemini then none else msg.tokens

def addGeminiTokens (usage : TokenUsage) (tokens : GeminiMessageTokens) : TokenUsage :=
  { usage with
    apiCallCount := usage.apiCallCount + 1
    inputTokens := usage.inputTokens + tokens.input
    outputTokens := usage.outputTokens + tokens.output
    cacheReadTokens := usage.cacheReadTokens + tokens.cached }

def geminiUsage (messages : List (GeminiMessage D)) : TokenUsage :=
  (messages.filterMap geminiTokens).foldl addGeminiTokens {}

/-- The first messages are left out.  The position is the number of messages. -/
def gemini (codec : GeminiCodec D) : TokenCalculator where
  usage data startMessageIndex :=
    match parseTranscript codec data with
    | none => some {}
    | some messages => some (geminiUsage (messages.drop startMessageIndex))
  position data :=
    if data = [] then some 0 else (parseTranscript codec data).map List.length

/-! ## OpenCode -/

structure MessageTokens where
  input : ℤ
  output : ℤ
  cacheRead : ℤ
  cacheWrite : ℤ

structure OpenCodeMessage where
  role : String
  tokens : Option MessageTokens

def roleAssistant : String := "assistant"

/-- `u8::is_ascii_whitespace`. -/
def isAsciiWhitespace (byte : UInt8) : Bool :=
  byte = 0x20 || byte = 0x09 || byte = 0x0A || byte = 0x0C || byte = 0x0D

def parseMessages (message : List UInt8 → Option OpenCodeMessage) (data : List UInt8) :
    List OpenCodeMessage :=
  if data = [] then []
  else
    (data.splitOn newline).filterMap fun line =>
      if line.all isAsciiWhitespace then none else message line

def assistantTokens (msg : OpenCodeMessage) : Option MessageTokens :=
  if msg.role ≠ roleAssistant then none else msg.tokens

def addMessageTokens (usage : TokenUsage) (tokens : MessageTokens) : TokenUsage where
  inputTokens := usage.inputTokens + tokens.input
  outputTokens := usage.outputTokens + tokens.output
  cacheReadTokens := usage.cacheReadTokens + tokens.cacheRead
  cacheCreationTokens := usage.cacheCreationTokens + tokens.cacheWrite
  apiCallCount := usage.apiCallCount + 1

def openCode (message : List UInt8 → Option OpenCodeMessage) : TokenCalculator where
  usage data startMessageIndex :=
    some ((((parseMessages message data).drop startMessageIndex).filterMap
      assistantTokens).foldl addMessageTokens {})
  position data := some (parseMessages message data).length

end TokenUsages
end Agents
end Bitloops
