import QueQiao.Handlers.StreamHandler
import QueQiao.Metrics.RequestMetrics

namespace QueQiao.StreamLoggers

open StreamHandler RequestMetrics

/-- The part of an audit record that tells how the request ended. -/
structure AuditRecord where
  status : ℤ
  backend : String
  endpoint : String
  error : Option String
  deriving DecidableEq

structure Interruption where
  endpoint : String
  model : String
  backend : String
  error : String
  deriving DecidableEq

/-- What a task leaves behind: audit records, the tokens that it counts itself under a model, and
events for the worker. What the stream itself logs is kept with it. -/
structure Emitted where
  records : List AuditRecord := []
  counted : List (String × ℕ × ℕ) := []
  events : List MetricEvent := []
  interruptions : List Interruption := []

/-- The arguments of a logger task that do not change, and the time that it measures at its end. -/
structure LoggerArgs where
  isChat : Bool
  model : String
  backend : String
  endpoint : String
  status : String
  totalElapsed : ℚ

def outcomeToStatus (outcome : StreamOutcome) (sawTerminalEvent : Bool) : ℤ × Option String :=
  if outcome = .upstreamError then (502, some "upstream stream interrupted")
  else if outcome = .completed || sawTerminalEvent then (200, none)
  else (499, some "client disconnected before stream completed")

def LoggerArgs.record (args : LoggerArgs) (ending : ℤ × Option String) : AuditRecord where
  status := ending.1
  backend := args.backend
  endpoint := args.endpoint
  error := ending.2

def LoggerArgs.event (args : LoggerArgs) (isSuccess : Bool) (counts : Option ℕ × Option ℕ) :
    MetricEvent where
  endpoint := args.endpoint
  status := args.status
  model := args.model
  backend := args.backend
  latency := args.totalElapsed
  isSuccess := isSuccess
  completionTokens := counts.1
  promptTokens := counts.2
  elapsed := some args.totalElapsed

def count (usage : Json) (key : String) : Option ℕ := (usage.get key).bind Json.asU64

def usageCounts (usage : Json) : Option ℕ × Option ℕ :=
  ((count usage "completion_tokens").or (count usage "output_tokens"),
    (count usage "prompt_tokens").or (count usage "input_tokens"))

section Chat

def streamUpstreamErrorSentinel : String := "\x00__STREAM_UPSTREAM_ERROR__\x00"

def chunkStr : LogMessage → String
  | .text s => s
  | .upstreamError => streamUpstreamErrorSentinel

/-- `stream_logger_task` reads no other names of the counts. -/
def chatCounts (usage : Json) : Option ℕ × Option ℕ :=
  (count usage "completion_tokens", count usage "prompt_tokens")

structure ChatLog where
  firstChunk : Option Json := none
  lastChunk : Option Json := none
  capturedUsage : Option Json := none
  streamFailed : Bool := false
  counted : List (ℕ × ℕ) := []

def bothCounts : Option ℕ × Option ℕ → Option (ℕ × ℕ)
  | (some completion, some prompt) => some (completion, prompt)
  | _ => none

variable (serdeFromStr : String → Option Json)

def ChatLog.receive (s : ChatLog) (chunkStr : String) : ChatLog :=
  if chunkStr = streamUpstreamErrorSentinel then { s with streamFailed := true }
  else
    match serdeFromStr chunkStr with
    | none => s
    | some chunk =>
      let s := { s with firstChunk := s.firstChunk.or (some chunk), lastChunk := some chunk }
      match chunk.get "usage" with
      | none => s
      | some usage =>
        { s with
          capturedUsage := some usage
          counted := s.counted ++ (bothCounts (chatCounts usage)).toList }

def ChatLog.finalChunk (s : ChatLog) : Json :=
  let last := s.lastChunk.getD <| .obj [("choices", .arr [.obj [("index", .num 0)]]),
    ("object", .str "chat.completion"), ("usage", .null)]
  if (last.get "choices").isNone then s.firstChunk.getD last else last

/-- `value["key"] = ..` panics on a value that is neither an object nor null. -/
def takesFields : Json → Bool
  | .null | .obj _ => true
  | _ => false

/-- Whether the content can be injected: into the first choice, or into the chunk if it has no
choices. -/
def takesContent (chunk : Json) : Bool :=
  match chunk.get "choices" with
  | some (.arr (choice :: _)) => takesFields choice
  | _ => takesFields chunk

/-- A panic ends the task where it is. -/
def streamLoggerTask (args : LoggerArgs) (outcome : StreamOutcome) (received : List String) :
    Emitted :=
  let s := received.foldl (ChatLog.receive serdeFromStr) {}
  let counted := s.counted.map fun counts ↦ (args.model, counts)
  if (s.lastChunk.isSome || outcome = .upstreamError) && takesContent s.finalChunk then
    { records := [args.record (outcomeToStatus outcome false)]
      counted := counted
      events := [args.event (!s.streamFailed) ((s.capturedUsage.map chatCounts).getD (none, none))] }
  else { counted := counted }

end Chat

section Responses

variable (serdeFromStr : String → Option Json)

def isType (chunk : Json) (kind : String) : Bool := (chunk.get "type").bind Json.asStr = some kind

def receiveResponse (finalResponse : Option Json) (chunkStr : String) : Option Json :=
  match serdeFromStr chunkStr with
  | none => finalResponse
  | some chunk =>
    if isType chunk "response.completed" then (chunk.get "response").or finalResponse
    else finalResponse

def responsesStreamLoggerTask (args : LoggerArgs) (outcome : StreamOutcome)
    (received : List String) : Emitted :=
  let finalResponse := received.foldl (receiveResponse serdeFromStr) none
  if finalResponse.isSome || outcome = .upstreamError then
    { records := [args.record (outcomeToStatus outcome finalResponse.isSome)]
      events := [args.event (outcome ≠ .upstreamError)
        (((finalResponse.bind (·.get "usage")).map usageCounts).getD (none, none))] }
  else {}

end Responses

section Anthropic

structure AnthropicStreamAccumulator where
  messageId : Option String := none
  model : Option String := none
  contentBlocks : List (ℕ × Json) := []
  usage : Option Json := none

namespace AnthropicStreamAccumulator

def insertBlock (index : ℕ) (block : Json) (acc : AnthropicStreamAccumulator) :
    AnthropicStreamAccumulator :=
  { acc with contentBlocks := (index, block) :: acc.contentBlocks.filter (·.1 ≠ index) }

def index (data : Json) : ℕ := ((data.get "index").bind Json.asU64).getD 0

def handleMessageStart (data : Json) (acc : AnthropicStreamAccumulator) :
    AnthropicStreamAccumulator :=
  match data.get "message" with
  | none => acc
  | some msg =>
    { acc with
      messageId := (msg.get "id").bind Json.asStr
      model := (msg.get "model").bind Json.asStr
      usage := msg.get "usage" }

def handleContentBlockStart (data : Json) (acc : AnthropicStreamAccumulator) :
    AnthropicStreamAccumulator :=
  acc.insertBlock (index data) ((data.get "content_block").getD (.obj []))

/-- The field that a delta changes, and whether its text is added to the end. -/
def deltaField (deltaType : String) : Option (String × Bool) :=
  [("thinking_delta", "thinking", true), ("text_delta", "text", true),
    ("signature_delta", "signature", false), ("input_json_delta", "partial_json", true)].lookup
    deltaType

/-- `block[key] = value`, where it does not panic. -/
def setField (key value : String) : Json → Option Json
  | .null => some (.obj [(key, .str value)])
  | .obj fields => some (.obj (Json.Fields.insert key (.str value) fields))
  | _ => none

def handleContentBlockDelta (data : Json) (acc : AnthropicStreamAccumulator) :
    Option AnthropicStreamAccumulator :=
  match data.get "delta" with
  | none => some acc
  | some delta =>
    let block := (acc.contentBlocks.lookup (index data)).getD (.obj [])
    let field := deltaField (((delta.get "type").bind Json.asStr).getD "")
    match field.bind fun (key, append) ↦ ((delta.get key).bind Json.asStr).map fun text ↦
      (key, append, text) with
    | none => some (acc.insertBlock (index data) block)
    | some (key, append, text) =>
      let existing := if append then ((block.get key).bind Json.asStr).getD "" else ""
      (setField key (existing ++ text) block).map (acc.insertBlock (index data))

def handleMessageDelta (data : Json) (acc : AnthropicStreamAccumulator) :
    AnthropicStreamAccumulator :=
  { acc with usage := (data.get "usage").or acc.usage }

def handle (chunk : Json) (acc : AnthropicStreamAccumulator) : Option AnthropicStreamAccumulator :=
  if isType chunk "message_start" then some (acc.handleMessageStart chunk)
  else if isType chunk "content_block_start" then some (acc.handleContentBlockStart chunk)
  else if isType chunk "content_block_delta" then acc.handleContentBlockDelta chunk
  else if isType chunk "message_delta" then some (acc.handleMessageDelta chunk)
  else some acc

def hasContent (acc : AnthropicStreamAccumulator) : Bool :=
  !acc.contentBlocks.isEmpty || acc.messageId.isSome || acc.model.isSome

end AnthropicStreamAccumulator

variable (serdeFromStr : String → Option Json)

/-- The loop of the task, with whether it ended at `message_stop`; a panic is `none`. -/
def receiveMessages (acc : AnthropicStreamAccumulator) :
    List String → Option (AnthropicStreamAccumulator × Bool)
  | [] => some (acc, false)
  | chunkStr :: received =>
    match serdeFromStr chunkStr with
    | none => receiveMessages acc received
    | some chunk =>
      if isType chunk "message_stop" then some (acc, true)
      else (acc.handle chunk).bind fun acc ↦ receiveMessages acc received

/-- `outcome` is read at the end of the loop, which can be before the stream ends. -/
def anthropicStreamLoggerTask (args : LoggerArgs) (outcome : StreamOutcome)
    (received : List String) : Emitted :=
  match receiveMessages serdeFromStr {} received with
  | none => {}
  | some (acc, sawTerminal) =>
    if acc.hasContent || outcome = .upstreamError then
      { records := [args.record (outcomeToStatus outcome sawTerminal)]
        events := [args.event (outcome ≠ .upstreamError)
          ((acc.usage.map usageCounts).getD (none, none))] }
    else {}

end Anthropic

end QueQiao.StreamLoggers
