import QueQiao.Handlers.StreamLoggers
import QueQiao.Services.LastRound

namespace QueQiao

def StatusCode.payloadTooLarge : StatusCode := ⟨413, by decide⟩

namespace RequestRun

open CommonHandler Dispatcher StreamHandler StreamLoggers RequestMetrics

structure Env where
  X : Dispatcher.Externals
  H : CommonHandler.Externals
  texts : Texts
  config : Config
  payloadToValue : RequestPayload → Json

section Refusals

def requestTooLargeMessage : Option (String × ℕ) → String
  | some (words, limit) =>
    "Request body too large: the gateway accepts request bodies up to " ++ words ++
      s!" ({limit} bytes) and this request exceeded it. Reduce conversation history or inline " ++
      "image payloads and retry. The limit can be raised with the MAX_REQUEST_BODY_BYTES " ++
      "environment variable."
  | none =>
    "Request body too large: this request exceeded the gateway request body limit. Reduce " ++
      "conversation history or inline image payloads and retry."

/-- A body that `CustomJson` does not extract. -/
inductive Refusal
  | tooLarge (limit : Option (String × ℕ))
  | disconnected (errMsg : String)
  | unreadable (status : StatusCode) (text : List UInt8)
  | invalid (errorMessage bodyStr : String)

def Refusal.response (serdeFromStr : String → Option Json) : Refusal → Response
  | .tooLarge limit =>
    let errorMessage := requestTooLargeMessage limit
    { status := .payloadTooLarge
      body := .json (buildErrorBody errorMessage "request_too_large")
      log := some ⟨"-", "unknown", some errorMessage, none⟩ }
  | .disconnected errMsg =>
    { status := .badRequest
      body := .json (buildErrorBody ("Client disconnected before the request body was fully " ++
        "received. Please check network stability or increase the client-side timeout.")
        "client_disconnect")
      log := some ⟨"-", "unknown", some ("Client disconnected prematurely: " ++ errMsg), none⟩ }
  | .unreadable status text => { status := status, body := .bytes text }
  | .invalid errorMessage bodyStr =>
    let model := ((serdeFromStr bodyStr).bind fun v ↦ (v.get "model").bind Json.asStr).getD "-"
    let finalErrorMsg := "Request body validation failed: " ++ errorMessage
    { status := .unprocessableEntity
      body := .json (buildErrorBody finalErrorMsg "InvalidRequest")
      log := some ⟨model, "unknown", some finalErrorMsg, some bodyStr⟩ }

def validationMessage : RequestPayload → Option String
  | .chat _ => some "Request param messages not arr or arr is empty"
  | .completion _ => some "Request param prompt is empty"
  | .embedding _ | .classify _ | .responses _ => some "Request param input is empty"
  | .rerank _ => some "Request param query or documents is empty"
  | .score _ => some "Request param text_1 or text_2 is empty"
  | .anthropicMessages _ => none

def logBody (env : Env) (payload : RequestPayload) : String :=
  env.H.renderJson (truncateJson (env.payloadToValue payload))

def createValidationError (env : Env) (msg : String) (payload : RequestPayload) : Response where
  status := .unprocessableEntity
  body := .json (buildErrorBody msg "Input Validation Error")
  log := some ⟨payload.getModel, "unknown", some msg, some (logBody env payload)⟩

/-- `handle_request_logic` adds the body of the request to an entry that has none. -/
def fillRequestBody (env : Env) (payload : RequestPayload) (resp : Response) : Response :=
  { resp with log := resp.log.map fun entry ↦
      { entry with requestBody := entry.requestBody.or (some (logBody env payload)) } }

end Refusals

section Streams

/-- What is read of an upstream stream: the items that are polled, and whether the end is. The
task for Anthropic reads the outcome at `message_stop` or later. -/
structure StreamRun where
  items : List Item
  ended : Bool
  readsLate : Bool := false

def atEnd (ended : Bool) (outcome : StreamOutcome) : StreamOutcome :=
  if ended then outcome.mark .completed else outcome

def pollItem (outcome : StreamOutcome) : Item → StreamOutcome
  | .ok _ => outcome
  | .error _ => outcome.mark .upstreamError

/-- `OutcomeSignal`, of a stream that goes on after an error. -/
def signalOutcome (items : List Item) : StreamOutcome := items.foldl pollItem .running

def sentData (items : List Item) : List String :=
  items.filterMap fun item ↦ item.toOption.map (·.data)

def streamConfig (config : Config) (client : ClientConfig) (payload : RequestPayload) :
    StreamConfig where
  isChat := payload.isChat
  specialPrefix := client.specialPrefix.getD ""
  thinkingFormat := config.resolveThinkingFormat client
  echoInboundModel := client.modelEcho = .inbound
  modelName := payload.getModel

def isStop (serdeFromStr : String → Option Json) (item : Item) : Bool :=
  item.toOption.any fun event ↦ (serdeFromStr event.data).any (isType · "message_stop")

def StreamRun.outcome (run : StreamRun) : StreamOutcome :=
  atEnd run.ended (signalOutcome run.items)

def StreamRun.outcomeRead (serdeFromStr : String → Option Json) (run : StreamRun) :
    StreamOutcome :=
  if run.items.any (isStop serdeFromStr) && !run.readsLate then
    signalOutcome (run.items.takeWhile fun item ↦ !isStop serdeFromStr item)
  else run.outcome

def StreamRun.chatState (texts : Texts) (cfg : StreamConfig) (run : StreamRun) : StreamState :=
  (flatMap texts cfg (.init cfg) (terminateOnError run.items)).2

def streamEndpoint : RequestPayload → String
  | .responses _ => "/v1/responses"
  | .anthropicMessages _ => "/v1/messages"
  | payload => if payload.isChat then "/v1/chat/completions" else "/v1/completions"

def loggerArgs (payload : RequestPayload) (client : ClientConfig) (totalElapsed : ℚ) :
    LoggerArgs where
  isChat := payload.isChat
  model := payload.getModel
  backend := client.name
  endpoint := streamEndpoint payload
  status := "200"
  totalElapsed := totalElapsed

def loggerEmitted (env : Env) (payload : RequestPayload) (client : ClientConfig) (elapsed : ℚ)
    (run : StreamRun) : Emitted :=
  let args := loggerArgs payload client elapsed
  match payload with
  | .responses _ =>
    responsesStreamLoggerTask env.texts.serdeFromStr args run.outcome (sentData run.items)
  | .anthropicMessages _ =>
    anthropicStreamLoggerTask env.texts.serdeFromStr args
      (run.outcomeRead env.texts.serdeFromStr) (sentData run.items)
  | _ =>
    let s := run.chatState env.texts (streamConfig env.config client payload)
    streamLoggerTask env.texts.serdeFromStr args (atEnd run.ended s.outcome)
      (s.logged.map chunkStr)

def itemError : Item → Option String
  | .ok _ => none
  | .error error => some error

def streamErrors (env : Env) (payload : RequestPayload) (client : ClientConfig)
    (run : StreamRun) : List String :=
  match payload with
  | .responses _ | .anthropicMessages _ => run.items.filterMap itemError
  | _ => (run.chatState env.texts (streamConfig env.config client payload)).interruptions

def streamEmitted (env : Env) (payload : RequestPayload) (client : ClientConfig) (elapsed : ℚ)
    (run : StreamRun) : Emitted :=
  { loggerEmitted env payload client elapsed run with
    interruptions := (streamErrors env payload client run).map fun error ↦
      ⟨streamEndpoint payload, payload.getModel, client.name, error⟩ }

end Streams

section Attempts

/-- What one attempt meets: the model it asks for, its exchanges with the upstream, and the stream
that follows if there is one. -/
structure Contact where
  model : String
  exchange : Exchange
  elapsed : ℚ
  stream : StreamRun

/-- What `process_non_streaming_response` spawns and sends for a success. -/
def plainEmitted (payload : RequestPayload) (client : ClientConfig) (elapsed : ℚ)
    (status : StatusCode) (responseBody : Json) : Emitted :=
  let endpoint := "/v1/" ++ endpointPath payload
  { records := [⟨status.asU16, client.name, endpoint, none⟩]
    events :=
      match ((responseBody.get "usage").map usageCounts).bind bothCounts with
      | none => []
      | some (completion, prompt) => [
          { endpoint := endpoint
            status := toString status.asU16
            model := payload.getModel
            backend := client.name
            latency := elapsed
            isSuccess := true
            completionTokens := some completion
            promptTokens := some prompt
            elapsed := some elapsed }] }

/-- What `dispatch_request` leaves behind, by its result: only a success leaves anything. -/
def attemptEmitted (env : Env) (payload : RequestPayload) (client : ClientConfig)
    (contact : Contact) : Except AppError Response → Emitted
  | .error _ => {}
  | .ok resp =>
    if resp.status.isSuccess then
      match resp.body with
      | .json v => plainEmitted payload client contact.elapsed resp.status v
      | .events => streamEmitted env payload client contact.elapsed contact.stream
      | .bytes _ => {}
    else {}

/-- A request that the dispatcher has finished, and what each of its attempts met; `answer` is the
callback. -/
structure Handled (env : Env) (model : String) (endpoint : Option String)
    (answer : Contact → ClientConfig → Except AppError Response) where
  routingKeys : Option (List (String × ℕ))
  fuel : ℕ
  visits : ℕ → Visit
  registry : CircuitBreaker.RegistryState
  response : Response
  state : ExecState
  returned : execute env.X env.config routingKeys endpoint fuel visits model registry =
    some (response, state)
  met : List (Attempt × Contact)
  attempts : state.attempts = met.map Prod.fst
  answers : ∀ p ∈ met, p.1.result = answer p.2 p.1.client

variable {env : Env} {model : String} {endpoint : Option String}
  {answer : Contact → ClientConfig → Except AppError Response}

def Handled.lastAttempts (run : Handled env model endpoint answer) : List Attempt :=
  finalAttempts env.X env.config run.routingKeys endpoint run.fuel run.visits model
    ⟨CircuitBreaker.configure env.config.healthCheck run.registry, [], []⟩

def Handled.lastMet (run : Handled env model endpoint answer) : List (Attempt × Contact) :=
  run.met.drop (run.met.length - run.lastAttempts.length)

def jsonAnswer (env : Env) (payload : RequestPayload) (contact : Contact)
    (client : ClientConfig) : Except AppError Response :=
  dispatchRequest env.H env.config (payload.setModel contact.model) client contact.exchange

/-- The callback of `handle_audio_request`, which reads no usage. -/
def audioAnswer (contact : Contact) (_client : ClientConfig) : Except AppError Response :=
  match contact.exchange 0 with
  | .error (.reqwest err) => .error (.internalServerError err.text)
  | .error (.other text) => .error (.internalServerError text)
  | .ok r =>
    match r.body with
    | .ok bytes => .ok { status := r.status, body := .bytes bytes }
    | .error e => .error (.reqwestError e)

abbrev HandledJson (env : Env) (payload : RequestPayload) :=
  Handled env payload.getModel payload.getEndpoint (jsonAnswer env payload)

def merge (emitted : List Emitted) : Emitted where
  records := emitted.flatMap (·.records)
  counted := emitted.flatMap (·.counted)
  events := emitted.flatMap (·.events)
  interruptions := emitted.flatMap (·.interruptions)

def HandledJson.emitted {payload : RequestPayload} (run : HandledJson env payload) : Emitted :=
  merge <| run.met.map fun (a, c) ↦
    attemptEmitted env (payload.setModel c.model) a.client c a.result

/-- A request to a JSON endpoint: its body is not extracted, a parameter is missing, or it is
dispatched. -/
inductive JsonRequest (env : Env)
  | refused (refusal : Refusal)
  | invalid (payload : RequestPayload) (message : String)
    (rejected : validationMessage payload = some message)
  | dispatched (payload : RequestPayload) (run : HandledJson env payload)

def JsonRequest.response : JsonRequest env → Response
  | .refused refusal => refusal.response env.texts.serdeFromStr
  | .invalid payload message _ => createValidationError env message payload
  | .dispatched payload run => fillRequestBody env payload run.response

def JsonRequest.emitted : JsonRequest env → Emitted
  | .refused _ | .invalid _ _ _ => {}
  | .dispatched _ run => run.emitted

end Attempts

end RequestRun

end QueQiao
