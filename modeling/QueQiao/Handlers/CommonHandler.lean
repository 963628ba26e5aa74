import QueQiao.Handlers.ThinkingTransformer
import QueQiao.Models.Http
import QueQiao.Models.Requests

namespace QueQiao.CommonHandler

open ThinkingTransformer

/-- What the handlers take from outside the modelled code: `simd_json`'s parser,
`serde_json`'s compact rendering, lossy decoding, and the request body sent upstream. -/
structure Externals where
  parseJson : List UInt8 → Except String Json
  renderJson : Json → String
  fromUtf8Lossy : List UInt8 → String
  buildRequestBody : RequestPayload → ClientConfig → Bool → Json

/-- What became of sending a request: `reqwest`'s error, or another one by its text. -/
inductive SendError
  | reqwest (err : ReqwestError)
  | other (text : String)

structure UpstreamResponse where
  status : StatusCode
  body : Except ReqwestError (List UInt8)

abbrev Exchange := ℕ → Except SendError UpstreamResponse

def contains (s pattern : String) : Bool := pattern.toList <:+: s.toList

def isRetryableTransientError (err : ReqwestError) : Bool :=
  let msg := err.text.toLower
  err.isConnect || contains msg "peer closed connection" || contains msg "connection closed" ||
    contains msg "connection reset" || contains msg "incomplete message" ||
    contains msg "broken pipe"

def classifyBoxedSendError : SendError → AppError × Bool
  | .reqwest err =>
    let errorText :=
      if err.isTimeout then "Request timed out"
      else if err.isConnect then "Failed to connect to host"
      else "External request failed"
    (.internalServerError errorText, isRetryableTransientError err)
  | .other text => (.internalServerError text, false)

/-- The streaming path repeats a send until headers have come, and at most once. -/
def sendStreamingWithRetry (exchange : Exchange) : Except AppError UpstreamResponse :=
  match exchange 0 with
  | .ok r => .ok r
  | .error e =>
    if (classifyBoxedSendError e).2 then
      match exchange 1 with
      | .ok r => .ok r
      | .error e => .error (classifyBoxedSendError e).1
    else .error (classifyBoxedSendError e).1

/-- One attempt of the non-streaming path: its outcome, and whether it may be repeated. -/
def fetchNonStreaming : Except SendError UpstreamResponse →
    Except (AppError × Bool) (StatusCode × List UInt8)
  | .error e => .error (classifyBoxedSendError e)
  | .ok r =>
    match r.body with
    | .ok bytes => .ok (r.status, bytes)
    | .error e => .error (.reqwestError e, isRetryableTransientError e)

def fetchNonStreamingWithRetry (exchange : Exchange) : Except AppError (StatusCode × List UInt8) :=
  match fetchNonStreaming (exchange 0) with
  | .ok answer => .ok answer
  | .error (e, retryable) =>
    if retryable then
      match fetchNonStreaming (exchange 1) with
      | .ok answer => .ok answer
      | .error (e, _) => .error e
    else .error e

def truncateString (s : String) : String :=
  let keep := s.toList.foldl
    (fun (acc : String × ℕ) c ↦
      if acc.2 + c.utf8Size ≤ 500 then (acc.1.push c, acc.2 + c.utf8Size) else (acc.1, 501))
    ("", 0)
  if s.utf8ByteSize > 500 then keep.1 ++ "...[TRUNCATED]" else s

mutual

def truncateJson : Json → Json
  | .str s => .str (truncateString s)
  | .arr items =>
    if items.length > 10 then
      .arr (truncateItems 10 items ++ [.str s!"...[TRUNCATED: {items.length} items]"])
    else .arr (truncateItems items.length items)
  | .obj fields => .obj (truncateFields fields)
  | .null => .null
  | .bool b => .bool b
  | .num n => .num n

def truncateItems : ℕ → List Json → List Json
  | 0, _ => []
  | _, [] => []
  | n + 1, item :: items => truncateJson item :: truncateItems n items

def truncateFields : List (String × Json) → List (String × Json)
  | [] => []
  | (key, v) :: fields => (key, truncateJson v) :: truncateFields fields

end

def extractErrorMsg (render : Json → String) (body : Json) : Option String :=
  let nested := (body.get "error").bind fun error ↦ (error.get "message").bind Json.asStr
  let flat := (body.get "error").bind Json.asStr
  some ((nested.or flat).getD (render body))

def prefixText (specialPrefix : String) : Json → Json
  | .str s => .str (specialPrefix ++ s)
  | v => v

def applyPrefixToJson (specialPrefix : String) (isChat : Bool) (body : Json) : Json :=
  if specialPrefix = "" then body
  else
    body.modify "choices" <| Json.modifyItems <|
      if isChat then Json.modify "message" (Json.modify "content" (prefixText specialPrefix))
      else Json.modify "text" (prefixText specialPrefix)

section Handler

variable (H : Externals) (config : Config) (payload : RequestPayload) (client : ClientConfig)

def errorEntry (requestBody : Json) (message : String) : AccessLogMeta where
  model := payload.getModel
  backend := client.name
  error := some message
  requestBody := some (H.renderJson (truncateJson requestBody))

def rewriteSuccessBody (body : Json) : Json :=
  let prefixed := (client.specialPrefix.map fun p ↦
    applyPrefixToJson p payload.isChat body).getD body
  let normalized :=
    if payload.isChat then transformResponseBody (config.resolveThinkingFormat client) prefixed
    else prefixed
  match client.modelEcho, normalized with
  | .inbound, .obj fields => .obj (Json.Fields.insert "model" (.str payload.getModel) fields)
  | _, body => body

def processNonStreamingResponse (requestBody : Json) (status : StatusCode)
    (bodyBytes : List UInt8) : Except AppError Response :=
  match H.parseJson bodyBytes with
  | .error e =>
    .error (.internalServerError ("Failed to parse upstream JSON with simd-json: " ++ e))
  | .ok body =>
    if status.isSuccess then
      .ok { status := status, body := .json (rewriteSuccessBody config payload client body) }
    else
      .ok {
        status := status
        body := .json body
        log := (extractErrorMsg H.renderJson body).map (errorEntry H payload client requestBody) }

/-- The part that the three streaming handlers share: an answer that is not a success comes
back as JSON, one that is a success as a stream of events. -/
def processStreaming (requestBody : Json) (response : UpstreamResponse) :
    Except AppError Response :=
  if response.status.isSuccess then
    .ok { status := .ok, body := .events, log := some ⟨payload.getModel, client.name, none, none⟩ }
  else
    match response.body with
    | .error e => .error (.reqwestError e)
    | .ok bodyBytes =>
      let body :=
        match H.parseJson bodyBytes with
        | .ok body => body
        | .error _ => .obj [
            ("error", .str (H.fromUtf8Lossy bodyBytes)),
            ("error_type", .str "upstream_error")]
      .ok {
        status := response.status
        body := .json body
        log := (extractErrorMsg H.renderJson body).map (errorEntry H payload client requestBody) }

def processStreamingResponse := processStreaming H payload client
def processResponsesStreamingResponse := processStreaming H payload client
def processAnthropicStreamingResponse := processStreaming H payload client

def endpointPath : RequestPayload → String
  | .chat _ => "chat/completions"
  | .completion _ => "completions"
  | .embedding _ => "embeddings"
  | .rerank _ => "rerank"
  | .score _ => "score"
  | .classify _ => "classify"
  | .responses _ => "responses"
  | .anthropicMessages _ => "messages"

def activeLabels : ActiveRequestLabels where
  endpoint := "/v1/" ++ endpointPath payload
  model := payload.getModel
  backend := client.name

def markStreaming (resp : Response) : Response := { resp with streamingMarker := true }

def wrapResponseWithActiveGuard (resp : Response) (labels : ActiveRequestLabels) : Response :=
  { resp with guard := some labels }

def dispatchRequest (exchange : Exchange) : Except AppError Response :=
  let requestBody := H.buildRequestBody payload client payload.isStreaming
  let processed : Except AppError Response :=
    if payload.isStreaming then
      match sendStreamingWithRetry exchange with
      | .error e => .error e
      | .ok response =>
        (match payload with
          | .responses _ => processResponsesStreamingResponse H payload client requestBody response
          | .anthropicMessages _ =>
            processAnthropicStreamingResponse H payload client requestBody response
          | _ => processStreamingResponse H payload client requestBody response).map markStreaming
    else
      match fetchNonStreamingWithRetry exchange with
      | .error e => .error e
      | .ok (status, bodyBytes) =>
        processNonStreamingResponse H config payload client requestBody status bodyBytes
  processed.map fun resp ↦ wrapResponseWithActiveGuard resp (activeLabels payload client)

def brokeOff (streaming : Bool) : Except SendError UpstreamResponse → Bool
  | .error e => (classifyBoxedSendError e).2
  | .ok r =>
    match r.body with
    | .ok _ => false
    | .error e => !streaming && isRetryableTransientError e

/-- The answer with its whole body is what a request ends with, at once or on the retry. -/
def Delivers (streaming : Bool) (exchange : Exchange) (status : StatusCode) (body : List UInt8) :
    Prop :=
  exchange 0 = .ok ⟨status, .ok body⟩ ∨
    (brokeOff streaming (exchange 0) = true ∧ exchange 1 = .ok ⟨status, .ok body⟩)

variable {H config payload client} {exchange : Exchange} {status : StatusCode} {body : List UInt8}

theorem Delivers.send (h : Delivers true exchange status body) :
    sendStreamingWithRetry exchange = .ok ⟨status, .ok body⟩ := by
  rcases h with h | ⟨hbroke, h⟩
  · simp [sendStreamingWithRetry, h]
  · rw [sendStreamingWithRetry]
    cases h0 : exchange 0 with
    | error e =>
      have hretry : (classifyBoxedSendError e).2 = true := by simpa [h0, brokeOff] using hbroke
      simp [hretry, h]
    | ok r =>
      rw [h0, brokeOff] at hbroke
      cases hb : r.body <;> simp [hb] at hbroke

theorem Delivers.fetch (h : Delivers false exchange status body) :
    fetchNonStreamingWithRetry exchange = .ok (status, body) := by
  rcases h with h | ⟨hbroke, h⟩
  · simp [fetchNonStreamingWithRetry, fetchNonStreaming, h]
  · rw [fetchNonStreamingWithRetry]
    cases h0 : exchange 0 with
    | error e =>
      have hretry : (classifyBoxedSendError e).2 = true := by simpa [h0, brokeOff] using hbroke
      simp [fetchNonStreaming, hretry, h]
    | ok r =>
      rw [h0, brokeOff] at hbroke
      cases hb : r.body with
      | ok bytes => simp [hb] at hbroke
      | error e =>
        have hretry : isRetryableTransientError e = true := by simpa [hb] using hbroke
        simp [fetchNonStreaming, hb, hretry, h]

theorem dispatch_streaming (hstream : payload.isStreaming = true)
    (h : Delivers true exchange status body) (hstatus : status.isSuccess = false) :
    ∃ resp, dispatchRequest H config payload client exchange = .ok resp ∧ resp.status = status := by
  simp only [dispatchRequest, hstream, ↓reduceIte, h.send]
  cases payload <;>
    simp [processResponsesStreamingResponse, processAnthropicStreamingResponse,
      processStreamingResponse, processStreaming, hstatus, Except.map, markStreaming,
      wrapResponseWithActiveGuard]

theorem dispatch_plain_ok (hstream : payload.isStreaming = false)
    (h : Delivers false exchange status body) (hstatus : status.isSuccess = false) {v : Json}
    (hparse : H.parseJson body = .ok v) :
    ∃ resp, dispatchRequest H config payload client exchange = .ok resp ∧ resp.status = status := by
  simp [dispatchRequest, hstream, h.fetch, processNonStreamingResponse, hparse, hstatus, Except.map,
    wrapResponseWithActiveGuard]

theorem dispatch_plain_error (hstream : payload.isStreaming = false)
    (h : Delivers false exchange status body) {e : String} (hparse : H.parseJson body = .error e) :
    dispatchRequest H config payload client exchange =
      .error (.internalServerError ("Failed to parse upstream JSON with simd-json: " ++ e)) := by
  simp [dispatchRequest, hstream, h.fetch, processNonStreamingResponse, hparse, Except.map]

end Handler

end QueQiao.CommonHandler
