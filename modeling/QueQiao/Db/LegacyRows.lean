import QueQiao.Db.Payload
import QueQiao.Handlers.RequestBody

namespace QueQiao.Legacy

open Audit RequestBody

structure RequestExtract where
  prompt : String := ""
  promptBytes : ℕ := 0
  requestTail : String := ""
  requestTailBytes : ℕ := 0
  messageCount : ℕ := 0
  systemCount : ℕ := 0
  toolCount : ℕ := 0
  assistantCount : ℕ := 0
  toolResultCount : ℕ := 0
  imageCount : ℕ := 0
  deriving DecidableEq, Repr

structure ResponseExtract where
  answer : String := ""
  answerBytes : ℕ := 0
  toolNames : String := ""
  finishReason : Option String := none
  deriving DecidableEq, Repr

structure HeaderMeta where
  sessionId : Option String := none
  parentSessionId : Option String := none
  sessionAffinity : Option String := none
  userAgent : Option String := none
  clientName : Option String := none
  clientVersion : Option String := none
  apiKey : Option String := none
  requestId : Option String := none
  deriving DecidableEq, Repr

structure BodySessionMeta where
  sessionId : Option String := none
  parentSessionId : Option String := none
  deriving DecidableEq, Repr

structure Extraction (Headers : Type) where
  extractRequest : Payload → RequestExtract
  extractResponse : Json → ResponseExtract
  headerMeta : Headers → HeaderMeta
  bodySessionMeta : Json → BodySessionMeta

/-- The texts that serde and `HeaderMap` accept, and those that `parse_local_time_ms` does. -/
structure Parsers (Headers : Type) where
  value : String → Option Json
  chat : String → Option ChatCompletionRequest
  completion : String → Option CompletionRequest
  embedding : String → Option EmbeddingRequest
  rerank : String → Option RerankRequest
  score : String → Option ScoreRequest
  classify : String → Option ClassifyRequest
  responses : String → Option ResponsesRequest
  anthropicMessages : String → Option AnthropicMessagesRequest
  headerMap : String → Headers
  localTimeMs : String → Option ℤ

structure Columns where
  endpoint : Option String
  prompt : Option String
  requestTail : Option String
  answer : Option String
  toolNames : String
  finishReason : Option String
  userAgent : Option String
  clientName : Option String
  clientVersion : Option String
  apiKey : Option String
  sessionId : Option String
  parentSessionId : Option String
  requestId : Option String
  sessionAffinity : Option String
  tool : Bool
  multimodal : Bool
  requestBytes : ℕ
  responseBytes : ℕ
  promptBytes : ℕ
  requestTailBytes : ℕ
  answerBytes : ℕ
  messageCount : ℕ
  systemCount : ℕ
  toolCount : ℕ
  assistantCount : ℕ
  toolResultCount : ℕ
  imageCount : ℕ
  deriving DecidableEq, Repr

def isImagePart (part : Json) : Bool := (part.get "type").bind Json.asStr = some "image_url"

def isMultimodal : Payload → Bool
  | .chat p => p.messages.any fun m ↦ match m.get "content" with
    | some (.arr parts) => parts.any isImagePart
    | _ => false
  | _ => false

def getEndpoint : Payload → Option String
  | .chat _ => some "chat/completions"
  | .completion _ => some "completions"
  | .embedding _ => some "embeddings"
  | .rerank _ => some "rerank"
  | .score _ => some "score"
  | .classify _ => some "classify"
  | .responses _ => some "responses"
  | .anthropicMessages _ => some "messages"

def endpointPath : Payload → String
  | .chat _ => "chat/completions"
  | .completion _ => "completions"
  | .embedding _ => "embeddings"
  | .rerank _ => "rerank"
  | .score _ => "score"
  | .classify _ => "classify"
  | .responses _ => "responses"
  | .anthropicMessages _ => "messages"

def apiEndpoint (payload : Payload) : String := "/v1/" ++ endpointPath payload

section

variable {Headers : Type} (extraction : Extraction Headers) (parsers : Parsers Headers)

def byteLen (s : String) : ℕ := (asBytes s).length

/-- The columns of the record that `log_non_streaming_request` makes, with the endpoint of its
`LogMeta`; the streaming handlers hand over the same endpoint as a literal. -/
def logColumns (render : Json → String) (payload : Payload) (requestBody responseBody : Json)
    (headers : Headers) (metaEndpoint : Option String) : Columns :=
  let header := extraction.headerMeta headers
  let dsh := extraction.bodySessionMeta requestBody
  let req := extraction.extractRequest payload
  let resp := extraction.extractResponse responseBody
  { endpoint := metaEndpoint.or (getEndpoint payload)
    prompt := some req.prompt
    requestTail := some req.requestTail
    answer := some resp.answer
    toolNames := resp.toolNames
    finishReason := resp.finishReason
    userAgent := header.userAgent
    clientName := header.clientName
    clientVersion := header.clientVersion
    apiKey := header.apiKey
    sessionId := header.sessionId.or dsh.sessionId
    parentSessionId := header.parentSessionId.or dsh.parentSessionId
    requestId := header.requestId
    sessionAffinity := header.sessionAffinity
    tool := (requestBody.get "tools").isSome
    multimodal := isMultimodal payload
    requestBytes := byteLen (render requestBody)
    responseBytes := byteLen (render responseBody)
    promptBytes := req.promptBytes
    requestTailBytes := req.requestTailBytes
    answerBytes := resp.answerBytes
    messageCount := req.messageCount
    systemCount := req.systemCount
    toolCount := req.toolCount
    assistantCount := req.assistantCount
    toolResultCount := req.toolResultCount
    imageCount := req.imageCount }

/-- A row of a legacy table, with the columns that are added to it. -/
structure LegacyRow where
  id : ℤ
  time : Option String := none
  typeLabel : Option String := none
  headers : Option String := none
  request : Option String := none
  response : Option String := none
  tool : Option ℤ := none
  multimodal : Option ℤ := none
  timeMs : Option ℤ := none
  prompt : Option String := none
  requestTail : Option String := none
  answer : Option String := none
  written : Option Columns := none
  deriving DecidableEq, Repr

def parseLegacyRequest (typeLabel : Option String) (body : String) : Option Payload :=
  match typeLabel with
  | some "chat.completions" => (parsers.chat body).map .chat
  | some "text_completion" | some "completions" => (parsers.completion body).map .completion
  | some "embeddings" | some "embedding" => (parsers.embedding body).map .embedding
  | some "rerank" => (parsers.rerank body).map .rerank
  | some "score" => (parsers.score body).map .score
  | some "classify" => (parsers.classify body).map .classify
  | some "responses" => (parsers.responses body).map .responses
  | some "anthropic.messages" | some "messages" =>
    (parsers.anthropicMessages body).map .anthropicMessages
  | _ => none

def valueOf (body : String) : Option Json := if body = "" then none else parsers.value body

def parsedOf (row : LegacyRow) : Option Payload :=
  (valueOf parsers (row.request.getD "")).bind fun _ ↦
    parseLegacyRequest parsers row.typeLabel (row.request.getD "")

def isFlag (flag : Option ℤ) : Bool := flag.any (· ≠ 0)

/-- The columns that `migrate_archive` computes for a row. -/
def legacyColumns (row : LegacyRow) : Columns :=
  let request := row.request.getD ""
  let response := row.response.getD ""
  let reqValue := valueOf parsers request
  let parsed := parsedOf parsers row
  let req := (parsed.map extraction.extractRequest).getD {}
  let resp := ((valueOf parsers response).map extraction.extractResponse).getD {}
  let header := (row.headers.map fun text ↦ extraction.headerMeta (parsers.headerMap text)).getD {}
  let body := (reqValue.map extraction.bodySessionMeta).getD {}
  { endpoint := parsed.bind getEndpoint
    prompt := row.prompt.or (some req.prompt)
    requestTail := row.requestTail.or (some req.requestTail)
    answer := row.answer.or (some resp.answer)
    toolNames := resp.toolNames
    finishReason := resp.finishReason
    userAgent := header.userAgent
    clientName := header.clientName
    clientVersion := header.clientVersion
    apiKey := header.apiKey
    sessionId := header.sessionId.or body.sessionId
    parentSessionId := header.parentSessionId.or body.parentSessionId
    requestId := header.requestId
    sessionAffinity := header.sessionAffinity
    tool := (reqValue.map fun v ↦ (v.get "tools").isSome).getD (isFlag row.tool)
    multimodal := (parsed.map isMultimodal).getD (isFlag row.multimodal)
    requestBytes := byteLen request
    responseBytes := byteLen response
    promptBytes := req.promptBytes
    requestTailBytes := req.requestTailBytes
    answerBytes := resp.answerBytes
    messageCount := req.messageCount
    systemCount := req.systemCount
    toolCount := req.toolCount
    assistantCount := req.assistantCount
    toolResultCount := req.toolResultCount
    imageCount := req.imageCount }

def convertRow (row : LegacyRow) : LegacyRow :=
  let columns := legacyColumns extraction parsers row
  { row with
    timeMs := row.timeMs.or (row.time.bind parsers.localTimeMs)
    prompt := columns.prompt
    requestTail := columns.requestTail
    answer := columns.answer
    written := some columns }

variable {extraction parsers}

theorem getEndpoint_eq (payload : Payload) : getEndpoint payload = some (endpointPath payload) := by
  cases payload <;> rfl

theorem endpointPath_ne (payload : Payload) : endpointPath payload ≠ apiEndpoint payload := by
  intro heq
  have hlength := congrArg String.length heq
  rw [apiEndpoint, String.length_append] at hlength
  have hfour : "/v1/".length = 4 := rfl
  omega

/-- All columns besides the endpoint agree for a row that was not converted in part, exactly if
its texts are as long as the write path would render them. -/
theorem legacyColumns_agree_iff {render : Json → String} {row : LegacyRow} {payload : Payload}
    {requestBody responseBody : Json} {headers : String}
    (hparsed : parsedOf parsers row = some payload)
    (hrequest : valueOf parsers (row.request.getD "") = some requestBody)
    (hresponse : valueOf parsers (row.response.getD "") = some responseBody)
    (hheaders : row.headers = some headers)
    (hfresh : row.prompt = none ∧ row.requestTail = none ∧ row.answer = none)
    (endpoint : Option String) :
    { legacyColumns extraction parsers row with endpoint := endpoint } =
        { logColumns extraction render payload requestBody responseBody (parsers.headerMap headers)
            (some (apiEndpoint payload)) with endpoint := endpoint } ↔
      byteLen (row.request.getD "") = byteLen (render requestBody) ∧
        byteLen (row.response.getD "") = byteLen (render responseBody) := by
  obtain ⟨hprompt, htail, hanswer⟩ := hfresh
  simp only [legacyColumns, logColumns, hparsed, hrequest, hresponse, hheaders, hprompt, htail,
    hanswer, Option.map_some, Option.getD_some, Option.none_or, Columns.mk.injEq, true_and,
    and_true]

/-- The migration writes the path of a request without the `/v1` of the write path. -/
theorem legacyColumns_ne_logColumns {Headers : Type} {extraction : Extraction Headers}
    {parsers : Parsers Headers} {row : LegacyRow} {payload : Payload}
    (hparsed : parsedOf parsers row = some payload) (render : Json → String)
    (requestBody responseBody : Json) (headers : Headers) :
    legacyColumns extraction parsers row ≠
      logColumns extraction render payload requestBody responseBody headers
        (some (apiEndpoint payload)) := by
  intro heq
  have hendpoint := congrArg Columns.endpoint heq
  have hlegacy : (legacyColumns extraction parsers row).endpoint =
      (parsedOf parsers row).bind getEndpoint := rfl
  rw [hlegacy, hparsed, Option.bind_some, getEndpoint_eq] at hendpoint
  exact endpointPath_ne payload (Option.some.inj hendpoint)

end

def plainExtraction : Extraction Unit :=
  ⟨fun _ ↦ {}, fun _ ↦ {}, fun _ ↦ {}, fun _ ↦ {}⟩

def chatParsers (body : String) : Parsers Unit where
  value text := if text = body then some (.obj [("messages", .arr []), ("model", .str "m")])
    else none
  chat text := if text = body then some { model := "m", messages := [], extra := ⟨[], rfl⟩ }
    else none
  completion _ := none
  embedding _ := none
  rerank _ := none
  score _ := none
  classify _ := none
  responses _ := none
  anthropicMessages _ := none
  headerMap _ := ()
  localTimeMs _ := none

def chatBody : String := "\x7b\"messages\":[],\"model\":\"m\"\x7d"

def chatRow : LegacyRow :=
  { id := 1, typeLabel := some "chat.completions", request := some chatBody }

theorem legacyColumns_ne_logColumns_chat :
    legacyColumns plainExtraction (chatParsers chatBody) chatRow ≠
      logColumns plainExtraction (fun _ ↦ chatBody)
        (.chat { model := "m", messages := [], extra := ⟨[], rfl⟩ }) .null .null ()
        (some "/v1/chat/completions") :=
  legacyColumns_ne_logColumns rfl _ _ _ _

theorem endpoint_differs :
    (legacyColumns plainExtraction (chatParsers chatBody) chatRow).endpoint =
        some "chat/completions" ∧
      (logColumns plainExtraction (fun _ ↦ chatBody)
        (.chat { model := "m", messages := [], extra := ⟨[], rfl⟩ }) .null .null ()
        (some (apiEndpoint (.chat { model := "m", messages := [], extra := ⟨[], rfl⟩ })))).endpoint =
        some "/v1/chat/completions" :=
  ⟨rfl, rfl⟩

end QueQiao.Legacy
