import QueQiao.Client.Routing
import QueQiao.Models.Http
import QueQiao.Services.CircuitBreaker

namespace QueQiao.Dispatcher

open CircuitBreaker Routing

inductive UpstreamClientErrorKind
  | credentialInvalid
  | permissionDenied
  | modelNotSupported
  | rateLimited
  | requestRejected
  deriving DecidableEq, Repr

namespace UpstreamClientErrorKind

def asStr : UpstreamClientErrorKind → String
  | credentialInvalid => "credential_invalid"
  | permissionDenied => "permission_denied"
  | modelNotSupported => "model_not_supported"
  | rateLimited => "rate_limited"
  | requestRejected => "request_rejected"

def callerAdvice : UpstreamClientErrorKind → String
  | credentialInvalid =>
    "upstream rejected the credential: fix the client api_key or the caller's key"
  | permissionDenied =>
    "credential is valid but not permitted (group/quota/allowlist): ask the provider or switch backend"
  | modelNotSupported =>
    "upstream does not serve this model: use another model name or backend"
  | rateLimited => "upstream is rate limiting: back off and retry later"
  | requestRejected => "request itself is invalid: fix the request body"

def hint : UpstreamClientErrorKind → String
  | credentialInvalid => "凭证无效：检查该 client 的 api_key（或透传的客户端 key）"
  | permissionDenied => "无权限：key 有效但分组/额度/白名单不允许，换后端可能绕过"
  | modelNotSupported => "模型不被该上游支持：换后端或改用该后端支持的模型名"
  | rateLimited => "被限流：换后端可立即绕过，本后端稍后自动恢复"
  | requestRejected => "请求本身不合法：换后端无意义"

def countsAsBackendFailure (kind : UpstreamClientErrorKind) : Bool := kind = rateLimited

end UpstreamClientErrorKind

def classifyUpstreamClientError (status : StatusCode) : UpstreamClientErrorKind :=
  match status.asU16 with
  | 401 => .credentialInvalid
  | 403 => .permissionDenied
  | 404 => .modelNotSupported
  | 429 => .rateLimited
  | _ => .requestRejected

def shouldRetryOnClientError (resp : Response) : Bool :=
  classifyUpstreamClientError resp.status ≠ .requestRejected

def selectFallbackModel (clients : List ClientConfig) : Option String :=
  clients.findSome? (·.fallback)

/-- What the code takes from outside it: the score of a client for a routing key, the
`Display` text of a status code and the `Debug` text of a list of names. -/
structure Externals where
  hashScore : String → String → ℕ → ℚ
  statusText : StatusCode → String
  debugNames : List String → String

/-- What one client of a chain meets: what other requests do to the registry before it is
asked for and while it is attempted, the times of the two calls, and the callback's answer. -/
structure Encounter where
  before : RegistryState → RegistryState := id
  allowAt : Instant
  answer : ClientConfig → String → Except AppError Response
  during : RegistryState → RegistryState := id
  recordAt : Instant

/-- An attempt that was made: its result, the registry it reported to, and the report. -/
structure Attempt where
  client : ClientConfig
  result : Except AppError Response
  before : RegistryState
  recordAt : Instant
  recorded : RecordCall

def Attempt.after (a : Attempt) : RegistryState := record a.recordAt a.client a.recorded a.before

structure ChainState where
  registry : RegistryState
  triedClients : List String := []
  lastClientError : Option (UpstreamClientErrorKind × Response) := none
  attempts : List Attempt := []

def ChainState.attempted (s : ChainState) (a : Attempt) : ChainState :=
  { s with
    registry := a.after
    triedClients := s.triedClients ++ [a.client.name]
    attempts := s.attempts ++ [a] }

section Chain

variable (X : Externals) (modelName : String)

def finalEntry (client : ClientConfig) (resp : Response) : AccessLogMeta where
  model := modelName
  backend := client.name
  error :=
    if resp.status.isClientError then
      some ("Upstream client error: " ++ X.statusText resp.status)
    else none
  requestBody := none

def rejectedEntry (client : ClientConfig) (kind : UpstreamClientErrorKind) (resp : Response) :
    AccessLogMeta where
  model := modelName
  backend := client.name
  error := some ("Upstream client error: " ++ X.statusText resp.status ++ " (" ++ kind.asStr ++
    ") - " ++ kind.hint)
  requestBody := none

/-- The arms for the result of a callback: whether the chain ends with the response, how the
attempt is accounted, and the client error to remember. -/
def account (client : ClientConfig) :
    Except AppError Response →
      Option Response × RecordCall × Option (UpstreamClientErrorKind × Response)
  | .ok resp =>
    let status := resp.status
    let shouldFallback := status.isClientError && shouldRetryOnClientError resp
    if status.isSuccess || (status.isClientError && !shouldFallback) then
      (some (resp.logIfNone (finalEntry X modelName client resp)), .success, none)
    else
      let kind := classifyUpstreamClientError status
      (none, if kind.countsAsBackendFailure then .failure else .success,
        some (kind, resp.logIfNone (rejectedEntry X modelName client kind resp)))
  | .error _ => (none, .failure, none)

def attemptClient (e : Encounter) (client : ClientConfig) (s : ChainState) :
    Option Response × ChainState :=
  let (permission, registry) := allow e.allowAt client (e.before s.registry)
  if permission.admits then
    let result := e.answer client modelName
    let (done, recorded, clientError) := account X modelName client result
    let s' := s.attempted ⟨client, result, e.during registry, e.recordAt, recorded⟩
    (done, { s' with lastClientError := clientError.or s.lastClientError })
  else (none, { s with registry := registry })

/-- The loop over the clients; `encounters i` is for the client at position `i`. -/
def attemptClients (encounters : ℕ → Encounter) :
    List ClientConfig → ChainState → Option Response × ChainState
  | [], s => (none, s)
  | client :: clients, s =>
    match attemptClient X modelName (encounters 0) client s with
    | (some resp, s') => (some resp, s')
    | (none, s') => attemptClients (fun i ↦ encounters (i + 1)) clients s'

def coolingDown : Response :=
  let errorMessage := s!"All upstream providers for model '{modelName}' are cooling down"
  { status := .serviceUnavailable
    body := .json (buildErrorBody errorMessage "upstream_unavailable")
    log := some ⟨modelName, "unknown", some errorMessage, none⟩ }

def passThrough (kind : UpstreamClientErrorKind) (resp : Response) : Response :=
  { resp with log := resp.log.map fun entry ↦
      { entry with error := some ("All clients failed; passing through upstream " ++
          X.statusText resp.status ++ " (" ++ kind.asStr ++ "): " ++ kind.callerAdvice) } }

/-- `Err(Some(model))` asks for the fallback model, `Err(None)` says that all failed. -/
def executeClientChainWithRegistry (encounters : ℕ → Encounter) (clients : List ClientConfig)
    (registry : RegistryState) (triedClients : List String) :
    Except (Option String) Response × ChainState :=
  match attemptClients X modelName encounters clients ⟨registry, triedClients, none, []⟩ with
  | (some resp, s) => (.ok resp, s)
  | (none, s) =>
    if s.attempts = [] then (.ok (coolingDown modelName), s)
    else
      match selectFallbackModel clients with
      | some fallbackModel => (.error (some fallbackModel), s)
      | none =>
        match s.lastClientError with
        | some (kind, resp) => (.ok (passThrough X kind resp), s)
        | none => (.error none, s)

end Chain

/-- What one round of the loop in `execute` meets: the draws and the gauge that its routing
reads, and the encounters of its chain. -/
structure Visit where
  keys : ℕ → SortKey
  gauge : Gauge
  encounters : ℕ → Encounter

structure ExecState where
  registry : RegistryState
  triedClients : List String := []
  attempts : List Attempt := []

inductive Round
  | finish (resp : Response)
  | switch (model : String)

section Execute

variable (X : Externals) (config : Config) (routingKeys : Option (List (String × ℕ)))
  (endpoint : Option String)

def orderedClients (visit : Visit) (modelName : String) : List ClientConfig :=
  let matchingClients := findMatchingClients config modelName
  let activeCounts :=
    if config.strategy = .leastConnections then
      some (getActiveCountsForClients visit.gauge matchingClients modelName endpoint)
    else none
  selectClients X.hashScore visit.keys matchingClients routingKeys config.strategy activeCounts

def resolveClients (visit : Visit) (modelName : String) : Except AppError (List ClientConfig) :=
  let clients := orderedClients X config routingKeys endpoint visit modelName
  if clients = [] then .error (.clientNotFound modelName) else .ok clients

def appendTried (triedClients : List String) (entry : AccessLogMeta) :
    AccessLogMeta :=
  { entry with
    error := entry.error.map fun message ↦
      message ++ " (Tried: " ++ X.debugNames triedClients ++ ")" }

def finishOk (triedClients : List String) (response : Response) : Response :=
  let log := response.log.map (appendTried X triedClients)
  match log.bind (·.error) with
  | some message =>
    if response.status.isServerError then
      { status := response.status
        body := .json (buildErrorBody message "internal_error")
        log := log
        streamingMarker := response.streamingMarker }
    else { response with log := log }
  | none => { response with log := log }

def allFailed (modelName : String) (triedClients : List String) : Response :=
  let errorMessage := "All upstream providers failed for model '" ++ modelName ++
    "'. Tried clients: " ++ X.debugNames triedClients
  { (AppError.internalServerError errorMessage).intoResponse with
    log := some ⟨modelName, triedClients.head?.getD "unknown", some errorMessage, none⟩ }

def executeRound (visit : Visit) (currentModel : String) (s : ExecState) : Round × ExecState :=
  match resolveClients X config routingKeys endpoint visit currentModel with
  | .error e => (.finish e.intoResponse, s)
  | .ok clients =>
    let (result, chain) := executeClientChainWithRegistry X currentModel visit.encounters clients
      s.registry s.triedClients
    let s' : ExecState := ⟨chain.registry, chain.triedClients, s.attempts ++ chain.attempts⟩
    match result with
    | .ok response => (.finish (finishOk X chain.triedClients response), s')
    | .error (some fallbackModel) => (.switch fallbackModel, s')
    | .error none => (.finish (allFailed X currentModel chain.triedClients), s')

/-- The loop, for at most `fuel` rounds; round `k` meets `visits k`. -/
def executeLoop : ℕ → (ℕ → Visit) → String → ExecState → Option (Response × ExecState)
  | 0, _, _, _ => none
  | fuel + 1, visits, currentModel, s =>
    match executeRound X config routingKeys endpoint (visits 0) currentModel s with
    | (.finish resp, s') => some (resp, s')
    | (.switch model, s') => executeLoop fuel (fun k ↦ visits (k + 1)) model s'

def execute (fuel : ℕ) (visits : ℕ → Visit) (initialModel : String) (registry : RegistryState) :
    Option (Response × ExecState) :=
  executeLoop X config routingKeys endpoint fuel visits initialModel
    ⟨configure config.healthCheck registry, [], []⟩

end Execute

end QueQiao.Dispatcher
