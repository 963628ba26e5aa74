import QueQiao.Handlers.ModelEcho
import QueQiao.Handlers.UpstreamModel

namespace QueQiao.Dispatcher

/-- A response that tells of a server error has a body of the gateway's own. -/
def OwnError (resp : Response) : Prop :=
  resp.status.isServerError = true →
    ∃ message errorType, resp.body = .json (buildErrorBody message errorType)

def HasMessage (resp : Response) : Prop := (resp.log.bind (·.error)).isSome = true

theorem isServerError_of_isSuccess {status : StatusCode} (h : status.isSuccess = true) :
    status.isServerError = false := by
  simp only [StatusCode.isSuccess, Bool.and_eq_true, decide_eq_true_eq] at h
  simp only [StatusCode.isServerError, Bool.and_eq_false_iff, decide_eq_false_iff_not]
  omega

theorem isServerError_of_isClientError {status : StatusCode} (h : status.isClientError = true) :
    status.isServerError = false := by
  simp only [StatusCode.isClientError, Bool.and_eq_true, decide_eq_true_eq] at h
  simp only [StatusCode.isServerError, Bool.and_eq_false_iff, decide_eq_false_iff_not]
  omega

section Chain

variable (X : Externals) (modelName : String)

/-- The client error that is remembered has an entry for the log. -/
def Remembers (s : ChainState) : Prop :=
  ∀ kind resp, s.lastClientError = some (kind, resp) → resp.log.isSome = true

theorem account_done {client : ClientConfig} {result : Except AppError Response} {resp : Response}
    (h : (account X modelName client result).1 = some resp) :
    resp.status.isServerError = false := by
  cases result with
  | error e => cases h
  | ok answer =>
    rw [account] at h
    dsimp only at h
    split at h
    · rename_i hfinal
      obtain rfl := Option.some.inj h
      rcases Bool.or_eq_true_iff.mp hfinal with hsuccess | hclient
      · exact isServerError_of_isSuccess hsuccess
      · exact isServerError_of_isClientError (Bool.and_eq_true_iff.mp hclient).1
    · cases h

theorem account_remembered {client : ClientConfig} {result : Except AppError Response}
    {kind : UpstreamClientErrorKind} {resp : Response}
    (h : (account X modelName client result).2.2 = some (kind, resp)) :
    resp.log.isSome = true := by
  cases result with
  | error e => cases h
  | ok answer =>
    rw [account] at h
    dsimp only at h
    split at h
    · cases h
    · obtain ⟨-, rfl⟩ := Prod.mk.inj (Option.some.inj h)
      rw [Response.logIfNone, Option.isSome_or]
      exact Bool.or_true _

theorem attemptClients_remembers {encounters : ℕ → Encounter} {clients : List ClientConfig}
    {s : ChainState} (h : Remembers s) :
    (∀ resp, (attemptClients X modelName encounters clients s).1 = some resp →
      resp.status.isServerError = false) ∧
    Remembers (attemptClients X modelName encounters clients s).2 := by
  refine attemptClients_invariant (P := fun r ↦
    (∀ resp, r.1 = some resp → resp.status.isServerError = false) ∧ Remembers r.2) ?_
      ⟨(fun _ hresp ↦ nomatch hresp), h⟩
  rintro i client s ⟨-, h⟩
  rcases attemptClient_cases X modelName (encounters i) client s with
    ⟨registry, hrun⟩ | ⟨a, _, _, _, hrun⟩
  · rw [hrun]
    exact ⟨(fun _ hresp ↦ nomatch hresp), h⟩
  · rw [hrun]
    refine ⟨fun resp hresp ↦ account_done X modelName hresp, fun kind resp hlast ↦ ?_⟩
    rcases Option.or_eq_some_iff.mp hlast with herr | ⟨-, hbefore⟩
    · exact account_remembered X modelName herr
    · exact h kind resp hbefore

theorem chain_hasMessage {encounters : ℕ → Encounter} {clients : List ClientConfig}
    {registry : CircuitBreaker.RegistryState} {tried : List String} {resp : Response}
    (h : (executeClientChainWithRegistry X modelName encounters clients registry tried).1 =
      .ok resp) (hserver : resp.status.isServerError = true) : HasMessage resp := by
  have hstart : Remembers ⟨registry, tried, none, []⟩ := fun _ _ hnone ↦ nomatch hnone
  have hrun := @attemptClients_remembers X modelName encounters clients _ hstart
  rw [executeClientChainWithRegistry] at h
  cases hs : attemptClients X modelName encounters clients ⟨registry, tried, none, []⟩ with
  | mk done s =>
    rw [hs] at hrun h
    cases done with
    | some resp' =>
      cases h
      rw [hrun.1 resp rfl] at hserver
      cases hserver
    | none =>
      dsimp only at h
      split at h
      · cases h
        rfl
      · split at h
        · cases h
        · split at h
          · rename_i kind resp' hlast
            cases h
            obtain ⟨entry, hentry⟩ := Option.isSome_iff_exists.mp (hrun.2 kind resp' hlast)
            rw [HasMessage, passThrough, hentry]
            rfl
          · cases h

end Chain

section Loop

variable {X : Externals} {config : Config} {routingKeys : Option (List (String × ℕ))}
  {endpoint : Option String}

theorem ownError_finishOk (tried : List String) {resp : Response}
    (h : resp.status.isServerError = true → HasMessage resp) :
    OwnError (finishOk X tried resp) := by
  intro hserver
  rw [(keeps_finishOk X tried resp).status] at hserver
  obtain ⟨message, hmessage⟩ := Option.isSome_iff_exists.mp (h hserver)
  obtain ⟨entry, hentry, herror⟩ := Option.bind_eq_some_iff.mp hmessage
  have hlog : (resp.log.map (appendTried X tried)).bind (·.error) =
      some (message ++ " (Tried: " ++ X.debugNames tried ++ ")") := by
    rw [hentry, Option.map_some, Option.bind_some, appendTried, herror]
    rfl
  rw [finishOk]
  simp only [hlog, if_pos hserver]
  exact ⟨_, _, rfl⟩

theorem ownError_intoResponse (e : AppError) : OwnError e.intoResponse :=
  fun _ ↦ ⟨_, _, rfl⟩

theorem executeRound_ownError {visit : Visit} {currentModel : String} {s s' : ExecState}
    {resp : Response}
    (h : executeRound X config routingKeys endpoint visit currentModel s = (.finish resp, s')) :
    OwnError resp := by
  rw [executeRound] at h
  cases hclients : resolveClients X config routingKeys endpoint visit currentModel with
  | error e =>
    rw [hclients] at h
    cases h
    exact ownError_intoResponse e
  | ok clients =>
    rw [hclients] at h
    have hchain := @chain_hasMessage X currentModel visit.encounters clients s.registry
      s.triedClients
    dsimp only at h
    cases hr : executeClientChainWithRegistry X currentModel visit.encounters clients s.registry
        s.triedClients with
    | mk result chain =>
      rw [hr] at h hchain
      rcases result with (_ | model) | answer
      · cases h
        exact fun _ ↦ ⟨_, _, rfl⟩
      · cases h
      · cases h
        exact ownError_finishOk _ (hchain rfl)

theorem executeLoop_ownError {fuel : ℕ} {visits : ℕ → Visit} {currentModel : String}
    {s s' : ExecState} {resp : Response}
    (h : executeLoop X config routingKeys endpoint fuel visits currentModel s = some (resp, s')) :
    OwnError resp := by
  obtain ⟨k, model, last, -, hr, -⟩ :=
    executeLoop_last (I := fun _ ↦ True) (fun _ _ _ _ _ _ _ ↦ trivial) trivial h
  exact executeRound_ownError hr

end Loop

end QueQiao.Dispatcher

namespace QueQiao.ModelEcho

open CommonHandler Dispatcher StreamHandler RequestRun ThinkingTransformer

section Attempts

variable (env : Env)

def parsed (bytes : List UInt8) : Option Json := (env.H.parseJson bytes).toOption

/-- A body of an answer, of which that of a server error is replaced. -/
def bodySent (status : StatusCode) (fate : Fate) (bytes : Option (List UInt8)) :
    List (Json × Fate) :=
  ((bytes.bind (parsed env)).map fun u ↦
    (u, if status.isServerError then .dropped else fate)).toList

def bodyReturned (bytes : Option (List UInt8)) (v : Json) : List (Json × Json) :=
  ((bytes.bind (parsed env)).map fun u ↦ (u, v)).toList

def streamPlaces : RequestPayload → List (Option String)
  | .responses _ => [none, some "response"]
  | .anthropicMessages _ => [none, some "message"]
  | _ => [none]

def placesOf (payload : RequestPayload) : List (Option String) :=
  if payload.isStreaming then streamPlaces payload else [none]

def streamSent (payload : RequestPayload) (client : ClientConfig) (items : List Item) :
    List (Json × Fate) :=
  match payload with
  | .responses _ | .anthropicMessages _ => items.filterMap (typedSent env.texts)
  | _ =>
    (terminateOnError items).filterMap
      (chatSent env.texts (streamConfig env.config client payload))

def streamReturned (payload : RequestPayload) (client : ClientConfig) (items : List Item) :
    List (Json × Json) :=
  let echo := client.modelEcho = .inbound
  match payload with
  | .responses _ =>
    typedReturned env.texts echo (rewriteResponsesEvent payload.getModel) items
  | .anthropicMessages _ =>
    typedReturned env.texts echo (rewriteAnthropicEvent payload.getModel) items
  | _ =>
    let cfg := streamConfig env.config client payload
    chatReturned env.texts cfg (.init cfg) (terminateOnError items)

def jsonSent (payload : RequestPayload) (client : ClientConfig) (c : Contact) :
    List (Json × Fate) :=
  if payload.isStreaming then
    match sendStreamingWithRetry c.exchange with
    | .error _ => []
    | .ok r =>
      if r.status.isSuccess then streamSent env payload client c.stream.items
      else bodySent env r.status .kept r.body.toOption
  else
    match fetchNonStreamingWithRetry c.exchange with
    | .error _ => []
    | .ok (status, bytes) =>
      bodySent env status (if status.isSuccess then .renamed else .kept) (some bytes)

def upstreamBytes (streaming : Bool) (exchange : Exchange) : Option (List UInt8) :=
  if streaming then (sendStreamingWithRetry exchange).toOption.bind (·.body.toOption)
  else (fetchNonStreamingWithRetry exchange).toOption.map Prod.snd

/-- The JSON that the upstream sends, each with what the client gets for it. -/
def jsonReturned (payload : RequestPayload) (client : ClientConfig) (c : Contact) :
    Body → List (Json × Json)
  | .json v => bodyReturned env (upstreamBytes payload.isStreaming c.exchange) v
  | .events => streamReturned env payload client c.stream.items
  | .bytes _ => []

def audioBytes (c : Contact) : Option (StatusCode × List UInt8) :=
  match c.exchange 0 with
  | .error _ => none
  | .ok r => r.body.toOption.map fun bytes ↦ (r.status, bytes)

def audioSent (c : Contact) : List (Json × Fate) :=
  match audioBytes c with
  | none => []
  | some (status, bytes) => bodySent env status .kept (some bytes)

def audioReturned (c : Contact) : Body → List (Json × Json)
  | .json v => bodyReturned env ((audioBytes c).map Prod.snd) v
  | .bytes bytes =>
    match parsed env bytes with
    | none => []
    | some v => bodyReturned env ((audioBytes c).map Prod.snd) v
  | .events => []

variable {env}

theorem passes_body {places : List (Option String)} {name : String} {fate : Fate}
    {status : StatusCode} {bytes : Option (List UInt8)} {v : Json}
    (h : status.isServerError = false → ∀ u, bytes.bind (parsed env) = some u →
      Passes places name (u, fate) (u, v))
    (hdropped : status.isServerError = true → ∀ place ∈ places, modelAt place v = none) :
    List.Forall₂ (Passes places name) (bodySent env status fate bytes)
      (bodyReturned env bytes v) := by
  rw [bodySent, bodyReturned]
  cases hu : bytes.bind (parsed env) with
  | none => exact .nil
  | some u =>
    refine .cons ?_ .nil
    cases hserver : status.isServerError with
    | true => exact ⟨rfl, fun place hplace _ _ ↦ hdropped hserver place hplace⟩
    | false => exact h hserver u hu

theorem rewriteSuccessBody_model {config : Config} {payload : RequestPayload}
    {client : ClientConfig} (hecho : client.modelEcho = .inbound) (u : Json) :
    Passes [none] payload.getModel (u, .renamed)
      (u, rewriteSuccessBody config payload client u) := by
  refine ⟨rfl, ?_⟩
  intro place hplace m hm
  obtain rfl := List.mem_singleton.mp hplace
  have hnormalized : (normalizedBody config payload client u).get "model" = u.get "model" :=
    normalizedBody_get (by decide) config payload client u
  rw [show u.get "model" = some m from hm] at hnormalized
  cases hbody : normalizedBody config payload client u with
  | obj fields =>
    have hrewritten : rewriteSuccessBody config payload client u =
        .obj (Json.Fields.insert "model" (.str payload.getModel) fields) := by
      rw [rewriteSuccessBody, hecho]
      split
      · rename_i fields' _ heq
        obtain rfl := Json.obj.inj (heq.symm.trans hbody)
        rfl
      · rename_i hnot
        exact (hnot fields rfl hbody).elim
    rw [hrewritten]
    exact Json.Fields.get_insert_self ..
  | null | bool | num | str | arr =>
    rw [hbody] at hnormalized
    cases hnormalized

theorem passes_stream {payload : RequestPayload} {client : ClientConfig}
    (hstream : payload.isStreaming = true) (hecho : client.modelEcho = .inbound)
    (items : List Item) :
    List.Forall₂ (Passes (placesOf payload) payload.getModel)
      (streamSent env payload client items) (streamReturned env payload client items) := by
  have hchat : (streamConfig env.config client payload).echoInboundModel = true :=
    decide_eq_true hecho
  rw [placesOf, if_pos hstream]
  cases payload with
  | responses p =>
    rw [streamReturned, decide_eq_true hecho]
    exact passes_typedReturned (renames_rewriteChunkModel _) (by decide) items
  | anthropicMessages p =>
    rw [streamReturned, decide_eq_true hecho]
    exact passes_typedReturned (renames_insertModel _) (by decide) items
  | chat | completion | embedding | rerank | score | classify =>
    exact passes_chatReturned hchat _ (terminateOnError items)

theorem modelAt_buildErrorBody {payload : RequestPayload} {place : Option String}
    (hplace : place ∈ placesOf payload) (message errorType : String) :
    modelAt place (buildErrorBody message errorType) = none := by
  have hcases : place = none ∨ place = some "response" ∨ place = some "message" := by
    rw [placesOf] at hplace
    split at hplace
    · cases payload <;> simp [streamPlaces] at hplace <;> tauto
    · exact .inl (List.mem_singleton.mp hplace)
  rcases hcases with rfl | rfl | rfl <;> rfl

theorem body_of_keeps {answer resp : Response} {v : Json} (hbody : answer.body = .json v)
    (hkeeps : Keeps answer resp) (hown : OwnError resp) :
    ∃ w, resp.body = .json w ∧ (answer.status.isServerError = false → w = v) ∧
      (answer.status.isServerError = true →
        ∃ message errorType, w = buildErrorBody message errorType) := by
  cases hserver : answer.status.isServerError with
  | true =>
    obtain ⟨message, errorType, hresp⟩ := hown (hkeeps.status ▸ hserver)
    exact ⟨_, hresp, (fun h ↦ nomatch h), fun _ ↦ ⟨message, errorType, rfl⟩⟩
  | false => exact ⟨v, (hkeeps.body hserver).trans hbody, fun _ ↦ rfl, (fun h ↦ nomatch h)⟩

theorem passes_answer (env : Env) (payload : RequestPayload) (fate : Fate) {status : StatusCode}
    {bytes : Option (List UInt8)} {answer resp : Response} {v : Json}
    (hstatus : answer.status = status) (hbody : answer.body = .json v)
    (hkeeps : Keeps answer resp) (hown : OwnError resp)
    (h : ∀ u, bytes.bind (parsed env) = some u →
      Passes (placesOf payload) payload.getModel (u, fate) (u, v)) :
    ∃ w, resp.body = .json w ∧
      List.Forall₂ (Passes (placesOf payload) payload.getModel)
        (bodySent env status fate bytes) (bodyReturned env bytes w) := by
  obtain ⟨w, hw, hsame, herror⟩ := body_of_keeps hbody hkeeps hown
  rw [hstatus] at hsame herror
  refine ⟨w, hw, passes_body ?_ ?_⟩
  · intro hserver u hu
    rw [hsame hserver]
    exact h u hu
  · intro hserver place hplace
    obtain ⟨message, errorType, rfl⟩ := herror hserver
    exact modelAt_buildErrorBody hplace message errorType

/-- The answer to a request that streams: the events of the upstream, or its body, which is read if
it can be. -/
theorem streamed_answer {payload : RequestPayload} {client : ClientConfig} {exchange : Exchange}
    {answer : Response} (hstream : payload.isStreaming = true)
    (h : dispatchRequest env.H env.config payload client exchange = .ok answer) :
    ∃ r, sendStreamingWithRetry exchange = .ok r ∧
      (r.status.isSuccess = true ∧ answer.status = .ok ∧ answer.body = .events ∨
        r.status.isSuccess = false ∧ answer.status = r.status ∧ ∃ bytes v,
          r.body = .ok bytes ∧ answer.body = .json v ∧ ∀ u, parsed env bytes = some u → u = v) := by
  rw [dispatchRequest] at h
  simp only [hstream, ↓reduceIte] at h
  cases hsend : sendStreamingWithRetry exchange with
  | error e =>
    rw [hsend] at h
    cases h
  | ok r =>
    refine ⟨r, rfl, ?_⟩
    rw [hsend] at h
    have hprocess : ((processStreaming env.H payload client
        (env.H.buildRequestBody payload client true) r).map markStreaming).map
          (fun resp ↦ wrapResponseWithActiveGuard resp (activeLabels payload client)) =
        .ok answer := by
      cases payload <;> exact h
    rw [processStreaming] at hprocess
    cases hsuccess : r.status.isSuccess with
    | true =>
      rw [if_pos hsuccess] at hprocess
      obtain rfl := Except.ok.inj hprocess
      exact .inl ⟨rfl, rfl, rfl⟩
    | false =>
      rw [if_neg (by simp [hsuccess])] at hprocess
      right
      cases hbody : r.body with
      | error e =>
        rw [hbody] at hprocess
        cases hprocess
      | ok bytes =>
        rw [hbody] at hprocess
        dsimp only at hprocess
        cases hparse : env.H.parseJson bytes with
        | error e =>
          rw [hparse] at hprocess
          obtain rfl := Except.ok.inj hprocess
          refine ⟨rfl, rfl, bytes, _, rfl, rfl, fun u hu ↦ ?_⟩
          rw [parsed, hparse] at hu
          cases hu
        | ok v =>
          rw [hparse] at hprocess
          obtain rfl := Except.ok.inj hprocess
          refine ⟨rfl, rfl, bytes, v, rfl, rfl, fun u hu ↦ ?_⟩
          rw [parsed, hparse] at hu
          exact (Option.some.inj hu).symm

theorem fetched_answer {payload : RequestPayload} {client : ClientConfig} {exchange : Exchange}
    {answer : Response} (hstream : payload.isStreaming = false)
    (h : dispatchRequest env.H env.config payload client exchange = .ok answer) :
    ∃ status bytes u, fetchNonStreamingWithRetry exchange = .ok (status, bytes) ∧
      env.H.parseJson bytes = .ok u ∧ answer.status = status ∧ answer.body = .json
        (if status.isSuccess then rewriteSuccessBody env.config payload client u else u) := by
  rw [dispatchRequest] at h
  simp only [hstream, Bool.false_eq_true, ↓reduceIte] at h
  cases hfetch : fetchNonStreamingWithRetry exchange with
  | error e =>
    rw [hfetch] at h
    cases h
  | ok fetched =>
    obtain ⟨status, bytes⟩ := fetched
    rw [hfetch] at h
    dsimp only at h
    rw [processNonStreamingResponse] at h
    cases hparse : env.H.parseJson bytes with
    | error e =>
      rw [hparse] at h
      cases h
    | ok u =>
      refine ⟨status, bytes, u, rfl, hparse, ?_⟩
      rw [hparse] at h
      cases hsuccess : status.isSuccess with
      | true =>
        simp only [hsuccess, ↓reduceIte] at h
        obtain rfl := Except.ok.inj h
        exact ⟨rfl, rfl⟩
      | false =>
        simp only [hsuccess, Bool.false_eq_true, ↓reduceIte] at h
        obtain rfl := Except.ok.inj h
        exact ⟨rfl, rfl⟩

theorem passes_streamed {payload : RequestPayload} {client : ClientConfig} {c : Contact}
    (hstream : payload.isStreaming = true) (hecho : client.modelEcho = .inbound)
    {answer resp : Response}
    (h : dispatchRequest env.H env.config payload client c.exchange = .ok answer)
    (hkeeps : Keeps answer resp) (hown : OwnError resp) :
    List.Forall₂ (Passes (placesOf payload) payload.getModel)
      (jsonSent env payload client c) (jsonReturned env payload client c resp.body) := by
  obtain ⟨r, hsend, ⟨hsuccess, hstatus, hbody⟩ | ⟨hfailed, hstatus, bytes, v, hr, hv, hread⟩⟩ :=
    streamed_answer hstream h
  · have hevents : resp.body = .events := by
      rw [← hbody]
      exact hkeeps.body (by rw [hstatus]; rfl)
    rw [jsonSent, if_pos hstream, hsend]
    dsimp only
    rw [if_pos hsuccess, hevents]
    exact passes_stream hstream hecho c.stream.items
  · have hbytes : upstreamBytes payload.isStreaming c.exchange = some bytes := by
      rw [upstreamBytes, if_pos hstream, hsend]
      exact congrArg Except.toOption hr
    have hkept : ∀ u, (some bytes).bind (parsed env) = some u →
        Passes (placesOf payload) payload.getModel (u, .kept) (u, v) := by
      intro u hu
      rw [hread u hu]
      exact passes_kept _ _ v
    obtain ⟨w, hw, hpasses⟩ := passes_answer env payload .kept hstatus hv hkeeps hown hkept
    rw [jsonSent, if_pos hstream, hsend]
    dsimp only
    rw [if_neg (Bool.eq_false_iff.mp hfailed), hr, hw, jsonReturned, hbytes]
    exact hpasses

theorem passes_fetched {payload : RequestPayload} {client : ClientConfig} {c : Contact}
    (hstream : payload.isStreaming = false) (hecho : client.modelEcho = .inbound)
    {answer resp : Response}
    (h : dispatchRequest env.H env.config payload client c.exchange = .ok answer)
    (hkeeps : Keeps answer resp) (hown : OwnError resp) :
    List.Forall₂ (Passes (placesOf payload) payload.getModel)
      (jsonSent env payload client c) (jsonReturned env payload client c resp.body) := by
  have hnot : ¬payload.isStreaming = true := Bool.eq_false_iff.mp hstream
  have hplaces : placesOf payload = [none] := by rw [placesOf, if_neg hnot]
  obtain ⟨status, bytes, u, hfetch, hparse, hstatus, hbody⟩ := fetched_answer hstream h
  have hbytes : upstreamBytes payload.isStreaming c.exchange = some bytes := by
    rw [upstreamBytes, if_neg hnot, hfetch]
    rfl
  have hread : ∀ u', (some bytes).bind (parsed env) = some u' → u' = u := by
    intro u' hu'
    rw [Option.bind_some, parsed, hparse] at hu'
    exact (Option.some.inj hu').symm
  have hfate : ∀ u', (some bytes).bind (parsed env) = some u' →
      Passes (placesOf payload) payload.getModel (u', if status.isSuccess then .renamed else .kept)
        (u', if status.isSuccess then rewriteSuccessBody env.config payload client u else u) := by
    intro u' hu'
    rw [hread u' hu', hplaces]
    cases status.isSuccess with
    | true => exact rewriteSuccessBody_model hecho u
    | false => exact passes_kept _ _ u
  obtain ⟨w, hw, hpasses⟩ := passes_answer env payload _ hstatus hbody hkeeps hown hfate
  rw [jsonSent, if_neg hnot, hfetch, hw, jsonReturned, hbytes]
  exact hpasses

theorem passes_dispatch {payload : RequestPayload} {client : ClientConfig} {c : Contact}
    (hecho : client.modelEcho = .inbound) {answer resp : Response}
    (h : dispatchRequest env.H env.config payload client c.exchange = .ok answer)
    (hkeeps : Keeps answer resp) (hown : OwnError resp) :
    List.Forall₂ (Passes (placesOf payload) payload.getModel)
      (jsonSent env payload client c) (jsonReturned env payload client c resp.body) := by
  cases hstream : payload.isStreaming with
  | true => exact passes_streamed hstream hecho h hkeeps hown
  | false => exact passes_fetched hstream hecho h hkeeps hown

theorem audioBytes_eq {c : Contact} {client : ClientConfig} {answer : Response}
    (h : audioAnswer c client = .ok answer) :
    ∃ bytes, audioBytes c = some (answer.status, bytes) ∧ answer.body = .bytes bytes := by
  rw [audioAnswer] at h
  rw [audioBytes]
  split at h
  · cases h
  · cases h
  · rename_i r hr
    rw [hr]
    split at h
    · rename_i bytes hbytes
      cases h
      refine ⟨bytes, ?_, rfl⟩
      dsimp only
      rw [hbytes]
      rfl
    · cases h

theorem passes_audio {name : String} {c : Contact} {client : ClientConfig}
    {answer resp : Response} (h : audioAnswer c client = .ok answer) (hkeeps : Keeps answer resp)
    (hown : OwnError resp) :
    List.Forall₂ (Passes [none] name) (audioSent env c) (audioReturned env c resp.body) := by
  obtain ⟨bytes, hbytes, hbody⟩ := audioBytes_eq h
  rw [audioSent, hbytes]
  cases hserver : answer.status.isServerError with
  | true =>
    obtain ⟨message, errorType, hresp⟩ := hown (hkeeps.status ▸ hserver)
    rw [hresp, audioReturned, hbytes]
    refine passes_body (fun hnot ↦ ?_) (fun _ place hplace ↦ ?_)
    · rw [hserver] at hnot
      cases hnot
    · obtain rfl := List.mem_singleton.mp hplace
      rfl
  | false =>
    rw [hkeeps.body hserver, hbody, audioReturned, hbytes, Option.map_some]
    cases hv : parsed env bytes with
    | none =>
      have hsent : bodySent env answer.status .kept (some bytes) = [] := by
        rw [bodySent, Option.bind_some, hv]
        rfl
      dsimp only
      rw [hsent]
      exact .nil
    | some v =>
      refine passes_body (fun _ u hu ↦ ?_) (fun hserver' ↦ ?_)
      · rw [Option.bind_some, hv] at hu
        obtain rfl := Option.some.inj hu
        exact passes_kept _ _ v
      · rw [hserver] at hserver'
        cases hserver'

end Attempts

@[simp] theorem getModel_setModel (model : String) (payload : RequestPayload) :
    (payload.setModel model).getModel = model := by
  cases payload <;> rfl

@[simp] theorem placesOf_setModel (model : String) (payload : RequestPayload) :
    placesOf (payload.setModel model) = placesOf payload := by
  cases payload <;> rfl

/-- A run in which every attempt asks for the model that is dispatched, and the attempt whose
answer the client gets. -/
structure Answered (env : Env) (model : String) (endpoint : Option String)
    (answer : Contact → ClientConfig → Except AppError Response) where
  run : Handled env model endpoint answer
  asked : run.met.map (fun p ↦ (p.2.model, p.1)) =
    dispatched env.X env.config run.routingKeys endpoint run.fuel run.visits model
      ⟨CircuitBreaker.configure env.config.healthCheck run.registry, [], []⟩
  attempt : Attempt
  contact : Contact
  mem : (attempt, contact) ∈ run.met
  response : Response
  result : attempt.result = .ok response
  keeps : Keeps response run.response

section Runs

variable {env : Env} {model : String} {endpoint : Option String}
  {answer : Contact → ClientConfig → Except AppError Response}

theorem Answered.answer_eq (x : Answered env model endpoint answer) :
    answer x.contact x.attempt.client = .ok x.response :=
  (x.run.answers _ x.mem).symm.trans x.result

theorem Answered.ownError (x : Answered env model endpoint answer) : OwnError x.run.response :=
  executeLoop_ownError x.run.returned

theorem exists_met {Q : Contact → ClientConfig → Prop}
    {routingKeys : Option (List (String × ℕ))} {fuel : ℕ} {visits : ℕ → Visit}
    {registry : CircuitBreaker.RegistryState} {resp : Response} {s : ExecState}
    (hanswers : ∀ k i client asked, ∃ c, c.model = asked ∧ Q c client ∧
      ((visits k).encounters i).answer client asked = answer c client)
    (h : execute env.X env.config routingKeys endpoint fuel visits model registry =
      some (resp, s)) :
    ∃ met : List (Attempt × Contact), s.attempts = met.map Prod.fst ∧
      (∀ p ∈ met, p.1.result = answer p.2 p.1.client) ∧ (∀ p ∈ met, Q p.2 p.1.client) ∧
      met.map (fun p ↦ (p.2.model, p.1)) =
        dispatched env.X env.config routingKeys endpoint fuel visits model
          ⟨CircuitBreaker.configure env.config.healthCheck registry, [], []⟩ := by
  have hresults := @dispatched_results env.X env.config routingKeys endpoint
    (fun model client result ↦ ∃ c, c.model = model ∧ Q c client ∧ result = answer c client)
    fuel visits model ⟨CircuitBreaker.configure env.config.healthCheck registry, [], []⟩
    fun k i client asked ↦ hanswers k i client asked
  choose contact hmodel hcontact hanswer using hresults
  let calls := dispatched env.X env.config routingKeys endpoint fuel visits model
    ⟨CircuitBreaker.configure env.config.healthCheck registry, [], []⟩
  have hcalls : calls.attach.map Subtype.val = calls := calls.attach_map_subtype_val
  refine ⟨calls.attach.map fun d ↦ (d.1.2, contact d.1 d.2), ?_, ?_, ?_, ?_⟩
  · have hsnd := congrArg (List.map Prod.snd) hcalls
    rw [List.map_map] at hsnd
    rw [executeLoop_dispatched h, List.nil_append, List.map_map]
    exact hsnd.symm
  · intro p hp
    obtain ⟨d, -, rfl⟩ := List.mem_map.mp hp
    exact hanswer d.1 d.2
  · intro p hp
    obtain ⟨d, -, rfl⟩ := List.mem_map.mp hp
    exact hcontact d.1 d.2
  · rw [List.map_map]
    refine Eq.trans (List.map_congr_left fun d _ ↦ ?_) hcalls
    exact Prod.ext (hmodel d.1 d.2) rfl

theorem keeps_of_success (run : Handled env model endpoint answer) {a : Attempt} {c : Contact}
    {resp : Response} (hmem : (a, c) ∈ run.met) (hresult : a.result = .ok resp)
    (hsuccess : resp.status.isSuccess = true) : Keeps resp run.response := by
  have ha : a ∈ run.met.map Prod.fst := List.mem_map_of_mem hmem
  have hnot : ¬a.Unsuccessful := by
    intro h
    rw [h resp hresult] at hsuccess
    cases hsuccess
  cases run.ending with
  | @success before last resp' hsplit hbefore hlast hstatus hkeeps =>
    rw [hsplit] at ha
    rcases List.mem_append.mp ha with ha | ha
    · exact absurd (hbefore a ha) hnot
    · obtain rfl := List.mem_singleton.mp ha
      obtain rfl := Except.ok.inj (hlast.symm.trans hresult)
      exact hkeeps
  | passed hun _ _ => exact absurd (hun a ha) hnot
  | own hun _ _ => exact absurd (hun a ha) hnot

end Runs

/-- An answer that a client gets, from a JSON endpoint or from one for audio. -/
inductive Answer (env : Env)
  | json (payload : RequestPayload)
    (x : Answered env payload.getModel payload.getEndpoint (jsonAnswer env payload))
  | audio (model : String) (endpoint : Option String)
    (x : Answered env model endpoint audioAnswer)

namespace Answer

variable {env : Env}

def inbound : Answer env → String
  | json payload _ => payload.getModel
  | audio model _ _ => model

def model : Answer env → String
  | json _ x | audio _ _ x => x.contact.model

def client : Answer env → ClientConfig
  | json _ x | audio _ _ x => x.attempt.client

def places : Answer env → List (Option String)
  | json payload _ => placesOf payload
  | audio _ _ _ => [none]

def sent : Answer env → List (Json × Fate)
  | json payload x =>
    jsonSent env (payload.setModel x.contact.model) x.attempt.client x.contact
  | audio _ _ x => audioSent env x.contact

def returned : Answer env → List (Json × Json)
  | json payload x =>
    jsonReturned env (payload.setModel x.contact.model) x.attempt.client x.contact
      x.run.response.body
  | audio _ _ x => audioReturned env x.contact x.run.response.body

theorem passes (x : Answer env) (hecho : x.client.modelEcho = .inbound) :
    List.Forall₂ (Passes x.places x.model) x.sent x.returned := by
  cases x with
  | json payload x =>
    have h := passes_dispatch hecho x.answer_eq x.keeps x.ownError
    rw [placesOf_setModel, getModel_setModel] at h
    exact h
  | audio model endpoint x => exact passes_audio x.answer_eq x.keeps x.ownError

/-- Every model that comes back is the client's own exactly if what the upstream sent is renamed
to it, or has it already where the gateway passes it on as it is. -/
theorem echoed_iff_inbound (x : Answer env) (hecho : x.client.modelEcho = .inbound) :
    (∀ pair ∈ x.returned, Echoed x.places x.inbound pair) ↔
      ∀ s ∈ x.sent, SentInbound x.places x.inbound x.model s :=
  forall_echoed_iff (x.passes hecho) x.inbound

end Answer

def echoPayload : RequestPayload := .chat ⟨"gpt", none⟩

def upstreamBody : Json := .obj [("model", .str "backup-v2")]

def upstreamText : List UInt8 := AudioHandler.asBytes "\x7b\"model\":\"backup-v2\"\x7d"

def echoEnv : Env where
  X := plainExternals
  H := { emptyObjectOnly with
    parseJson := fun bytes ↦
      if bytes = upstreamText then .ok upstreamBody else .error "Syntax at character 0" }
  texts := tableTexts []
  config := { openaiClients := [
    { UpstreamModel.speech with modelMatch := { value := ["gpt"] }, modelEcho := .inbound },
    { UpstreamModel.backup with modelEcho := .inbound }] }
  payloadToValue _ := .null

def echoContact (client : ClientConfig) (asked : String) : Contact where
  model := asked
  exchange _ :=
    if client.name = "primary" then .error (.other "connection refused")
    else .ok ⟨.ok, .ok upstreamText⟩
  elapsed := 1
  stream := { items := [], ended := false }

def echoVisits : ℕ → Visit := fun _ ↦
  { someVisit with
    encounters := fun _ ↦
      { allowAt := 0
        recordAt := 0
        answer := fun client asked ↦
          jsonAnswer echoEnv echoPayload (echoContact client asked) client } }

theorem exists_fallback_answer :
    ∃ x : Answered echoEnv "gpt" (some "chat/completions") (jsonAnswer echoEnv echoPayload),
      x.attempt.client.modelEcho = .inbound ∧
        x.contact = echoContact x.attempt.client "backup" ∧
          x.attempt.client.name = "backup" := by
  have hsome : (execute echoEnv.X echoEnv.config none (some "chat/completions") 2 echoVisits "gpt"
      (.new {})).isSome = true := by decide +kernel
  obtain ⟨⟨resp, s⟩, hrun⟩ := Option.isSome_iff_exists.mp hsome
  have hmet (k i : ℕ) (client : ClientConfig) (asked : String) : ∃ c, c.model = asked ∧
      c = echoContact client c.model ∧
        ((echoVisits k).encounters i).answer client asked =
          jsonAnswer echoEnv echoPayload c client :=
    ⟨echoContact client asked, rfl, rfl, rfl⟩
  obtain ⟨met, hattempts, hanswers, hcontacts, hasked⟩ :=
    exists_met (Q := fun c client ↦ c = echoContact client c.model) hmet hrun
  let run : Handled echoEnv "gpt" (some "chat/completions") (jsonAnswer echoEnv echoPayload) :=
    ⟨none, 2, echoVisits, .new {}, resp, s, hrun, met, hattempts, hanswers⟩
  have hcalls : (dispatched echoEnv.X echoEnv.config none (some "chat/completions") 2 echoVisits
      "gpt" ⟨CircuitBreaker.configure echoEnv.config.healthCheck (.new {}), [], []⟩).map (fun d ↦
        (d.1, d.2.client.name, d.2.client.modelEcho,
          d.2.result.toOption.map fun answer ↦ answer.status.isSuccess)) =
      [("gpt", "primary", .inbound, none), ("backup", "backup", .inbound, some true)] := by
    decide +kernel
  rw [← hasked, List.map_map] at hcalls
  have hlast : ("backup", "backup", ModelEcho.inbound, some true) ∈
      [("gpt", "primary", ModelEcho.inbound, none), ("backup", "backup", .inbound, some true)] :=
    .tail _ (.head _)
  rw [← hcalls] at hlast
  obtain ⟨⟨a, c⟩, hmem, heq⟩ := List.mem_map.mp hlast
  obtain ⟨hmodel, hname, hecho, hsuccess⟩ : c.model = "backup" ∧ a.client.name = "backup" ∧
      a.client.modelEcho = .inbound ∧
        a.result.toOption.map (fun answer ↦ answer.status.isSuccess) = some true := by
    simpa using heq
  cases hresult : a.result with
  | error e =>
    rw [hresult] at hsuccess
    cases hsuccess
  | ok answer =>
    rw [hresult] at hsuccess
    have hkeeps := keeps_of_success run hmem hresult (Option.some.inj hsuccess)
    refine ⟨⟨run, hasked, a, c, hmem, answer, hresult, hkeeps⟩, hecho, ?_, hname⟩
    rw [← hmodel]
    exact hcontacts (a, c) hmem

theorem echoed_iff_inbound_fallback :
    ∃ x : Answer echoEnv, x.inbound = "gpt" ∧ x.model = "backup" ∧
      ((∀ pair ∈ x.returned, Echoed x.places x.inbound pair) ↔
        ∀ s ∈ x.sent, SentInbound x.places x.inbound x.model s) := by
  obtain ⟨x, hecho, hcontact, -⟩ := exists_fallback_answer
  have hmodel : x.contact.model = "backup" := by
    rw [hcontact]
    rfl
  exact ⟨.json echoPayload x, rfl, hmodel, Answer.echoed_iff_inbound (.json echoPayload x) hecho⟩

theorem fallback_model_echoed :
    ∃ x : Answer echoEnv, x.client.modelEcho = .inbound ∧ x.inbound = "gpt" ∧
      ∃ pair ∈ x.returned, pair.1 = upstreamBody ∧ pair.2.get "model" = some (.str "backup") ∧
        ¬Echoed x.places x.inbound pair := by
  obtain ⟨x, hecho, hcontact, hname⟩ := exists_fallback_answer
  have hpasses := Answer.passes (.json echoPayload x) hecho
  have hmodel : x.contact.model = "backup" := by
    rw [hcontact]
    rfl
  have hfetch : fetchNonStreamingWithRetry x.contact.exchange = .ok (.ok, upstreamText) := by
    have hne : ¬x.attempt.client.name = "primary" := by
      rw [hname]
      decide
    rw [hcontact, fetchNonStreamingWithRetry, echoContact]
    simp only [if_neg hne]
    rfl
  have hsent : Answer.sent (.json echoPayload x) = [(upstreamBody, .renamed)] := by
    have hplain : ¬(echoPayload.setModel x.contact.model).isStreaming = true := by
      rw [isStreaming_setModel]
      decide
    have hjson : jsonSent echoEnv (echoPayload.setModel x.contact.model) x.attempt.client x.contact =
        [(upstreamBody, .renamed)] := by
      rw [jsonSent, if_neg hplain, hfetch]
      rfl
    exact hjson
  rw [hsent] at hpasses
  obtain ⟨pair, rest, hpair, -, hreturned⟩ := List.forall₂_cons_left_iff.mp hpasses
  have hget : pair.2.get "model" = some (.str "backup") := by
    have h := hpair.2 none (.head _) (.str "backup-v2") rfl
    rw [show Answer.model (.json echoPayload x) = "backup" from hmodel] at h
    exact h
  refine ⟨.json echoPayload x, hecho, rfl, pair, by rw [hreturned]; exact .head _, hpair.1, hget,
    ?_⟩
  intro hechoed
  have hstr : Json.str "backup" = .str "gpt" :=
    hechoed none (.head _) (by rw [hpair.1]; rfl) (.str "backup") hget
  exact absurd (Json.str.inj hstr) (by decide)

end QueQiao.ModelEcho
