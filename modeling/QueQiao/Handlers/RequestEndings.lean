import QueQiao.Handlers.RequestRun

namespace QueQiao.RequestRun

open CommonHandler Dispatcher StreamHandler StreamLoggers RequestMetrics ThinkingTransformer

/-- What comes of the exchanges of an attempt with its upstream: nothing that can be used, an
answer that is not a success, or a success, as JSON or as a stream. -/
inductive Upstream
  | silent
  | refused
  | json (v : Json)
  | stream

/-- The answer of a request that is not a stream counts if its body is JSON. -/
def plainUpstream (H : CommonHandler.Externals) (status : StatusCode) (body : List UInt8) :
    Upstream :=
  match H.parseJson body with
  | .error _ => .silent
  | .ok v => if status.isSuccess then .json v else .refused

def streamUpstream (r : UpstreamResponse) : Upstream :=
  if r.status.isSuccess then .stream
  else
    match r.body with
    | .error _ => .silent
    | .ok _ => .refused

def upstream (H : CommonHandler.Externals) (streaming : Bool) (exchange : Exchange) : Upstream :=
  if streaming then
    match sendStreamingWithRetry exchange with
    | .error _ => .silent
    | .ok r => streamUpstream r
  else
    match fetchNonStreamingWithRetry exchange with
    | .error _ => .silent
    | .ok (status, body) => plainUpstream H status body

def Dispatched (streaming : Bool) : Upstream → Except AppError Response → Prop
  | .silent, result => ∃ e, result = .error e
  | .refused, result =>
    ∃ resp, result = .ok resp ∧ resp.status.isSuccess = false ∧ resp.streamingMarker = streaming
  | .json v, result =>
    ∃ resp w, result = .ok resp ∧ resp.status.isSuccess = true ∧ resp.streamingMarker = false ∧
      resp.body = .json w ∧ w.get "usage" = v.get "usage"
  | .stream, result =>
    ∃ resp, result = .ok resp ∧ resp.status = .ok ∧ resp.streamingMarker = true ∧
      resp.body = .events

theorem get_modify_ne {k key : String} (h : k ≠ key) (f : Json → Json) (v : Json) :
    (v.modify key f).get k = v.get k := by
  cases v with
  | obj fields =>
    have hget := Json.Fields.get_map_modify key f fields k
    rw [if_neg h] at hget
    exact hget
  | null | bool | num | str | arr => rfl

theorem applyPrefixToJson_get {key : String} (h : key ≠ "choices") (specialPrefix : String)
    (isChat : Bool) (body : Json) :
    (applyPrefixToJson specialPrefix isChat body).get key = body.get key := by
  rw [applyPrefixToJson]
  split
  · rfl
  · exact get_modify_ne h _ body

theorem transformResponseBody_get {key : String} (h : key ≠ "choices") (target : ThinkingFormat)
    (body : Json) : (transformResponseBody target body).get key = body.get key := by
  rw [transformResponseBody]
  split
  · rfl
  · exact get_modify_ne h _ body

def normalizedBody (config : Config) (payload : RequestPayload) (client : ClientConfig)
    (body : Json) : Json :=
  let prefixed := (client.specialPrefix.map fun p ↦
    applyPrefixToJson p payload.isChat body).getD body
  if payload.isChat then transformResponseBody (config.resolveThinkingFormat client) prefixed
  else prefixed

theorem normalizedBody_get {key : String} (h : key ≠ "choices") (config : Config)
    (payload : RequestPayload) (client : ClientConfig) (body : Json) :
    (normalizedBody config payload client body).get key = body.get key := by
  have hprefixed : ((client.specialPrefix.map fun p ↦
      applyPrefixToJson p payload.isChat body).getD body).get key = body.get key := by
    cases client.specialPrefix with
    | none => rfl
    | some p => exact applyPrefixToJson_get h p _ body
  rw [normalizedBody]
  split
  · rw [transformResponseBody_get h, hprefixed]
  · exact hprefixed

theorem rewriteSuccessBody_usage (config : Config) (payload : RequestPayload)
    (client : ClientConfig) (body : Json) :
    (rewriteSuccessBody config payload client body).get "usage" = body.get "usage" := by
  have hnormalized : (normalizedBody config payload client body).get "usage" = body.get "usage" :=
    normalizedBody_get (by decide) config payload client body
  rw [normalizedBody] at hnormalized
  rw [rewriteSuccessBody]
  split
  · rename_i fields _ heq
    rw [heq] at hnormalized
    rw [← hnormalized]
    exact Json.Fields.get_insert_ne (by decide) _ fields
  · exact hnormalized

theorem processNonStreaming_dispatched (H : CommonHandler.Externals) (config : Config)
    (payload : RequestPayload) (client : ClientConfig) (requestBody : Json) (status : StatusCode)
    (body : List UInt8) (labels : ActiveRequestLabels) :
    Dispatched false (plainUpstream H status body)
      ((processNonStreamingResponse H config payload client requestBody status body).map
        fun resp ↦ wrapResponseWithActiveGuard resp labels) := by
  rw [processNonStreamingResponse, plainUpstream]
  cases H.parseJson body with
  | error e => exact ⟨_, rfl⟩
  | ok v =>
    dsimp only
    cases hstatus : status.isSuccess with
    | true =>
      exact ⟨_, _, rfl, hstatus, rfl, rfl, rewriteSuccessBody_usage config payload client v⟩
    | false => exact ⟨_, rfl, hstatus, rfl⟩

theorem processStreaming_dispatched (H : CommonHandler.Externals) (payload : RequestPayload)
    (client : ClientConfig) (requestBody : Json) (r : UpstreamResponse)
    (labels : ActiveRequestLabels) :
    Dispatched true (streamUpstream r)
      (((processStreaming H payload client requestBody r).map markStreaming).map
        fun resp ↦ wrapResponseWithActiveGuard resp labels) := by
  rw [processStreaming, streamUpstream]
  cases hstatus : r.status.isSuccess with
  | true => exact ⟨_, rfl, rfl, rfl, rfl⟩
  | false =>
    simp only [Bool.false_eq_true, ↓reduceIte]
    cases r.body with
    | error e => exact ⟨_, rfl⟩
    | ok bytes => exact ⟨_, rfl, hstatus, rfl⟩

theorem dispatched (H : CommonHandler.Externals) (config : Config) (payload : RequestPayload)
    (client : ClientConfig) (exchange : Exchange) :
    Dispatched payload.isStreaming (upstream H payload.isStreaming exchange)
      (dispatchRequest H config payload client exchange) := by
  rw [dispatchRequest, upstream]
  cases hstream : payload.isStreaming with
  | true =>
    simp only [↓reduceIte]
    cases sendStreamingWithRetry exchange with
    | error e => exact ⟨_, rfl⟩
    | ok r =>
      have hprocess := processStreaming_dispatched H payload client
        (H.buildRequestBody payload client true) r (activeLabels payload client)
      cases payload <;> exact hprocess
  | false =>
    simp only [Bool.false_eq_true, ↓reduceIte]
    cases fetchNonStreamingWithRetry exchange with
    | error e => exact ⟨_, rfl⟩
    | ok answer => exact processNonStreaming_dispatched H config payload client _ answer.1 answer.2 _

@[simp] theorem isStreaming_setModel (model : String) (payload : RequestPayload) :
    (payload.setModel model).isStreaming = payload.isStreaming := by
  cases payload <;> rfl

theorem attemptEmitted_of_unsuccessful {env : Env} {payload : RequestPayload} {a : Attempt}
    (h : a.Unsuccessful) (client : ClientConfig) (c : Contact) :
    attemptEmitted env payload client c a.result = {} := by
  rw [attemptEmitted.eq_def]
  split
  · rfl
  · rename_i resp hresp
    rw [h resp hresp]
    rfl

section Endings

variable {env : Env} {model : String} {endpoint : Option String}
  {answer : Contact → ClientConfig → Except AppError Response}

theorem exists_handled {routingKeys : Option (List (String × ℕ))} {fuel : ℕ} {visits : ℕ → Visit}
    {registry : CircuitBreaker.RegistryState} {resp : Response} {s : ExecState}
    (hanswers : ∀ k i client asked, ∃ c,
      ((visits k).encounters i).answer client asked = answer c client)
    (h : execute env.X env.config routingKeys endpoint fuel visits model registry =
      some (resp, s)) :
    ∃ run : Handled env model endpoint answer, run.response = resp ∧ run.state = s := by
  have hresults := executeLoop_results (P := fun client result ↦ ∃ c, result = answer c client)
    hanswers (by simp) h
  choose contact hcontact using hresults
  let met := s.attempts.attach.map fun a ↦ (a.1, contact a.1 a.2)
  have hattempts : s.attempts = met.map Prod.fst := by
    rw [List.map_map]
    exact s.attempts.attach_map_subtype_val.symm
  refine ⟨⟨routingKeys, fuel, visits, registry, resp, s, h, met, hattempts, ?_⟩, rfl, rfl⟩
  intro p hp
  obtain ⟨a, -, rfl⟩ := List.mem_map.mp hp
  exact hcontact a.1 a.2

def Handled.ofContact (routingKeys : Option (List (String × ℕ))) (fuel : ℕ) (visits : ℕ → Visit)
    (registry : CircuitBreaker.RegistryState) (contact : Contact)
    (hanswers : ∀ k i client asked,
      ((visits k).encounters i).answer client asked = answer contact client)
    (h : (execute env.X env.config routingKeys endpoint fuel visits model registry).isSome = true) :
    Handled env model endpoint answer where
  routingKeys := routingKeys
  fuel := fuel
  visits := visits
  registry := registry
  response := (Option.get _ h).1
  state := (Option.get _ h).2
  returned := (Option.some_get h).symm
  met := (Option.get _ h).2.attempts.map fun a ↦ (a, contact)
  attempts := by
    rw [List.map_map]
    exact (List.map_id _).symm
  answers := by
    intro p hp
    obtain ⟨a, ha, rfl⟩ := List.mem_map.mp hp
    exact executeLoop_results (P := fun client result ↦ result = answer contact client) hanswers
      (by simp) (Option.some_get h).symm a ha

theorem Handled.lastMet_attempts (run : Handled env model endpoint answer) :
    run.lastMet.map Prod.fst = run.lastAttempts := by
  obtain ⟨earlier, hearlier⟩ := executeLoop_finalAttempts run.returned
  have hsplit : run.met.map Prod.fst = earlier ++ run.lastAttempts :=
    run.attempts.symm.trans hearlier
  have hlength : run.met.length - run.lastAttempts.length = earlier.length := by
    have h := congrArg List.length hsplit
    rw [List.length_map, List.length_append] at h
    omega
  rw [Handled.lastMet, List.map_drop, hlength, hsplit, List.drop_left]

theorem Handled.ending (run : Handled env model endpoint answer) :
    Ending (run.met.map Prod.fst) (run.lastMet.map Prod.fst) run.response := by
  rw [run.lastMet_attempts, ← run.attempts]
  exact execute_ending run.returned

variable {payload : RequestPayload}

theorem HandledJson.dispatched (run : HandledJson env payload) {a : Attempt} {c : Contact}
    (h : (a, c) ∈ run.met) :
    Dispatched payload.isStreaming (upstream env.H payload.isStreaming c.exchange) a.result := by
  have hanswer := run.answers (a, c) h
  have hdispatched := RequestRun.dispatched env.H env.config (payload.setModel c.model) a.client
    c.exchange
  rw [isStreaming_setModel] at hdispatched
  exact hanswer ▸ hdispatched

def Upstream.Fails (u : Upstream) : Prop := u = .silent ∨ u = .refused

theorem Dispatched.fails_of_unsuccessful {streaming : Bool} {u : Upstream} {a : Attempt}
    (h : Dispatched streaming u a.result) (hun : a.Unsuccessful) : u.Fails := by
  cases u with
  | silent => exact .inl rfl
  | refused => exact .inr rfl
  | json v =>
    obtain ⟨resp, _, hresp, hstatus, _⟩ := h
    exact absurd (hun resp hresp) (by simp [hstatus])
  | stream =>
    obtain ⟨resp, hresp, hstatus, _⟩ := h
    exact absurd (hun resp hresp) (by rw [hstatus]; decide)

/-- How a JSON request ends: with a success of the last upstream, with an answer of the last round
that is not one, or with a response of the gateway's own. -/
inductive RunEnding (run : HandledJson env payload) : Prop
  | json {a : Attempt} {c : Contact} {v w : Json} {status : StatusCode}
      (last : run.met.getLast? = some (a, c))
      (answer : upstream env.H payload.isStreaming c.exchange = .json v)
      (usage : w.get "usage" = v.get "usage") (success : status.isSuccess = true)
      (response : run.response.status = status) (marker : run.response.streamingMarker = false)
      (emitted : run.emitted = plainEmitted (payload.setModel c.model) a.client c.elapsed status w)
  | stream {a : Attempt} {c : Contact} (last : run.met.getLast? = some (a, c))
      (answer : upstream env.H payload.isStreaming c.exchange = .stream)
      (response : run.response.status = .ok) (marker : run.response.streamingMarker = true)
      (emitted : run.emitted =
        streamEmitted env (payload.setModel c.model) a.client c.elapsed c.stream)
  | passed (fails : ∀ a c, (a, c) ∈ run.met →
        (upstream env.H payload.isStreaming c.exchange).Fails)
      (refused : ∃ a c, (a, c) ∈ run.lastMet ∧
        upstream env.H payload.isStreaming c.exchange = .refused)
      (marker : run.response.streamingMarker = payload.isStreaming) (emitted : run.emitted = {})
  | own (fails : ∀ a c, (a, c) ∈ run.met →
        (upstream env.H payload.isStreaming c.exchange).Fails)
      (silent : ∀ a c, (a, c) ∈ run.lastMet →
        upstream env.H payload.isStreaming c.exchange = .silent)
      (marker : run.response.streamingMarker = false) (emitted : run.emitted = {})

theorem merge_eq_empty {es : List Emitted} (h : ∀ e ∈ es, e = {}) : merge es = {} := by
  have hflat {α : Type} (f : Emitted → List α) (hf : f {} = []) : es.flatMap f = [] := by
    rw [List.flatMap_eq_nil_iff]
    intro e he
    rw [h e he, hf]
  rw [merge, hflat _ rfl, hflat _ rfl, hflat _ rfl, hflat _ rfl]

theorem merge_concat {es : List Emitted} (h : ∀ e ∈ es, e = {}) (e : Emitted) :
    merge (es ++ [e]) = e := by
  have hempty := merge_eq_empty h
  rw [merge, Emitted.mk.injEq] at hempty
  obtain ⟨hrecords, hcounted, hevents, hinterruptions⟩ := hempty
  simp [merge, List.flatMap_append, hrecords, hcounted, hevents, hinterruptions]

theorem emitted_empty (env : Env) (payload : RequestPayload) {met : List (Attempt × Contact)}
    (h : ∀ b ∈ met.map Prod.fst, b.Unsuccessful) :
    ∀ e ∈ met.map fun (a, c) ↦ attemptEmitted env (payload.setModel c.model) a.client c a.result,
      e = {} := by
  intro e he
  obtain ⟨⟨a, c⟩, hmem, rfl⟩ := List.mem_map.mp he
  exact attemptEmitted_of_unsuccessful (h a (List.mem_map_of_mem hmem)) _ _

theorem lastResponse_mem {attempts : List Attempt} {resp : Response}
    (h : lastResponse attempts = some resp) : ∃ a ∈ attempts, a.result = .ok resp := by
  obtain ⟨a, ha, hresp⟩ := List.mem_filterMap.mp (List.mem_of_getLast? h)
  refine ⟨a, ha, ?_⟩
  rw [Attempt.response] at hresp
  cases hresult : a.result with
  | error e =>
    rw [hresult] at hresp
    cases hresp
  | ok resp' =>
    rw [hresult] at hresp
    exact congrArg _ (Option.some.inj hresp)

theorem HandledJson.lastMet_subset (run : HandledJson env payload) :
    run.lastMet ⊆ run.met := List.drop_subset _ _

theorem HandledJson.fails (run : HandledJson env payload)
    (h : ∀ b ∈ run.met.map Prod.fst, b.Unsuccessful) :
    ∀ a c, (a, c) ∈ run.met → (upstream env.H payload.isStreaming c.exchange).Fails := by
  intro a c hmem
  exact (run.dispatched hmem).fails_of_unsuccessful (h a (List.mem_map_of_mem hmem))

theorem HandledJson.runEnding (run : HandledJson env payload) : RunEnding run := by
  cases run.ending with
  | @success before a answer hsplit hbefore hresult hstatus hkeeps =>
    obtain ⟨earlier, rest, hmet, rfl, hrest⟩ := List.map_eq_append_iff.mp hsplit
    obtain ⟨⟨a, c⟩, rfl, rfl⟩ := List.map_eq_singleton_iff.mp hrest
    have hlast : run.met.getLast? = some (a, c) := by rw [hmet, List.getLast?_concat]
    have hemitted : run.emitted =
        attemptEmitted env (payload.setModel c.model) a.client c a.result := by
      rw [HandledJson.emitted, hmet, List.map_append]
      exact merge_concat (emitted_empty env payload hbefore) _
    have hdispatched := run.dispatched (List.mem_of_getLast? hlast)
    rw [hresult, attemptEmitted, if_pos hstatus] at hemitted
    rw [hresult] at hdispatched
    cases hu : upstream env.H payload.isStreaming c.exchange with
    | silent =>
      obtain ⟨e, he⟩ := hu ▸ hdispatched
      cases he
    | refused =>
      obtain ⟨resp, hresp, hfails, _⟩ := hu ▸ hdispatched
      cases hresp
      rw [hstatus] at hfails
      cases hfails
    | json v =>
      obtain ⟨resp, w, hresp, _, hmarker, hbody, husage⟩ := hu ▸ hdispatched
      cases hresp
      rw [hbody] at hemitted
      exact .json hlast hu husage hstatus hkeeps.status (hkeeps.marker.trans hmarker) hemitted
    | stream =>
      obtain ⟨resp, hresp, hok, hmarker, hbody⟩ := hu ▸ hdispatched
      cases hresp
      rw [hbody] at hemitted
      exact .stream hlast hu (hkeeps.status.trans hok) (hkeeps.marker.trans hmarker) hemitted
  | @passed answer hun hlast hkeeps =>
    obtain ⟨a, ha, hresult⟩ := lastResponse_mem hlast
    obtain ⟨⟨a, c⟩, hmem, rfl⟩ := List.mem_map.mp ha
    have hdispatched := run.dispatched (run.lastMet_subset hmem)
    have hfails := run.fails hun a c (run.lastMet_subset hmem)
    have hemitted := merge_eq_empty (emitted_empty env payload hun)
    rcases hfails with hu | hu
    · obtain ⟨e, he⟩ := hu ▸ hdispatched
      rw [hresult] at he
      cases he
    · obtain ⟨resp, hresp, _, hmarker⟩ := hu ▸ hdispatched
      rw [hresult] at hresp
      cases hresp
      exact .passed (run.fails hun) ⟨a, c, hmem, hu⟩ (hkeeps.marker.trans hmarker) hemitted
  | own hun hlast hmarker =>
    have hemitted := merge_eq_empty (emitted_empty env payload hun)
    refine .own (run.fails hun) (fun a c hmem ↦ ?_) hmarker hemitted
    have hdispatched := run.dispatched (run.lastMet_subset hmem)
    have hnone := lastResponse_eq_none.mp hlast a (List.mem_map_of_mem hmem)
    rcases run.fails hun a c (run.lastMet_subset hmem) with hu | hu
    · exact hu
    · obtain ⟨resp, hresp, _⟩ := hu ▸ hdispatched
      rw [Attempt.response, hresp] at hnone
      cases hnone

end Endings

end QueQiao.RequestRun
