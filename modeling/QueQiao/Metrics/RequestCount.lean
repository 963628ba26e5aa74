import QueQiao.Handlers.MessageCounts
import QueQiao.Handlers.RequestEndings
import QueQiao.Services.FallbackLoop

namespace QueQiao.RequestRun

open CommonHandler Dispatcher StreamHandler StreamLoggers RequestMetrics

/-- What raises the counters: a task that counts tokens, or the worker with an event. -/
inductive CounterOp
  | count (model : String) (counts : ℕ × ℕ)
  | process (event : MetricEvent)

namespace CounterOp

def apply (c : Counters) : CounterOp → Counters
  | .count model counts => c.incTokens model counts.1 counts.2
  | .process event => processMetricEvent event c

def requests : CounterOp → ℕ
  | .count _ _ => 0
  | .process _ => 1

def tokens : CounterOp → ℕ × ℕ
  | .count _ counts => counts
  | .process event => event.tokens

theorem apply_requests (c : Counters) (op : CounterOp) :
    (op.apply c).requests = c.requests + op.requests := by
  cases op with
  | count model counts => exact requests_incTokens ..
  | process event => exact requests_processMetricEvent event

theorem apply_tokens (c : Counters) (op : CounterOp) :
    (op.apply c).tokens = c.tokens + op.tokens := by
  cases op with
  | count model counts => exact tokens_incTokens ..
  | process event => exact tokens_processMetricEvent event

end CounterOp

theorem requests_foldl (ops : List CounterOp) (c : Counters) :
    (ops.foldl CounterOp.apply c).requests = c.requests + (ops.map CounterOp.requests).sum := by
  induction ops generalizing c with
  | nil => rfl
  | cons op ops ih =>
    rw [List.foldl_cons, ih, CounterOp.apply_requests, List.map_cons, List.sum_cons, add_assoc]

theorem tokens_foldl (ops : List CounterOp) (c : Counters) :
    (ops.foldl CounterOp.apply c).tokens = c.tokens + (ops.map CounterOp.tokens).sum := by
  induction ops generalizing c with
  | nil => exact (add_zero _).symm
  | cons op ops ih =>
    rw [List.foldl_cons, ih, CounterOp.apply_tokens, List.map_cons, List.sum_cons, add_assoc]

/-- In whatever order the tasks and the worker come to it, and from whatever counters, the request
is counted once and the tokens grow by the final counts. -/
def CountedOnce (ops : List CounterOp) (final : ℕ × ℕ) : Prop :=
  ∀ order : List CounterOp, order.Perm ops → ∀ c : Counters,
    (order.foldl CounterOp.apply c).requests = c.requests + 1 ∧
      (order.foldl CounterOp.apply c).tokens = c.tokens + final

def noCounters : Counters := ⟨0, 0, 0⟩

theorem countedOnce_iff_sums (ops : List CounterOp) (final : ℕ × ℕ) :
    CountedOnce ops final ↔
      (ops.map CounterOp.requests).sum = 1 ∧ (ops.map CounterOp.tokens).sum = final := by
  constructor
  · intro h
    obtain ⟨hrequests, htokens⟩ := h ops (List.Perm.refl ops) noCounters
    rw [requests_foldl] at hrequests
    rw [tokens_foldl] at htokens
    exact ⟨Nat.add_left_cancel hrequests, add_left_cancel htokens⟩
  · rintro ⟨hrequests, htokens⟩ order hperm c
    have hrequests' := (hperm.map CounterOp.requests).sum_eq
    have htokens' := (hperm.map CounterOp.tokens).sum_eq
    rw [requests_foldl, tokens_foldl, hrequests', htokens', hrequests, htokens]
    exact ⟨rfl, rfl⟩

def operations (emitted : Emitted) : List CounterOp :=
  (emitted.counted.map fun (model, counts) ↦ .count model counts) ++
    emitted.events.map .process

theorem countedOnce_operations (emitted : Emitted) (final : ℕ × ℕ) :
    CountedOnce (operations emitted) final ↔ emitted.CountsOnce final := by
  have hcounts : (emitted.counted.map fun (model, counts) ↦
      CounterOp.requests (.count model counts)).sum = 0 := by
    apply List.sum_eq_zero
    intro n hn
    obtain ⟨_, _, rfl⟩ := List.mem_map.mp hn
    rfl
  have hevents : (emitted.events.map fun event ↦ CounterOp.requests (.process event)).sum =
      emitted.events.length := by
    induction emitted.events with
    | nil => rfl
    | cons event events ih =>
      rw [List.map_cons, List.sum_cons, ih, List.length_cons, Nat.add_comm]
      rfl
  rw [countedOnce_iff_sums, operations, Emitted.CountsOnce]
  simp only [List.map_append, List.map_map, List.sum_append]
  rw [← hevents]
  constructor
  · rintro ⟨hrequests, htokens⟩
    exact ⟨(Nat.zero_add _).symm.trans (hcounts ▸ hrequests), htokens⟩
  · rintro ⟨hrequests, htokens⟩
    exact ⟨(congrArg₂ (· + ·) hcounts rfl).trans ((Nat.zero_add _).trans hrequests), htokens⟩

variable {env : Env}

/-- A request to one of the endpoints with metrics, as the middleware sees it. -/
inductive Handling (env : Env)
  | json (request : JsonRequest env)
  | audioRefused (message errorType : String)
  | audio (endpointPath model : String) (run : Handled env model (some endpointPath) audioAnswer)

def Handling.response : Handling env → Response
  | .json request => request.response
  | .audioRefused message errorType => (AppError.apiError .badRequest message errorType).intoResponse
  | .audio _ _ run => run.response

def Handling.emitted : Handling env → Emitted
  | .json request => request.emitted
  | .audioRefused _ _ | .audio _ _ _ => {}

structure LlmRequest (env : Env) where
  path : String
  path_mem : path ∈ llmMetricEndpoints
  initialModel : String
  elapsed : ℚ
  handling : Handling env

def LlmRequest.emitted (request : LlmRequest env) : Emitted :=
  { request.handling.emitted with
    events := request.handling.emitted.events ++
      (metricsMiddleware request.path request.initialModel request.elapsed
        request.handling.response).toList }

def LlmRequest.operations (request : LlmRequest env) : List CounterOp :=
  RequestRun.operations request.emitted

def streamUsages (env : Env) (payload : RequestPayload) (client : ClientConfig)
    (run : StreamRun) : List Json :=
  match payload with
  | .responses _ =>
    chunkUsages (completedResponses env.texts.serdeFromStr (sentData run.items))
  | .anthropicMessages _ => messageUsages env.texts.serdeFromStr (sentData run.items)
  | _ =>
    chunkUsages (chunks env.texts.serdeFromStr
      ((run.chatState env.texts (streamConfig env.config client payload)).logged.map chunkStr))

def reportedBy (env : Env) (payload : RequestPayload) (a : Attempt) (c : Contact) : ℕ × ℕ :=
  match upstream env.H payload.isStreaming c.exchange with
  | .json v => reported (v.get "usage").toList
  | .stream => reported (streamUsages env (payload.setModel c.model) a.client c.stream)
  | .silent | .refused => 0

def audioCounts (env : Env) (resp : Response) : ℕ × ℕ :=
  match resp.body with
  | .bytes bytes =>
    if resp.status.isSuccess then
      match env.H.parseJson bytes with
      | .ok v => reported (v.get "usage").toList
      | .error _ => 0
    else 0
  | .json _ | .events => 0

/-- The final prompt and completion counts of a request: the ones that its last answer reports. -/
def LlmRequest.finalCounts (request : LlmRequest env) : ℕ × ℕ :=
  match request.handling with
  | .json (.dispatched payload run) =>
    (run.met.getLast?.map fun (a, c) ↦ reportedBy env payload a c).getD 0
  | .audio _ _ run => audioCounts env run.response
  | .json (.refused _) | .json (.invalid _ _ _) | .audioRefused _ _ => 0

def StreamCounted (env : Env) (payload : RequestPayload) (client : ClientConfig)
    (run : StreamRun) : Prop :=
  match payload with
  | .responses _ =>
    ResponsesCounted run.outcome (completedResponses env.texts.serdeFromStr (sentData run.items))
  | .anthropicMessages _ =>
    MessagesCounted env.texts.serdeFromStr (run.outcomeRead env.texts.serdeFromStr)
      (sentData run.items)
  | _ =>
    let s := run.chatState env.texts (streamConfig env.config client payload)
    ChatCounted (atEnd run.ended s.outcome) (chunks env.texts.serdeFromStr (s.logged.map chunkStr))

/-- No upstream answers in the last round of a streaming request. -/
def Unanswered {payload : RequestPayload} (run : HandledJson env payload) : Prop :=
  payload.isStreaming = true → ∀ a c, (a, c) ∈ run.lastMet →
    upstream env.H payload.isStreaming c.exchange ≠ .refused

/-- When a dispatched request is counted as it should, by what comes of its last attempt: a
success that is not a stream has no complete usage and reports nothing, a stream is counted by its
task, and a failure leaves the count to the middleware. -/
def AnswerCounted {payload : RequestPayload} (run : HandledJson env payload) (a : Attempt)
    (c : Contact) : Upstream → Prop
  | .json v => complete (v.get "usage") = none ∧ reported (v.get "usage").toList = 0
  | .stream => StreamCounted env (payload.setModel c.model) a.client c.stream
  | .silent | .refused => Unanswered run

def DispatchedCounted {payload : RequestPayload} (run : HandledJson env payload) : Prop :=
  match run.met.getLast? with
  | none => Unanswered run
  | some (a, c) => AnswerCounted run a c (upstream env.H payload.isStreaming c.exchange)

def LlmRequest.WellCounted (request : LlmRequest env) : Prop :=
  match request.handling with
  | .json (.dispatched _ run) => DispatchedCounted run
  | .audio _ _ run => audioCounts env run.response = 0
  | .json (.refused _) | .json (.invalid _ _ _) | .audioRefused _ _ => True

section Law

theorem metricsMiddleware_marked {request : LlmRequest env}
    (h : request.handling.response.streamingMarker = true) :
    request.emitted = request.handling.emitted := by
  have hnone : metricsMiddleware request.path request.initialModel request.elapsed
      request.handling.response = none := by
    rw [metricsMiddleware, h, Bool.or_true, if_pos rfl]
  rw [LlmRequest.emitted, hnone, Option.toList_none, List.append_nil]

theorem metricsMiddleware_unmarked {request : LlmRequest env}
    (h : request.handling.response.streamingMarker = false) (final : ℕ × ℕ) :
    request.emitted.CountsOnce final ↔
      request.handling.emitted.events = [] ∧
        (request.handling.emitted.counted.map (·.2)).sum = final := by
  have hevent : ∃ event, metricsMiddleware request.path request.initialModel request.elapsed
      request.handling.response = some event ∧ event.tokens = 0 := by
    have hskip : shouldSkipMetrics request.path = false := by
      simpa [shouldSkipMetrics] using request.path_mem
    refine ⟨_, by rw [metricsMiddleware, h, hskip]; rfl, rfl⟩
  obtain ⟨event, hsome, htokens⟩ := hevent
  rw [LlmRequest.emitted, hsome, Emitted.CountsOnce]
  simp only [Option.toList_some, List.length_append, List.length_singleton, List.map_append,
    List.map_singleton, List.sum_append, List.sum_singleton, htokens, add_zero]
  constructor
  · rintro ⟨hlength, hsum⟩
    have hnil : request.handling.emitted.events = [] :=
      List.length_eq_zero_iff.mp (Nat.add_right_cancel (hlength.trans (Nat.zero_add 1).symm))
    rw [hnil] at hsum
    exact ⟨hnil, (add_zero _).symm.trans hsum⟩
  · rintro ⟨hnil, hsum⟩
    rw [hnil]
    exact ⟨rfl, (add_zero _).trans hsum⟩

theorem streamEmitted_countsOnce (env : Env) (payload : RequestPayload) (client : ClientConfig) (elapsed : ℚ)
    (run : StreamRun) :
    (streamEmitted env payload client elapsed run).CountsOnce
        (reported (streamUsages env payload client run)) ↔
      StreamCounted env payload client run := by
  have hchat := streamLoggerTask_countsOnce env.texts.serdeFromStr
    (loggerArgs payload client elapsed)
    (atEnd run.ended (run.chatState env.texts (streamConfig env.config client payload)).outcome)
    ((run.chatState env.texts (streamConfig env.config client payload)).logged.map chunkStr)
  cases payload with
  | responses p => exact responsesStreamLoggerTask_countsOnce ..
  | anthropicMessages p => exact anthropicStreamLoggerTask_countsOnce ..
  | chat | completion | embedding | rerank | score | classify => exact hchat

theorem plainEmitted_events (payload : RequestPayload) (client : ClientConfig) (elapsed : ℚ)
    (status : StatusCode) (w : Json) :
    (plainEmitted payload client elapsed status w).events = [] ↔
      complete (w.get "usage") = none := by
  rw [plainEmitted, complete]
  cases ((w.get "usage").map usageCounts).bind bothCounts <;> simp

theorem audio_unmarked {model : String} {endpoint : Option String}
    (run : Handled env model endpoint audioAnswer) : run.response.streamingMarker = false := by
  have hanswer (a : Attempt) (ha : a ∈ run.met.map Prod.fst) (resp : Response)
      (hresult : a.result = .ok resp) : resp.streamingMarker = false := by
    obtain ⟨⟨a, c⟩, hmem, rfl⟩ := List.mem_map.mp ha
    have h := (run.answers (a, c) hmem).symm.trans hresult
    rw [audioAnswer] at h
    split at h
    · cases h
    · cases h
    · split at h
      · cases h
        rfl
      · cases h
  cases run.ending with
  | @success before a answer hsplit _ hresult _ hkeeps =>
    exact hkeeps.marker.trans (hanswer a (by simp [hsplit]) answer hresult)
  | @passed answer _ hlast hkeeps =>
    obtain ⟨a, ha, hresult⟩ := lastResponse_mem hlast
    have hmem : a ∈ run.met.map Prod.fst := List.map_subset _ (List.drop_subset _ _) ha
    exact hkeeps.marker.trans (hanswer a hmem answer hresult)
  | own _ _ hmarker => exact hmarker

theorem failed_counts {payload : RequestPayload} {run : HandledJson env payload}
    (hfails : ∀ a c, (a, c) ∈ run.met → (upstream env.H payload.isStreaming c.exchange).Fails) :
    (run.met.getLast?.map fun (a, c) ↦ reportedBy env payload a c).getD 0 = 0 ∧
      (DispatchedCounted run ↔ Unanswered run) := by
  rw [DispatchedCounted]
  cases hlast : run.met.getLast? with
  | none => exact ⟨rfl, Iff.rfl⟩
  | some p =>
    dsimp only [Option.map_some, Option.getD_some]
    rw [reportedBy]
    rcases hfails p.1 p.2 (List.mem_of_getLast? hlast) with hu | hu
    · rw [hu]
      exact ⟨rfl, Iff.rfl⟩
    · rw [hu]
      exact ⟨rfl, Iff.rfl⟩

theorem dispatched_countsOnce {request : LlmRequest env} {payload : RequestPayload}
    {run : HandledJson env payload} (h : request.handling = .json (.dispatched payload run)) :
    request.emitted.CountsOnce request.finalCounts ↔ DispatchedCounted run := by
  have hmarker : request.handling.response.streamingMarker = run.response.streamingMarker := by
    rw [h]
    rfl
  have hemitted : request.handling.emitted = run.emitted := by
    rw [h]
    rfl
  have hfinal : request.finalCounts =
      (run.met.getLast?.map fun (a, c) ↦ reportedBy env payload a c).getD 0 := by
    rw [LlmRequest.finalCounts, h]
  have hempty : ({} : Emitted).CountsOnce 0 ↔ False := by simp [Emitted.CountsOnce]
  rw [hfinal]
  cases run.runEnding with
  | @json a c v w status hlast hu husage _ _ hunmarked hleft =>
    have hcounted : (plainEmitted (payload.setModel c.model) a.client c.elapsed status
      w).counted = [] := rfl
    rw [metricsMiddleware_unmarked (hmarker.trans hunmarked), hemitted, hleft,
      plainEmitted_events, husage, hcounted, DispatchedCounted, hlast]
    dsimp only [Option.map_some, Option.getD_some]
    rw [reportedBy, hu]
    exact and_congr_right fun _ ↦ eq_comm
  | @stream a c hlast hu _ hmarked hleft =>
    have hcounts := streamEmitted_countsOnce env (payload.setModel c.model) a.client
      c.elapsed c.stream
    rw [metricsMiddleware_marked (hmarker.trans hmarked), hemitted, hleft, DispatchedCounted,
      hlast]
    dsimp only [Option.map_some, Option.getD_some]
    rw [reportedBy, hu]
    exact hcounts
  | passed hfails hrefused hpassed hleft =>
    obtain ⟨hzero, hcond⟩ := failed_counts hfails
    rw [hzero, hcond]
    cases hstream : payload.isStreaming with
    | true =>
      rw [metricsMiddleware_marked (hmarker.trans (hpassed.trans hstream)), hemitted, hleft, hempty,
        false_iff]
      intro hun
      obtain ⟨a, c, hmem, hu⟩ := hrefused
      exact hun hstream a c hmem hu
    | false =>
      rw [metricsMiddleware_unmarked (hmarker.trans (hpassed.trans hstream)), hemitted, hleft]
      refine iff_of_true ⟨rfl, rfl⟩ fun h ↦ ?_
      rw [hstream] at h
      cases h
  | own hfails hsilent hunmarked hleft =>
    obtain ⟨hzero, hcond⟩ := failed_counts hfails
    rw [hzero, hcond, metricsMiddleware_unmarked (hmarker.trans hunmarked), hemitted, hleft]
    refine iff_of_true ⟨rfl, rfl⟩ fun _ a c hmem ↦ ?_
    rw [hsilent a c hmem]
    exact Upstream.noConfusion

/-- A request is counted once, with its final token counts, exactly when it is well counted. -/
theorem countedOnce_iff (request : LlmRequest env) :
    CountedOnce request.operations request.finalCounts ↔ request.WellCounted := by
  have hplain (hmarker : request.handling.response.streamingMarker = false)
      (hemitted : request.handling.emitted = {}) :
      request.emitted.CountsOnce request.finalCounts ↔ request.finalCounts = 0 := by
    rw [metricsMiddleware_unmarked hmarker, hemitted]
    exact ⟨fun h ↦ h.2.symm, fun h ↦ ⟨rfl, h.symm⟩⟩
  rw [LlmRequest.operations, countedOnce_operations, LlmRequest.WellCounted]
  cases h : request.handling with
  | json handled =>
    cases handled with
    | refused refusal =>
      have hmarker : request.handling.response.streamingMarker = false := by
        rw [h]
        cases refusal <;> rfl
      have hzero : request.finalCounts = 0 := by rw [LlmRequest.finalCounts, h]
      rw [hplain hmarker (by rw [h]; rfl), hzero]
      exact iff_true_intro rfl
    | invalid payload message rejected =>
      have hzero : request.finalCounts = 0 := by rw [LlmRequest.finalCounts, h]
      rw [hplain (by rw [h]; rfl) (by rw [h]; rfl), hzero]
      exact iff_true_intro rfl
    | dispatched payload run => exact dispatched_countsOnce h
  | audioRefused message errorType =>
    have hzero : request.finalCounts = 0 := by rw [LlmRequest.finalCounts, h]
    rw [hplain (by rw [h]; rfl) (by rw [h]; rfl), hzero]
    exact iff_true_intro rfl
  | audio endpointPath model run =>
    have hcounts : request.finalCounts = audioCounts env run.response := by
      rw [LlmRequest.finalCounts, h]
    have hmarker : request.handling.response.streamingMarker = false := by
      rw [h]
      exact audio_unmarked run
    rw [hplain hmarker (by rw [h]; rfl), hcounts]

end Law

def asciiBytes (s : String) : List UInt8 := s.toList.map fun c ↦ c.toNat.toUInt8

def usageBytes : List UInt8 :=
  asciiBytes "\x7b\"usage\":\x7b\"completion_tokens\":5,\"prompt_tokens\":7\x7d\x7d"

def usageBody : Json :=
  .obj [("usage", .obj [("completion_tokens", .num 5), ("prompt_tokens", .num 7)])]

def requestValue (payload : RequestPayload) : Json :=
  .obj [("messages", .arr [.obj [("content", .str "hi"), ("role", .str "user")]]),
    ("model", .str payload.getModel)]

def requestText : String :=
  "\x7b\"messages\":[\x7b\"content\":\"hi\",\"role\":\"user\"\x7d],\"model\":\"m\"\x7d"

def usageEnv : Env where
  X := plainExternals
  H :=
    { parseJson := fun bytes ↦
        if bytes = usageBytes then .ok usageBody else .error "Syntax at character 0"
      renderJson := fun _ ↦ requestText
      fromUtf8Lossy := fun bytes ↦ String.ofList (bytes.map fun b ↦ Char.ofNat b.toNat)
      buildRequestBody := fun payload _ _ ↦ requestValue payload }
  texts := ⟨.error, fun _ ↦ none, fun _ ↦ requestText⟩
  config := { openaiClients := [{ primaryClient with modelMatch := { value := ["m"] } }] }
  payloadToValue := requestValue

def usageContact : Contact where
  model := "m"
  exchange := fun _ ↦ .ok ⟨.ok, .ok usageBytes⟩
  elapsed := 1
  stream := ⟨[], true, false⟩

def usageVisit : Visit :=
  { someVisit with
    encounters := fun _ ↦
      { allowAt := 0
        answer := fun client _ ↦ jsonAnswer usageEnv (.chat ⟨"m", none⟩) usageContact client
        recordAt := 1 } }

def usageRun : HandledJson usageEnv (.chat ⟨"m", none⟩) :=
  .ofContact none 1 (fun _ ↦ usageVisit) (.new usageEnv.config.healthCheck) usageContact
    (fun _ _ _ _ ↦ rfl) (by decide +kernel)

def usageRequest : LlmRequest usageEnv where
  path := "/v1/chat/completions"
  path_mem := by decide
  initialModel := "unknown"
  elapsed := 1
  handling := .json (.dispatched _ usageRun)

theorem request_counted_twice :
    (usageRequest.operations.map CounterOp.requests).sum = 2 ∧ usageRequest.finalCounts = (5, 7) ∧
      ¬CountedOnce usageRequest.operations usageRequest.finalCounts := by
  have htwice : (usageRequest.operations.map CounterOp.requests).sum = 2 := by decide +kernel
  refine ⟨htwice, by decide +kernel, fun h ↦ ?_⟩
  rw [countedOnce_iff_sums, htwice] at h
  exact absurd h.1 (by decide)

end QueQiao.RequestRun
