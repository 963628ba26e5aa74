import QueQiao.Client.Routing
import QueQiao.Handlers.CommonHandler
import QueQiao.Lib.Transition
import Mathlib.Data.List.Perm.Basic

namespace QueQiao.LeastConnections

open CommonHandler Lib.Transition Routing

/-- A request as the dispatcher routes it: a JSON request, or one of the two audio requests. -/
inductive RoutedRequest
  | json (payload : RequestPayload)
  | transcription (model : String)
  | translation (model : String)

def RoutedRequest.model : RoutedRequest → String
  | json payload => payload.getModel
  | transcription model | translation model => model

def RoutedRequest.endpoint : RoutedRequest → Option String
  | json payload => payload.getEndpoint
  | transcription _ => some "audio/transcriptions"
  | translation _ => some "audio/translations"

/-- A response whose body is still alive, and with it the guard that `dispatch_request` put
into it. -/
structure LiveResponse where
  payload : RequestPayload
  client : ClientConfig

def LiveResponse.labels (r : LiveResponse) : ActiveRequestLabels := activeLabels r.payload r.client

theorem dispatchRequest_guard {H : Externals} {config : Config} {payload : RequestPayload}
    {client : ClientConfig} {exchange : Exchange} {resp : Response}
    (h : dispatchRequest H config payload client exchange = .ok resp) :
    resp.guard = some (LiveResponse.labels ⟨payload, client⟩) := by
  simp only [dispatchRequest, Except.map] at h
  split at h
  · cases h
  · cases h
    rfl

structure System where
  gauge : Gauge
  live : List LiveResponse

def System.init : System := ⟨.empty, []⟩

/-- A response of `dispatch_request` is wrapped, or the body of one is dropped. -/
inductive Event
  | respond (payload : RequestPayload) (client : ClientConfig)
  | drop (i : ℕ)

def step (s : System) : Event → Option System
  | .respond payload client =>
    let r : LiveResponse := ⟨payload, client⟩
    some ⟨incActiveRequests r.labels s.gauge, r :: s.live⟩
  | .drop i =>
    match s.live[i]? with
    | none => none
    | some r => some ⟨decActiveRequests r.labels s.gauge, s.live.eraseIdx i⟩

def GaugeCounts (s : System) : Prop :=
  ∀ labels, s.gauge labels = s.live.countP fun r ↦ decide (r.labels = labels)

theorem gaugeCounts_step {s t : System} {e : Event} (h : GaugeCounts s) (hs : step s e = some t) :
    GaugeCounts t := by
  cases e with
  | respond payload client =>
    cases hs
    intro labels
    simp only [incActiveRequests, Gauge.add, List.countP_cons, h labels]
    by_cases hl : labels = LiveResponse.labels ⟨payload, client⟩
    · simp [hl]
    · simp [hl, Ne.symm hl]
  | drop i =>
    simp only [step] at hs
    cases hr : s.live[i]? with
    | none => simp [hr] at hs
    | some r =>
      simp only [hr, Option.some.injEq] at hs
      subst hs
      intro labels
      obtain ⟨hi, rfl⟩ := List.getElem?_eq_some_iff.mp hr
      have hcount := h labels
      rw [← (List.getElem_cons_eraseIdx_perm hi).countP_eq, List.countP_cons] at hcount
      simp only [decActiveRequests, Gauge.add]
      by_cases hl : labels = s.live[i].labels
      · simp [hl] at hcount ⊢
        omega
      · simpa [hl, Ne.symm hl] using hcount

theorem gaugeCounts_reachable {tr : List (System × Event)} {s : System}
    (h : Path step .init tr s) : GaugeCounts s :=
  h.invariant_all (fun _ ↦ rfl) fun _ _ _ hs hst ↦ gaugeCounts_step hs hst

def System.liveCount (s : System) (request : RoutedRequest) (client : ClientConfig) : ℕ :=
  s.live.countP fun r ↦ decide (r.payload.getEndpoint = request.endpoint ∧
    r.payload.getModel = request.model ∧ r.client.name = client.name)

theorem written_ne_read (payload : RequestPayload) (request : RoutedRequest) :
    "/v1/" ++ endpointPath payload ≠ request.endpoint.getD "unknown" := by
  cases request with
  | json p =>
    cases payload <;> cases p <;>
      simp [endpointPath, RoutedRequest.endpoint, RequestPayload.getEndpoint]
  | transcription model => cases payload <;> simp [endpointPath, RoutedRequest.endpoint]
  | translation model => cases payload <;> simp [endpointPath, RoutedRequest.endpoint]

theorem read_eq_zero {s : System} (h : GaugeCounts s) (request : RoutedRequest)
    (model backend : String) :
    s.gauge ⟨request.endpoint.getD "unknown", model, backend⟩ = 0 := by
  rw [h, Nat.cast_eq_zero, List.countP_eq_zero]
  intro r _ hr
  have hlabels := congrArg ActiveRequestLabels.endpoint (of_decide_eq_true hr)
  exact written_ne_read r.payload request hlabels

/-- How routing should see the live responses: each backend's count is theirs, and the
selected order is by live responses over priority. -/
structure RoutesByLive (s : System) (request : RoutedRequest) (clients : List ClientConfig) :
    Prop where
  counts : ∀ c ∈ clients, s.gauge ⟨request.endpoint.getD "unknown", request.model, c.name⟩ =
    s.liveCount request c
  order : (selectClientsByLeastConnections clients
      (some (getActiveCountsForClients s.gauge clients request.model request.endpoint))).Pairwise
    fun a b ↦ (s.liveCount request a : ℚ) / (max (a.priority.getD 1) 1 : ℕ) ≤
      (s.liveCount request b : ℚ) / (max (b.priority.getD 1) 1 : ℕ)

theorem connectionScore_of_count {counts : List (String × ℤ)} {client : ClientConfig} {n : ℕ}
    (h : counts.lookup client.name = some (n : ℤ)) :
    connectionScore counts client = (n : ℚ) / (max (client.priority.getD 1) 1 : ℕ) := by
  rw [connectionScore, h, Option.getD_some]
  cases n with
  | zero => simp
  | succ n => simp

theorem routesByLive_of_counts {s : System} {request : RoutedRequest} {clients : List ClientConfig}
    (h : ∀ c ∈ clients, s.gauge ⟨request.endpoint.getD "unknown", request.model, c.name⟩ =
      s.liveCount request c) : RoutesByLive s request clients := by
  refine ⟨h, ?_⟩
  let counts := getActiveCountsForClients s.gauge clients request.model request.endpoint
  have hperm := selectClientsByLeastConnections_perm clients (some counts)
  have hscore : ∀ c ∈ selectClientsByLeastConnections clients (some counts),
      connectionScore counts c =
        (s.liveCount request c : ℚ) / (max (c.priority.getD 1) 1 : ℕ) := by
    intro c hc
    have hmem := hperm.mem_iff.mp hc
    refine connectionScore_of_count ?_
    rw [lookup_getActiveCounts hmem, h c hmem]
  refine (selectClientsByLeastConnections_pairwise clients (some counts)).imp_of_mem
    fun ha hb hab ↦ ?_
  rw [← hscore _ ha, ← hscore _ hb]
  exact hab

/-- After every run of responses, routing sees the live responses of a request's type and
model exactly when there are none. -/
theorem routesByLive_iff {tr : List (System × Event)} {s : System} (h : Path step .init tr s)
    (request : RoutedRequest) (clients : List ClientConfig) :
    RoutesByLive s request clients ↔ ∀ c ∈ clients, s.liveCount request c = 0 := by
  have hread := read_eq_zero (gaugeCounts_reachable h) request request.model
  constructor
  · intro hroutes c hc
    have hcount := hroutes.counts c hc
    rw [hread] at hcount
    exact_mod_cast hcount.symm
  · intro hnone
    refine routesByLive_of_counts fun c hc ↦ ?_
    rw [hread, hnone c hc]
    rfl

def someClient : ClientConfig where
  name := "primary"
  baseUrl := "https://primary.example.com/v1"

def chatRequest : RequestPayload := .chat ⟨"m", some true⟩

def oneChat : List Event := [.respond chatRequest someClient]

theorem routesByLive_iff_embedding :
    ∃ tr s, Path step .init tr s ∧ s.live.length = 1 ∧
      RoutesByLive s (.json (.embedding ⟨"m"⟩)) [someClient] := by
  have hrun : (trace step .init oneChat).map (fun r ↦ (r.2.live.length,
      r.2.liveCount (.json (.embedding ⟨"m"⟩)) someClient)) = some (1, 0) := by
    decide
  obtain ⟨⟨tr, s⟩, hr, hs⟩ := Option.map_eq_some_iff.mp hrun
  obtain ⟨hlen, hnone⟩ := Prod.mk.inj hs
  exact ⟨tr, s, Path.of_trace hr, hlen,
    (routesByLive_iff (Path.of_trace hr) _ _).mpr fun c hc ↦ List.mem_singleton.mp hc ▸ hnone⟩

theorem chat_not_counted :
    ∃ tr s, Path step .init tr s ∧ s.liveCount (.json chatRequest) someClient = 1 ∧
      s.gauge ⟨"chat/completions", "m", "primary"⟩ = 0 ∧
      ¬RoutesByLive s (.json chatRequest) [someClient] := by
  have hrun : (trace step .init oneChat).map (fun r ↦ (r.2.liveCount (.json chatRequest) someClient,
      r.2.gauge ⟨"chat/completions", "m", "primary"⟩)) = some (1, 0) := by
    decide
  obtain ⟨⟨tr, s⟩, hr, hs⟩ := Option.map_eq_some_iff.mp hrun
  obtain ⟨hlive, hread⟩ := Prod.mk.inj hs
  refine ⟨tr, s, Path.of_trace hr, hlive, hread, fun h ↦ ?_⟩
  have hcount := h.counts someClient (List.mem_singleton_self _)
  rw [hlive] at hcount
  exact absurd (hread.symm.trans hcount) (by decide)

end QueQiao.LeastConnections
