import QueQiao.Services.Accounting

namespace QueQiao.Dispatcher

open CircuitBreaker

/-- What the dispatcher keeps of an answer that it passes on. -/
structure Keeps (answer resp : Response) : Prop where
  status : resp.status = answer.status
  marker : resp.streamingMarker = answer.streamingMarker
  body : answer.status.isServerError = false → resp.body = answer.body

theorem Keeps.trans {answer resp resp' : Response} (h : Keeps answer resp)
    (h' : Keeps resp resp') : Keeps answer resp' where
  status := h'.status.trans h.status
  marker := h'.marker.trans h.marker
  body := by
    intro hserver
    exact (h'.body (h.status ▸ hserver)).trans (h.body hserver)

theorem keeps_logIfNone (entry : AccessLogMeta) (resp : Response) :
    Keeps resp (resp.logIfNone entry) := ⟨rfl, rfl, fun _ ↦ rfl⟩

theorem keeps_passThrough (X : Externals) (kind : UpstreamClientErrorKind) (resp : Response) :
    Keeps resp (passThrough X kind resp) := ⟨rfl, rfl, fun _ ↦ rfl⟩

theorem keeps_finishOk (X : Externals) (tried : List String) (resp : Response) :
    Keeps resp (finishOk X tried resp) := by
  rw [finishOk]
  split
  · split
    · rename_i hserver
      refine ⟨rfl, rfl, fun h ↦ ?_⟩
      rw [hserver] at h
      cases h
    · exact ⟨rfl, rfl, fun _ ↦ rfl⟩
  · exact ⟨rfl, rfl, fun _ ↦ rfl⟩

def Attempt.response (a : Attempt) : Option Response := a.result.toOption

/-- The attempt got no answer, or one that is not a success. -/
def Attempt.Unsuccessful (a : Attempt) : Prop :=
  ∀ resp, a.result = .ok resp → resp.status.isSuccess = false

def lastResponse (attempts : List Attempt) : Option Response :=
  (attempts.filterMap Attempt.response).getLast?

theorem lastResponse_append (attempts : List Attempt) (a : Attempt) :
    lastResponse (attempts ++ [a]) = a.response.or (lastResponse attempts) := by
  rw [lastResponse, List.filterMap_append]
  cases ha : a.response with
  | none => simp [ha, lastResponse]
  | some resp => simp [ha]

theorem lastResponse_eq_none {attempts : List Attempt} :
    lastResponse attempts = none ↔ ∀ a ∈ attempts, a.response = none := by
  rw [lastResponse, List.getLast?_eq_none_iff, List.filterMap_eq_nil_iff]

/-- How a request ends: with a success of its last attempt, with an answer of its last round that
is not a success, or with a response of the gateway's own. -/
inductive Ending (attempts last : List Attempt) (resp : Response) : Prop
  | success {before : List Attempt} {a : Attempt} {answer : Response}
      (split : attempts = before ++ [a]) (unsuccessful : ∀ b ∈ before, b.Unsuccessful)
      (result : a.result = .ok answer) (status : answer.status.isSuccess = true)
      (keeps : Keeps answer resp)
  | passed {answer : Response} (unsuccessful : ∀ b ∈ attempts, b.Unsuccessful)
      (last_answer : lastResponse last = some answer) (keeps : Keeps answer resp)
  | own (unsuccessful : ∀ b ∈ attempts, b.Unsuccessful) (unanswered : lastResponse last = none)
      (marker : resp.streamingMarker = false)

theorem Ending.keeps {attempts last : List Attempt} {resp resp' : Response}
    (h : Ending attempts last resp) (hkeeps : Keeps resp resp') : Ending attempts last resp' := by
  cases h with
  | success hsplit hbefore hresult hstatus h =>
    exact .success hsplit hbefore hresult hstatus (h.trans hkeeps)
  | passed hun hlast h => exact .passed hun hlast (h.trans hkeeps)
  | own hun hlast hmarker => exact .own hun hlast (hkeeps.marker.trans hmarker)

theorem Ending.prepend {earlier attempts last : List Attempt} {resp : Response}
    (h : Ending attempts last resp) (hearlier : ∀ b ∈ earlier, b.Unsuccessful) :
    Ending (earlier ++ attempts) last resp := by
  have hall {rest : List Attempt} (hrest : ∀ b ∈ rest, b.Unsuccessful) :
      ∀ b ∈ earlier ++ rest, b.Unsuccessful := by
    intro b hb
    rcases List.mem_append.mp hb with hb | hb
    · exact hearlier b hb
    · exact hrest b hb
  cases h with
  | success hsplit hbefore hresult hstatus hkeeps =>
    rw [hsplit, ← List.append_assoc]
    exact .success rfl (hall hbefore) hresult hstatus hkeeps
  | passed hun hlast hkeeps => exact .passed (hall hun) hlast hkeeps
  | own hun hlast hmarker => exact .own (hall hun) hlast hmarker

section Chain

variable (X : Externals) (modelName : String)

theorem account_ok (client : ClientConfig) (resp : Response) :
    (∃ resp', (account X modelName client (.ok resp)).1 = some resp' ∧ Keeps resp resp') ∨
    (account X modelName client (.ok resp)).1 = none ∧ resp.status.isSuccess = false ∧
      ∃ kind resp', (account X modelName client (.ok resp)).2.2 = some (kind, resp') ∧
        Keeps resp resp' := by
  rw [account]
  dsimp only
  split
  · exact .inl ⟨_, rfl, keeps_logIfNone _ resp⟩
  · rename_i hfinal
    refine .inr ⟨rfl, ?_, _, _, rfl, keeps_logIfNone _ resp⟩
    rw [Bool.or_eq_true, not_or] at hfinal
    exact Bool.eq_false_iff.mpr hfinal.1

structure Going (s : ChainState) : Prop where
  unsuccessful : ∀ b ∈ s.attempts, b.Unsuccessful
  unanswered : s.lastClientError = none → lastResponse s.attempts = none
  answered : ∀ kind resp, s.lastClientError = some (kind, resp) →
    ∃ answer, lastResponse s.attempts = some answer ∧ Keeps answer resp

theorem going_start (registry : RegistryState) (tried : List String) :
    Going ⟨registry, tried, none, []⟩ where
  unsuccessful := by simp
  unanswered := fun _ ↦ rfl
  answered := by simp

def Progress : Option Response × ChainState → Prop
  | (some resp, s) => Ending s.attempts s.attempts resp
  | (none, s) => Going s

theorem attemptClient_progress (e : Encounter) (client : ClientConfig) {s : ChainState}
    (h : Going s) : Progress (attemptClient X modelName e client s) := by
  rcases attemptClient_cases X modelName e client s with ⟨registry, hs⟩ | ⟨a, _, _, _, hs⟩
  · rw [hs]
    exact ⟨h.unsuccessful, h.unanswered, h.answered⟩
  rw [hs]
  have hlast := lastResponse_append s.attempts a
  have hall (hun : a.Unsuccessful) : ∀ b ∈ s.attempts ++ [a], b.Unsuccessful := by
    intro b hb
    rcases List.mem_append.mp hb with hb | hb
    · exact h.unsuccessful b hb
    · exact List.mem_singleton.mp hb ▸ hun
  cases hresult : a.result with
  | error e =>
    have hnone : a.response = none := by rw [Attempt.response, hresult]; rfl
    have hun : a.Unsuccessful := by
      intro resp hresp
      rw [hresult] at hresp
      cases hresp
    rw [hnone, Option.none_or] at hlast
    refine ⟨hall hun, fun herr ↦ hlast.trans (h.unanswered herr), fun kind resp herr ↦ ?_⟩
    obtain ⟨answer, hanswer, hkeeps⟩ := h.answered kind resp herr
    exact ⟨answer, hlast.trans hanswer, hkeeps⟩
  | ok answer =>
    have hsome : a.response = some answer := by rw [Attempt.response, hresult]; rfl
    have hun (hstatus : answer.status.isSuccess = false) : a.Unsuccessful := by
      intro resp hresp
      rw [hresult] at hresp
      cases hresp
      exact hstatus
    rw [hsome, Option.some_or] at hlast
    rcases account_ok X modelName client answer with
      ⟨resp, hdone, hkeeps⟩ | ⟨hdone, hstatus, kind, resp, herr, hkeeps⟩
    · rw [hdone]
      cases hstatus : answer.status.isSuccess with
      | true => exact .success rfl h.unsuccessful hresult hstatus hkeeps
      | false => exact .passed (hall (hun hstatus)) hlast hkeeps
    · rw [hdone, herr, Option.some_or]
      refine ⟨hall (hun hstatus), fun hnone ↦ ?_, fun kind' resp' hsome' ↦ ?_⟩
      · cases hnone
      · cases hsome'
        exact ⟨answer, hlast, hkeeps⟩

theorem attemptClients_progress (encounters : ℕ → Encounter) (clients : List ClientConfig)
    {s : ChainState} (h : Going s) :
    Progress (attemptClients X modelName encounters clients s) := by
  refine attemptClients_invariant (P := Progress) ?_ h
  exact fun i client s hgoing ↦ attemptClient_progress X modelName (encounters i) client hgoing

def ChainEnding : Except (Option String) Response × ChainState → Prop
  | (.ok resp, s) => Ending s.attempts s.attempts resp
  | (.error (some _), s) => ∀ b ∈ s.attempts, b.Unsuccessful
  | (.error none, s) => (∀ b ∈ s.attempts, b.Unsuccessful) ∧ lastResponse s.attempts = none

theorem chain_ending (encounters : ℕ → Encounter) (clients : List ClientConfig)
    (registry : RegistryState) (tried : List String) :
    ChainEnding (executeClientChainWithRegistry X modelName encounters clients registry tried) := by
  have hrun := attemptClients_progress X modelName encounters clients
    (going_start registry tried)
  rw [executeClientChainWithRegistry]
  cases hs : attemptClients X modelName encounters clients ⟨registry, tried, none, []⟩ with
  | mk done s =>
    rw [hs] at hrun
    cases done with
    | some resp => exact hrun
    | none =>
      have hgoing : Going s := hrun
      dsimp only
      by_cases hattempts : s.attempts = []
      · rw [if_pos hattempts]
        exact .own hgoing.unsuccessful (lastResponse_eq_none.mpr (by simp [hattempts])) rfl
      rw [if_neg hattempts]
      cases selectFallbackModel clients with
      | some model => exact hgoing.unsuccessful
      | none =>
        cases herr : s.lastClientError with
        | none => exact ⟨hgoing.unsuccessful, hgoing.unanswered herr⟩
        | some err =>
          obtain ⟨answer, hanswer, hkeeps⟩ := hgoing.answered err.1 err.2 herr
          exact .passed hgoing.unsuccessful hanswer (hkeeps.trans (keeps_passThrough X ..))

end Chain

section Loop

variable (X : Externals) (config : Config) (routingKeys : Option (List (String × ℕ)))
  (endpoint : Option String)

def finalAttempts : ℕ → (ℕ → Visit) → String → ExecState → List Attempt
  | 0, _, _, _ => []
  | fuel + 1, visits, currentModel, s =>
    match executeRound X config routingKeys endpoint (visits 0) currentModel s with
    | (.finish _, s') => s'.attempts.drop s.attempts.length
    | (.switch model, s') => finalAttempts fuel (fun k ↦ visits (k + 1)) model s'

def RoundEnding (earlier : List Attempt) : Round × ExecState → Prop
  | (.finish resp, s) =>
    ∃ attempts, s.attempts = earlier ++ attempts ∧ Ending attempts attempts resp
  | (.switch _, s) =>
    ∃ attempts, s.attempts = earlier ++ attempts ∧ ∀ b ∈ attempts, b.Unsuccessful

variable {X config routingKeys endpoint}

theorem executeRound_ending (visit : Visit) (currentModel : String) (s : ExecState) :
    RoundEnding s.attempts
      (executeRound X config routingKeys endpoint visit currentModel s) := by
  rw [executeRound]
  cases resolveClients X config routingKeys endpoint visit currentModel with
  | error e => exact ⟨[], (List.append_nil _).symm, .own (by simp) rfl rfl⟩
  | ok clients =>
    have hchain := chain_ending X currentModel visit.encounters clients
      s.registry s.triedClients
    dsimp only
    cases hr : executeClientChainWithRegistry X currentModel visit.encounters clients s.registry
        s.triedClients with
    | mk result chain =>
      rw [hr] at hchain
      rcases result with (_ | model) | resp
      · exact ⟨chain.attempts, rfl, .own hchain.1 hchain.2 rfl⟩
      · exact ⟨chain.attempts, rfl, hchain⟩
      · exact ⟨chain.attempts, rfl, Ending.keeps hchain (keeps_finishOk X _ resp)⟩

theorem executeRound_finish {visit : Visit} {currentModel : String} {s s' : ExecState}
    {resp : Response}
    (h : executeRound X config routingKeys endpoint visit currentModel s = (.finish resp, s')) :
    ∃ attempts, s'.attempts = s.attempts ++ attempts ∧ Ending attempts attempts resp := by
  have hround : RoundEnding s.attempts
      (executeRound X config routingKeys endpoint visit currentModel s) :=
    executeRound_ending visit currentModel s
  rwa [h] at hround

theorem executeRound_switch {visit : Visit} {currentModel model : String} {s s' : ExecState}
    (h : executeRound X config routingKeys endpoint visit currentModel s = (.switch model, s')) :
    ∃ attempts, s'.attempts = s.attempts ++ attempts ∧ ∀ b ∈ attempts, b.Unsuccessful := by
  have hround : RoundEnding s.attempts
      (executeRound X config routingKeys endpoint visit currentModel s) :=
    executeRound_ending visit currentModel s
  rwa [h] at hround

theorem executeLoop_last {I : ExecState → Prop} {fuel : ℕ} {visits : ℕ → Visit}
    {currentModel : String} {s s' : ExecState} {resp : Response}
    (hkeeps : ∀ k model s, I s → ∀ model' s',
      executeRound X config routingKeys endpoint (visits k) model s = (.switch model', s') → I s')
    (hs : I s)
    (h : executeLoop X config routingKeys endpoint fuel visits currentModel s = some (resp, s')) :
    ∃ k model last, I last ∧
      executeRound X config routingKeys endpoint (visits k) model last = (.finish resp, s') ∧
      finalAttempts X config routingKeys endpoint fuel visits currentModel s =
        s'.attempts.drop last.attempts.length := by
  induction fuel generalizing visits currentModel s with
  | zero => cases h
  | succ fuel ih =>
    rw [executeLoop] at h
    rw [finalAttempts]
    cases hr : executeRound X config routingKeys endpoint (visits 0) currentModel s with
    | mk round next =>
      rw [hr] at h
      cases round with
      | finish resp' =>
        cases h
        exact ⟨0, currentModel, s, hs, hr, rfl⟩
      | switch model =>
        have hnext : I next := hkeeps 0 currentModel s hs model next hr
        obtain ⟨k, model', last, hlast, hround, hfinal⟩ := ih (fun k ↦ hkeeps (k + 1)) hnext h
        exact ⟨k + 1, model', last, hlast, hround, hfinal⟩

theorem executeLoop_ending {fuel : ℕ} {visits : ℕ → Visit} {currentModel : String}
    {s s' : ExecState} {resp : Response} (hs : ∀ b ∈ s.attempts, b.Unsuccessful)
    (h : executeLoop X config routingKeys endpoint fuel visits currentModel s = some (resp, s')) :
    Ending s'.attempts (finalAttempts X config routingKeys endpoint fuel visits currentModel s)
      resp := by
  have hkeeps (k : ℕ) (model : String) (s : ExecState) (hs : ∀ b ∈ s.attempts, b.Unsuccessful)
      (model' : String) (s' : ExecState)
      (hr : executeRound X config routingKeys endpoint (visits k) model s = (.switch model', s')) :
      ∀ b ∈ s'.attempts, b.Unsuccessful := by
    obtain ⟨attempts, hattempts, hun⟩ := executeRound_switch hr
    intro b hb
    rw [hattempts] at hb
    rcases List.mem_append.mp hb with hb | hb
    · exact hs b hb
    · exact hun b hb
  obtain ⟨k, model, last, hlast, hr, hfinal⟩ := executeLoop_last hkeeps hs h
  obtain ⟨attempts, hattempts, hending⟩ := executeRound_finish hr
  rw [hfinal, hattempts, List.drop_left]
  exact hending.prepend hlast

theorem executeLoop_finalAttempts {fuel : ℕ} {visits : ℕ → Visit} {currentModel : String}
    {s s' : ExecState} {resp : Response}
    (h : executeLoop X config routingKeys endpoint fuel visits currentModel s = some (resp, s')) :
    ∃ earlier, s'.attempts =
      earlier ++ finalAttempts X config routingKeys endpoint fuel visits currentModel s := by
  obtain ⟨k, model, last, -, hr, hfinal⟩ :=
    executeLoop_last (I := fun _ ↦ True) (fun _ _ _ _ _ _ _ ↦ trivial) trivial h
  obtain ⟨attempts, hattempts, -⟩ := executeRound_finish hr
  refine ⟨last.attempts, ?_⟩
  rw [hfinal, hattempts, List.drop_left]

theorem execute_ending {fuel : ℕ} {visits : ℕ → Visit} {initialModel : String}
    {registry : RegistryState} {s' : ExecState} {resp : Response}
    (h : execute X config routingKeys endpoint fuel visits initialModel registry =
      some (resp, s')) :
    Ending s'.attempts
      (finalAttempts X config routingKeys endpoint fuel visits initialModel
        ⟨configure config.healthCheck registry, [], []⟩) resp :=
  executeLoop_ending (by simp) h

end Loop

section Callbacks

variable {X : Externals} {config : Config} {routingKeys : Option (List (String × ℕ))}
  {endpoint : Option String} {P : ClientConfig → Except AppError Response → Prop}

theorem attemptClients_results {modelName : String} {encounters : ℕ → Encounter}
    {clients : List ClientConfig} {s : ChainState}
    (hP : ∀ i client, P client ((encounters i).answer client modelName))
    (hs : ∀ a ∈ s.attempts, P a.client a.result) :
    ∀ a ∈ (attemptClients X modelName encounters clients s).2.attempts, P a.client a.result :=
  attemptClients_attempts (fun i a hresult _ ↦ hresult ▸ hP i a.client) hs

theorem executeRound_results {visit : Visit} {currentModel : String} {s : ExecState}
    (hP : ∀ i client, P client ((visit.encounters i).answer client currentModel))
    (hs : ∀ a ∈ s.attempts, P a.client a.result) :
    ∀ a ∈ (executeRound X config routingKeys endpoint visit currentModel s).2.attempts,
      P a.client a.result := by
  rw [executeRound]
  cases resolveClients X config routingKeys endpoint visit currentModel with
  | error e => exact hs
  | ok clients =>
    have hchain := chain_attempts X currentModel visit.encounters clients s.registry s.triedClients
    have hresults : ∀ a ∈ (attemptClients X currentModel visit.encounters clients
        ⟨s.registry, s.triedClients, none, []⟩).2.attempts, P a.client a.result :=
      attemptClients_results hP (by simp)
    rw [← hchain] at hresults
    have hall : ∀ a ∈ s.attempts ++ (executeClientChainWithRegistry X currentModel
        visit.encounters clients s.registry s.triedClients).2.attempts, P a.client a.result := by
      intro a ha
      rcases List.mem_append.mp ha with ha | ha
      · exact hs a ha
      · exact hresults a ha
    dsimp only
    split <;> exact hall

theorem executeLoop_results {fuel : ℕ} {visits : ℕ → Visit} {currentModel : String}
    {s s' : ExecState} {resp : Response}
    (hP : ∀ k i client model, P client (((visits k).encounters i).answer client model))
    (hs : ∀ a ∈ s.attempts, P a.client a.result)
    (h : executeLoop X config routingKeys endpoint fuel visits currentModel s = some (resp, s')) :
    ∀ a ∈ s'.attempts, P a.client a.result := by
  have hround (k : ℕ) (model : String) (s : ExecState) (hs : ∀ a ∈ s.attempts, P a.client a.result) :
      ∀ a ∈ (executeRound X config routingKeys endpoint (visits k) model s).2.attempts,
        P a.client a.result :=
    executeRound_results (fun i client ↦ hP k i client model) hs
  have hkeeps (k : ℕ) (model : String) (s : ExecState)
      (hs : ∀ a ∈ s.attempts, P a.client a.result) (model' : String) (s' : ExecState)
      (hr : executeRound X config routingKeys endpoint (visits k) model s = (.switch model', s')) :
      ∀ a ∈ s'.attempts, P a.client a.result := by
    have hnext := hround k model s hs
    rwa [hr] at hnext
  obtain ⟨k, model, last, hlast, hr, -⟩ := executeLoop_last hkeeps hs h
  have hnext := hround k model last hlast
  rwa [hr] at hnext

end Callbacks

end QueQiao.Dispatcher
