import QueQiao.Handlers.CommonHandler
import QueQiao.Services.Dispatcher

namespace QueQiao.Dispatcher

open CircuitBreaker CommonHandler

section Chain

variable {X : Externals} {modelName : String}

def Attempt.answer (a : Attempt) : Option StatusCode :=
  match a.result with
  | .ok resp => some resp.status
  | .error _ => none

def reportOf (X : Externals) (modelName : String) (client : ClientConfig)
    (result : Except AppError Response) : RecordCall :=
  (account X modelName client result).2.1

theorem reportOf_error (client : ClientConfig) (e : AppError) :
    reportOf X modelName client (.error e) = .failure := rfl

theorem classify_eq_rateLimited (status : StatusCode) :
    classifyUpstreamClientError status = .rateLimited ↔ status.asU16 = 429 := by
  rw [classifyUpstreamClientError]
  split <;> simp_all

theorem reportOf_ok (client : ClientConfig) (resp : Response) :
    reportOf X modelName client (.ok resp) = .failure ↔ resp.status.asU16 = 429 := by
  have hkind := classify_eq_rateLimited resp.status
  rw [reportOf, account]
  dsimp only
  split
  · rename_i hfinal
    simp only [reduceCtorEq, false_iff]
    intro hlimited
    rw [hkind.symm] at hlimited
    simp [StatusCode.isSuccess, StatusCode.isClientError, shouldRetryOnClientError, hlimited,
      hkind.mp hlimited] at hfinal
  · simp [UpstreamClientErrorKind.countsAsBackendFailure, hkind]

theorem attemptClient_cases (X : Externals) (modelName : String) (e : Encounter)
    (client : ClientConfig) (s : ChainState) :
    (∃ registry, attemptClient X modelName e client s =
      (none, { s with registry := registry })) ∨
    ∃ a : Attempt, a.client = client ∧ a.result = e.answer client modelName ∧
      a.recorded = reportOf X modelName a.client a.result ∧
      attemptClient X modelName e client s =
        ((account X modelName client a.result).1,
          { s.attempted a with
            lastClientError :=
              (account X modelName client a.result).2.2.or s.lastClientError }) := by
  cases hadmits : (allow e.allowAt client (e.before s.registry)).1.admits with
  | false =>
    exact .inl ⟨(allow e.allowAt client (e.before s.registry)).2, by simp [attemptClient, hadmits]⟩
  | true =>
    let result := e.answer client modelName
    refine .inr ⟨⟨client, result, e.during (allow e.allowAt client (e.before s.registry)).2,
      e.recordAt, reportOf X modelName client result⟩, rfl, rfl, rfl, ?_⟩
    simp [attemptClient, hadmits, reportOf, result]

theorem attemptClients_invariant {P : Option Response × ChainState → Prop}
    {clients : List ClientConfig} {encounters : ℕ → Encounter} {s : ChainState}
    (hstep : ∀ i client s, P (none, s) → P (attemptClient X modelName (encounters i) client s))
    (h : P (none, s)) : P (attemptClients X modelName encounters clients s) := by
  induction clients generalizing s encounters with
  | nil => exact h
  | cons client clients ih =>
    have hfirst := hstep 0 client s h
    rw [attemptClients]
    cases hs : attemptClient X modelName (encounters 0) client s with
    | mk done s' =>
      rw [hs] at hfirst
      cases done with
      | some resp => exact hfirst
      | none => exact ih (fun i ↦ hstep (i + 1)) hfirst

theorem attemptClients_attempts {Q : Attempt → Prop} {clients : List ClientConfig}
    {encounters : ℕ → Encounter} {s : ChainState}
    (hQ : ∀ i (a : Attempt), a.result = (encounters i).answer a.client modelName →
      a.recorded = reportOf X modelName a.client a.result → Q a)
    (hs : ∀ a ∈ s.attempts, Q a) :
    ∀ a ∈ (attemptClients X modelName encounters clients s).2.attempts, Q a := by
  refine attemptClients_invariant (P := fun r ↦ ∀ a ∈ r.2.attempts, Q a) ?_ hs
  intro i client s h
  rcases attemptClient_cases X modelName (encounters i) client s with
    ⟨registry, hrun⟩ | ⟨b, rfl, hresult, hrecorded, hrun⟩
  · rw [hrun]
    exact h
  · rw [hrun]
    intro a ha
    rcases List.mem_append.mp ha with ha | ha
    · exact h a ha
    · rw [List.mem_singleton.mp ha]
      exact hQ i b hresult hrecorded

theorem attemptClients_recorded {clients : List ClientConfig} {encounters : ℕ → Encounter}
    {s : ChainState} (h : ∀ a ∈ s.attempts, a.recorded = reportOf X modelName a.client a.result) :
    ∀ a ∈ (attemptClients X modelName encounters clients s).2.attempts,
      a.recorded = reportOf X modelName a.client a.result :=
  attemptClients_attempts (fun _ _ _ hrecorded ↦ hrecorded) h

theorem chain_attempts (X : Externals) (modelName : String) (encounters : ℕ → Encounter)
    (clients : List ClientConfig) (registry : RegistryState) (tried : List String) :
    (executeClientChainWithRegistry X modelName encounters clients registry tried).2 =
      (attemptClients X modelName encounters clients ⟨registry, tried, none, []⟩).2 := by
  rw [executeClientChainWithRegistry]
  split
  · rename_i hs
    rw [hs]
  · rename_i hs
    rw [hs]
    split
    · rfl
    split
    · rfl
    split <;> rfl

theorem chain_recorded {encounters : ℕ → Encounter} {clients : List ClientConfig}
    {registry : RegistryState} {tried : List String} {a : Attempt}
    (h : a ∈ (executeClientChainWithRegistry X modelName encounters clients registry
      tried).2.attempts) : a.recorded = reportOf X modelName a.client a.result := by
  rw [chain_attempts] at h
  exact attemptClients_recorded (by simp) a h

def lastAnswer (attempts : List Attempt) : Option StatusCode :=
  (attempts.filterMap Attempt.answer).getLast?

theorem lastAnswer_append (attempts : List Attempt) (a : Attempt) :
    lastAnswer (attempts ++ [a]) = a.answer.or (lastAnswer attempts) := by
  rw [lastAnswer, List.filterMap_append]
  cases ha : a.answer with
  | none => simp [ha, lastAnswer]
  | some status => simp [ha]

theorem account_answer (modelName : String) (client : ClientConfig) (a : Attempt) :
    ((account X modelName client a.result).1.map (·.status)).or
      ((account X modelName client a.result).2.2.map (·.2.status)) = a.answer := by
  rw [account.eq_def, Attempt.answer]
  cases a.result with
  | error e => rfl
  | ok resp =>
    dsimp only
    split <;> rfl

theorem attemptClients_lastAnswer (modelName : String) (clients : List ClientConfig)
    (encounters : ℕ → Encounter) {s : ChainState}
    (h : s.lastClientError.map (·.2.status) = lastAnswer s.attempts) :
    let r := attemptClients X modelName encounters clients s
    (r.1.map (·.status)).or (r.2.lastClientError.map (·.2.status)) = lastAnswer r.2.attempts := by
  refine attemptClients_invariant (P := fun r ↦ (r.1.map (·.status)).or
    (r.2.lastClientError.map (·.2.status)) = lastAnswer r.2.attempts) ?_ h
  intro i client s h
  rcases attemptClient_cases X modelName (encounters i) client s with
    ⟨registry, hrun⟩ | ⟨a, _, _, _, hrun⟩
  · rw [hrun]
    exact h
  · have hanswer := account_answer (X := X) modelName client a
    have hlast : lastAnswer (s.attempted a).attempts = a.answer.or (lastAnswer s.attempts) :=
      lastAnswer_append _ _
    rw [Option.map_none, Option.none_or] at h
    rw [hrun]
    dsimp only
    rw [hlast, ← hanswer, ← h, Option.map_or, Option.or_assoc]

theorem chain_status {encounters : ℕ → Encounter} {clients : List ClientConfig}
    {registry : RegistryState} {tried : List String} {resp : Response}
    (h : (executeClientChainWithRegistry X modelName encounters clients registry tried).1 =
      .ok resp) :
    (executeClientChainWithRegistry X modelName encounters clients registry tried).2.attempts = [] ∨
    lastAnswer (executeClientChainWithRegistry X modelName encounters clients registry
      tried).2.attempts = some resp.status := by
  have hlast := attemptClients_lastAnswer (X := X) modelName clients encounters
    (s := ⟨registry, tried, none, []⟩) rfl
  rw [chain_attempts]
  rw [executeClientChainWithRegistry] at h
  split at h
  · rename_i resp' s hs
    cases h
    right
    rw [hs] at hlast ⊢
    simpa using hlast.symm
  · rename_i s hs
    rw [hs] at hlast ⊢
    split at h
    · rename_i hnone
      exact .inl hnone
    split at h
    · cases h
    split at h
    · rename_i kind resp' herr
      cases h
      right
      simpa [herr, passThrough] using hlast.symm
    · cases h

end Chain

def CountsAsSuccess (status : StatusCode) : Prop :=
  status.isSuccess = true ∨ (status.isClientError = true ∧ status.asU16 ≠ 429)

/-- The accounting of an attempt: errors and server errors are backend failures, which reset
no counter and close no breaker, and only a 2xx or a 4xx other than 429 is a success. -/
structure Accounted (a : Attempt) : Prop where
  error : a.answer = none → a.recorded = .failure
  server_error : ∀ status, a.answer = some status → status.isServerError = true →
    a.recorded = .failure
  keeps : ∀ status, a.answer = some status → status.isServerError = true →
    (a.before.entry a.client).baseUrl = a.client.baseUrl →
    (a.before.entry a.client).consecutiveFailures ≤
        (a.after.entry a.client).consecutiveFailures ∧
      ((a.before.entry a.client).openedAt.isSome → (a.after.entry a.client).openedAt.isSome)
  success : ∀ status, a.answer = some status → a.recorded = .success → CountsAsSuccess status

def NeitherSuccessNorClientError (a : Attempt) : Prop :=
  ∃ status, a.answer = some status ∧ status.isSuccess = false ∧ status.isClientError = false

theorem answer_eq_none {a : Attempt} : a.answer = none ↔ ∃ e, a.result = .error e := by
  rw [Attempt.answer]
  split <;> simp_all

theorem answer_eq_some {a : Attempt} {status : StatusCode} :
    a.answer = some status ↔ ∃ resp, a.result = .ok resp ∧ resp.status = status := by
  rw [Attempt.answer]
  split <;> simp_all

theorem isServerError_disjoint {status : StatusCode} (h : status.isServerError = true) :
    status.isSuccess = false ∧ status.isClientError = false := by
  simp only [StatusCode.isServerError, StatusCode.isSuccess, StatusCode.isClientError,
    Bool.and_eq_true, decide_eq_true_eq, Bool.and_eq_false_iff, decide_eq_false_iff_not] at h ⊢
  omega

/-- An attempt of a chain is accounted as it should be exactly when its result is not a
response outside 2xx and 4xx. -/
theorem accounted_iff (X : Externals) (modelName : String) (encounters : ℕ → Encounter)
    (clients : List ClientConfig) (registry : RegistryState) (tried : List String) {a : Attempt}
    (h : a ∈ (executeClientChainWithRegistry X modelName encounters clients registry
      tried).2.attempts) :
    Accounted a ↔ ¬NeitherSuccessNorClientError a := by
  have hrecorded := chain_recorded h
  have hfailure : ∀ status, a.answer = some status →
      (a.recorded = .failure ↔ status.asU16 = 429) := by
    intro status hstatus
    obtain ⟨resp, hresp, rfl⟩ := answer_eq_some.mp hstatus
    rw [hrecorded, hresp]
    exact reportOf_ok a.client resp
  constructor
  · rintro hacc ⟨status, hanswer, hsuccess, hclient⟩
    have hlimited : status.asU16 ≠ 429 := by
      intro h429
      simp [StatusCode.isClientError, h429] at hclient
    have hrec : a.recorded = .success := by
      cases hr : a.recorded with
      | success => rfl
      | failure => exact absurd ((hfailure status hanswer).mp hr) hlimited
    rcases hacc.success status hanswer hrec with hs | ⟨hc, _⟩
    · exact Bool.false_ne_true (hsuccess.symm.trans hs)
    · exact Bool.false_ne_true (hclient.symm.trans hc)
  · intro hcond
    have hserver : ∀ status, a.answer = some status → status.isServerError ≠ true :=
      fun status hanswer hs ↦ hcond ⟨status, hanswer, isServerError_disjoint hs⟩
    refine ⟨fun hnone ↦ ?_, fun status ha hs ↦ absurd hs (hserver status ha),
      fun status ha hs ↦ absurd hs (hserver status ha), fun status ha hrec ↦ ?_⟩
    · obtain ⟨e, he⟩ := answer_eq_none.mp hnone
      rw [hrecorded, he, reportOf_error]
    · have hlimited : status.asU16 ≠ 429 := by
        intro h429
        rw [(hfailure status ha).mpr h429] at hrec
        cases hrec
      by_contra hcount
      refine hcond ⟨status, ha, ?_, ?_⟩
      · by_contra hs
        exact hcount (.inl (by simpa using hs))
      · by_contra hc
        exact hcount (.inr ⟨by simpa using hc, hlimited⟩)

def twiceFailed : RegistryState :=
  (RegistryState.new {}).insert "primary"
    { baseUrl := "https://primary.example.com/v1", consecutiveFailures := 2, openedAt := none,
      backoffLevel := 0, probeInFlight := false }

def primaryClient : ClientConfig where
  name := "primary"
  baseUrl := "https://primary.example.com/v1"

def plainExternals : Externals where
  hashScore := fun _ _ _ ↦ 1
  statusText := fun status ↦ toString status.asU16
  debugNames := toString

def emptyObject : List UInt8 := [123, 125]

def emptyObjectOnly : CommonHandler.Externals where
  parseJson := fun bytes ↦
    if bytes = emptyObject then .ok (.obj []) else .error "Syntax at character 0"
  renderJson := fun _ ↦ "{}"
  fromUtf8Lossy := fun bytes ↦ String.ofList (bytes.map fun b ↦ Char.ofNat b.toNat)
  buildRequestBody := fun p _ _ ↦ .obj [("model", .str p.getModel)]

/-- A client that the handlers serve: each attempt sends the request once and gets `status`
and `body`. -/
def handledEncounter (p : RequestPayload) (status : StatusCode) (body : List UInt8) :
    Encounter where
  allowAt := 0
  answer := fun client model ↦ dispatchRequest emptyObjectOnly ⟨[], .deterministic, none, {}⟩
    (p.setModel model) client fun _ ↦ .ok ⟨status, .ok body⟩
  recordAt := 0

def handledChain (p : RequestPayload) (status : StatusCode) (body : List UInt8) :
    Except (Option String) Response × ChainState :=
  executeClientChainWithRegistry plainExternals "m" (fun _ ↦ handledEncounter p status body)
    [primaryClient] twiceFailed []

def Attempt.summary (a : Attempt) : Option ℕ × RecordCall × ℕ × ℕ :=
  (a.answer.map (·.asU16), a.recorded, (a.before.entry a.client).consecutiveFailures,
    (a.after.entry a.client).consecutiveFailures)

theorem accounted_iff_unauthorized :
    ∃ a ∈ (handledChain (.chat ⟨"m", none⟩) .unauthorized emptyObject).2.attempts,
      a.summary = (some 401, .success, 2, 0) ∧ (Accounted a ↔ ¬NeitherSuccessNorClientError a) := by
  have hrun : (handledChain (.chat ⟨"m", none⟩) .unauthorized emptyObject).2.attempts.map
      Attempt.summary = [(some 401, .success, 2, 0)] := by
    decide +kernel
  obtain ⟨a, ha, hsummary⟩ := List.map_eq_singleton_iff.mp hrun
  have hmem := ha ▸ List.mem_singleton_self a
  exact ⟨a, hmem, hsummary, accounted_iff _ _ _ _ _ _ hmem⟩

/-- An upstream answers 503 with a JSON body: the handlers return the response, and the chain
takes it for a success that resets the failure counter. -/
theorem server_error_not_accounted :
    ∃ a ∈ (handledChain (.chat ⟨"m", none⟩) .serviceUnavailable emptyObject).2.attempts,
      a.summary = (some 503, .success, 2, 0) ∧ ¬Accounted a := by
  have hrun : (handledChain (.chat ⟨"m", none⟩) .serviceUnavailable emptyObject).2.attempts.map
      Attempt.summary = [(some 503, .success, 2, 0)] := by
    decide +kernel
  obtain ⟨a, ha, hsummary⟩ := List.map_eq_singleton_iff.mp hrun
  refine ⟨a, ha ▸ List.mem_singleton_self a, hsummary, fun hacc ↦ ?_⟩
  obtain ⟨hanswer, hrecorded, _⟩ := Prod.mk.inj hsummary |>.imp_right Prod.mk.inj
  obtain ⟨status, hstatus, h503⟩ := Option.map_eq_some_iff.mp hanswer
  have hserver : status.isServerError = true := by simp [StatusCode.isServerError, h503]
  exact absurd (hrecorded.symm.trans (hacc.server_error status hstatus hserver)) (by decide)

/-- What an attempt that an upstream answered with `status` should lead to in a chain: no
backend failure is recorded, the answer is kept, and the caller receives its status when the
chain returns the response of this attempt, the last one that ended in a response. -/
structure Honoured (run : Except (Option String) Response × ChainState) (a : Attempt)
    (status : StatusCode) : Prop where
  healthy : a.recorded ≠ .failure
  kept : a.answer = some status
  returned : ∀ pre post resp, run.2.attempts = pre ++ a :: post →
    (∀ b ∈ post, b.answer = none) → run.1 = .ok resp → resp.status = status

theorem lastAnswer_eq {pre post : List Attempt} {a : Attempt} {status : StatusCode}
    (ha : a.answer = some status) (hpost : ∀ b ∈ post, b.answer = none) :
    lastAnswer (pre ++ a :: post) = some status := by
  have hnil : post.filterMap Attempt.answer = [] := List.filterMap_eq_nil_iff.mpr hpost
  simp [lastAnswer, List.filterMap_append, ha, hnil]

/-- A 4xx other than 429 is honoured exactly on streaming requests and on bodies that are
JSON. -/
theorem client_error_honoured_iff (X : Externals) (H : CommonHandler.Externals) (config : Config)
    (payload : RequestPayload) (modelName : String) (encounters : ℕ → Encounter)
    (clients : List ClientConfig) (registry : RegistryState) (tried : List String) {a : Attempt}
    {exchange : Exchange} {status : StatusCode} {body : List UInt8}
    (ha : a ∈ (executeClientChainWithRegistry X modelName encounters clients registry
      tried).2.attempts)
    (hresult : a.result = dispatchRequest H config payload a.client exchange)
    (hdelivers : Delivers payload.isStreaming exchange status body)
    (hclient : status.isClientError = true) (hlimited : status.asU16 ≠ 429) :
    Honoured (executeClientChainWithRegistry X modelName encounters clients registry tried)
        a status ↔
      payload.isStreaming = true ∨ ∃ v, H.parseJson body = .ok v := by
  have hsuccess : status.isSuccess = false := by
    simp only [StatusCode.isClientError, StatusCode.isSuccess, Bool.and_eq_true,
      decide_eq_true_eq, Bool.and_eq_false_iff, decide_eq_false_iff_not] at hclient ⊢
    omega
  have hrecorded := chain_recorded ha
  -- whatever way an answer is kept, its accounting and its status follow
  have hkept : (∃ resp, dispatchRequest H config payload a.client exchange = .ok resp ∧
      resp.status = status) →
      Honoured (executeClientChainWithRegistry X modelName encounters clients registry tried)
        a status := by
    rintro ⟨resp, hresp, hstatus⟩
    have hanswer : a.answer = some status := answer_eq_some.mpr ⟨resp, hresult.trans hresp, hstatus⟩
    refine ⟨fun hfailure ↦ ?_, hanswer, fun pre post resp' hsplit hpost hok ↦ ?_⟩
    · rw [hrecorded, hresult, hresp] at hfailure
      exact hlimited (hstatus ▸ (reportOf_ok a.client resp).mp hfailure)
    · rcases chain_status hok with hnil | hlast
      · simp [hnil] at ha
      · rw [hsplit, lastAnswer_eq hanswer hpost] at hlast
        exact (Option.some.inj hlast).symm
  cases hstream : payload.isStreaming with
  | true =>
    rw [hstream] at hdelivers
    simpa using hkept (dispatch_streaming hstream hdelivers hsuccess)
  | false =>
    rw [hstream] at hdelivers
    simp only [Bool.false_eq_true, false_or]
    constructor
    · intro hhonoured
      cases hparse : H.parseJson body with
      | ok v => exact ⟨v, rfl⟩
      | error e =>
        have herror := hresult.trans (dispatch_plain_error hstream hdelivers hparse)
        exact absurd (by rw [hrecorded, herror, reportOf_error]) hhonoured.healthy
    · rintro ⟨v, hparse⟩
      exact hkept (dispatch_plain_ok hstream hdelivers hsuccess hparse)

theorem handledChain_attempt (p : RequestPayload) (status : StatusCode) (body : List UInt8) :
    ∃ a ∈ (handledChain p status body).2.attempts,
      a.result = dispatchRequest emptyObjectOnly ⟨[], .deterministic, none, {}⟩ (p.setModel "m")
        a.client fun _ ↦ .ok ⟨status, .ok body⟩ := by
  have hallowed : (allow 0 primaryClient twiceFailed).1.admits = true := by decide +kernel
  rw [handledChain, chain_attempts]
  rcases attemptClient_cases plainExternals "m" (handledEncounter p status body) primaryClient
    ⟨twiceFailed, [], none, []⟩ with ⟨registry, hs⟩ | ⟨a, hclient, hresult, _, hs⟩
  · have hskipped := congrArg (fun r ↦ r.2.attempts.length) hs
    simp [attemptClient, handledEncounter, hallowed, ChainState.attempted] at hskipped
  · have hattempts : (attemptClients plainExternals "m" (fun _ ↦ handledEncounter p status body)
        [primaryClient] ⟨twiceFailed, [], none, []⟩).2.attempts = [a] := by
      simp only [attemptClients, hs]
      split
      · rename_i heq
        rw [← (Prod.mk.inj heq).2]
        rfl
      · rename_i heq
        rw [← (Prod.mk.inj heq).2]
        rfl
    exact ⟨a, hattempts ▸ List.mem_singleton_self a, hclient ▸ hresult⟩

theorem client_error_honoured_iff_json :
    ∃ a ∈ (handledChain (.chat ⟨"m", none⟩) .badRequest emptyObject).2.attempts,
      Honoured (handledChain (.chat ⟨"m", none⟩) .badRequest emptyObject) a .badRequest := by
  obtain ⟨a, ha, hresult⟩ := handledChain_attempt (.chat ⟨"m", none⟩) .badRequest emptyObject
  exact ⟨a, ha, (client_error_honoured_iff _ _ _ _ _ _ _ _ _ ha hresult (.inl rfl) (by decide)
    (by decide)).mpr (.inr ⟨.obj [], rfl⟩)⟩

def plainText : List UInt8 := [110, 111]

theorem client_error_not_honoured :
    ∃ a ∈ (handledChain (.chat ⟨"m", none⟩) .badRequest plainText).2.attempts,
      a.summary = (none, .failure, 2, 3) ∧
      ¬Honoured (handledChain (.chat ⟨"m", none⟩) .badRequest plainText) a .badRequest := by
  have hrun : (handledChain (.chat ⟨"m", none⟩) .badRequest plainText).2.attempts.map
      Attempt.summary = [(none, .failure, 2, 3)] := by
    decide +kernel
  obtain ⟨a, ha, hsummary⟩ := List.map_eq_singleton_iff.mp hrun
  refine ⟨a, ha ▸ List.mem_singleton_self a, hsummary, fun h ↦ h.healthy ?_⟩
  exact (Prod.mk.inj (Prod.mk.inj hsummary).2).1

end QueQiao.Dispatcher
