import QueQiao.Services.LastRound

namespace QueQiao.Dispatcher

open CircuitBreaker

/-- A client's turn in a chain: what the breaker says and, if it admits the client, the result. -/
structure Turn where
  client : ClientConfig
  permission : AttemptPermission
  result : Option (Except AppError Response)
  asked : result.isSome = permission.admits

/-- A success, or an error of the request itself, which no other client would answer otherwise. -/
def isFinal (status : StatusCode) : Bool :=
  status.isSuccess || (status.isClientError && status.asU16 ∉ [401, 403, 404, 429])

namespace Turn

def response (t : Turn) : Option Response := t.result.bind Except.toOption

def ends (t : Turn) : Bool := t.response.any fun resp ↦ isFinal resp.status

def called (t : Turn) : Option (ClientConfig × Except AppError Response) :=
  t.result.map fun result ↦ (t.client, result)

end Turn

section Turns

variable (modelName : String)

/-- A backend fails if it does not answer, or has no capacity left. -/
def breakerReport : Except AppError Response → RecordCall
  | .ok resp => if resp.status.asU16 = 429 then .failure else .success
  | .error _ => .failure

def turn (e : Encounter) (client : ClientConfig) (registry : RegistryState) :
    Turn × RegistryState :=
  let asked := allow e.allowAt client (e.before registry)
  let result := e.answer client modelName
  if h : asked.1.admits = true then
    (⟨client, asked.1, some result, h.symm⟩,
      record e.recordAt client (breakerReport result) (e.during asked.2))
  else (⟨client, asked.1, none, (Bool.eq_false_iff.mpr h).symm⟩, asked.2)

def turns : (ℕ → Encounter) → List ClientConfig → RegistryState → List Turn
  | _, [], _ => []
  | encounters, client :: clients, registry =>
    (turn modelName (encounters 0) client registry).1 ::
      turns (fun i ↦ encounters (i + 1)) clients (turn modelName (encounters 0) client registry).2

def reached : List Turn → List Turn
  | [] => []
  | t :: ts => if t.ends then [t] else t :: reached ts

end Turns

inductive ChainOutcome (clients : List ClientConfig) (ts : List Turn) :
    Except (Option String) Response → Prop
  | stopped {t : Turn} {answer resp : Response} (first : ts.find? Turn.ends = some t)
      (answered : t.response = some answer) (status : resp.status = answer.status)
      (body : resp.body = answer.body) : ChainOutcome clients ts (.ok resp)
  | coolingDown {resp : Response} (blocked : ∀ t ∈ ts, t.permission.admits = false)
      (status : resp.status = .serviceUnavailable) : ChainOutcome clients ts (.ok resp)
  | fallback {model : String} (unended : ∀ t ∈ ts, t.ends = false)
      (asked : ∃ t ∈ ts, t.permission.admits = true)
      (configured : clients.findSome? (·.fallback) = some model) :
      ChainOutcome clients ts (.error (some model))
  | passed {answer resp : Response} (unended : ∀ t ∈ ts, t.ends = false)
      (unconfigured : ∀ client ∈ clients, client.fallback = none)
      (last : (ts.filterMap Turn.response).getLast? = some answer)
      (unsuccessful : answer.status.isSuccess = false) (status : resp.status = answer.status)
      (body : resp.body = answer.body) : ChainOutcome clients ts (.ok resp)
  | failed (asked : ∃ t ∈ ts, t.permission.admits = true)
      (unconfigured : ∀ client ∈ clients, client.fallback = none)
      (errors : ∀ t ∈ ts, t.permission.admits = true → ∃ e, t.result = some (.error e)) :
      ChainOutcome clients ts (.error none)

/-- The clients have their turns in order; up to the first answer that ends the chain those that
the breaker admits are called. -/
structure ChainLaw (clients : List ClientConfig) (ts : List Turn)
    (run : Except (Option String) Response × ChainState) : Prop where
  order : ts.map Turn.client = clients
  once : (run.2.attempts.map Attempt.client).Sublist clients
  calls : run.2.attempts.map (fun a ↦ (a.client, a.result)) = (reached ts).filterMap Turn.called
  outcome : ChainOutcome clients ts run.1
  silent : run.2.attempts = [] ↔ ∀ t ∈ ts, t.permission.admits = false

section Runs

variable (X : Externals) (modelName : String)

theorem reportOf_eq (client : ClientConfig) (result : Except AppError Response) :
    reportOf X modelName client result = breakerReport result := by
  cases result with
  | error e => rfl
  | ok resp =>
    have hok : reportOf X modelName client (.ok resp) = .failure ↔ resp.status.asU16 = 429 :=
      reportOf_ok client resp
    rw [breakerReport]
    split
    · rename_i hlimited
      exact hok.mpr hlimited
    · rename_i hlimited
      cases h : reportOf X modelName client (.ok resp) with
      | success => rfl
      | failure => exact absurd (hok.mp h) hlimited

theorem retry_iff (resp : Response) :
    shouldRetryOnClientError resp = true ↔ resp.status.asU16 ∈ [401, 403, 404, 429] := by
  rw [shouldRetryOnClientError, classifyUpstreamClientError, decide_eq_true_eq]
  split <;> simp_all

theorem account_final (client : ClientConfig) (resp : Response) :
    (isFinal resp.status = true ∧
      ∃ entry, (account X modelName client (.ok resp)).1 = some (resp.logIfNone entry)) ∨
    (isFinal resp.status = false ∧ (account X modelName client (.ok resp)).1 = none ∧
      ∃ kind entry, (account X modelName client (.ok resp)).2.2 =
        some (kind, resp.logIfNone entry)) := by
  have hretry : (!shouldRetryOnClientError resp) =
      decide (resp.status.asU16 ∉ [401, 403, 404, 429]) := by
    rw [Bool.eq_iff_iff, Bool.not_eq_true', decide_eq_true_eq, Bool.eq_false_iff, ne_eq, retry_iff]
  have hfinal : isFinal resp.status = (resp.status.isSuccess ||
      (resp.status.isClientError &&
        !(resp.status.isClientError && shouldRetryOnClientError resp))) := by
    rw [isFinal, ← hretry]
    cases resp.status.isClientError <;> rfl
  rw [account, ← hfinal]
  dsimp only
  split
  · rename_i h
    exact .inl ⟨h, _, rfl⟩
  · rename_i h
    exact .inr ⟨Bool.eq_false_iff.mpr h, rfl, _, _, rfl⟩

structure Same (answer resp : Response) : Prop where
  status : resp.status = answer.status
  body : resp.body = answer.body

theorem same_logIfNone (entry : AccessLogMeta) (resp : Response) :
    Same resp (resp.logIfNone entry) := ⟨rfl, rfl⟩

structure TurnDone (t : Turn) (s : ChainState) (run : Option Response × ChainState) : Prop where
  attempts : run.2.attempts.map (fun a ↦ (a.client, a.result)) =
    s.attempts.map (fun a ↦ (a.client, a.result)) ++ t.called.toList
  ended : t.ends = true → ∃ answer resp, t.response = some answer ∧ run.1 = some resp ∧
    Same answer resp
  unended : t.ends = false → run.1 = none
  unanswered : t.response = none → run.2.lastClientError = s.lastClientError
  answered : ∀ answer, t.response = some answer → t.ends = false →
    ∃ kind resp, run.2.lastClientError = some (kind, resp) ∧ Same answer resp

theorem turnDone_called (t : Turn) (a : Attempt) (s : ChainState)
    (hclient : a.client = t.client) (hresult : t.result = some a.result) :
    TurnDone t s ((account X modelName t.client a.result).1,
      { s.attempted a with
        lastClientError := (account X modelName t.client a.result).2.2.or s.lastClientError }) := by
  have hcalled : t.called = some (a.client, a.result) := by rw [Turn.called, hresult, hclient]; rfl
  have hattempts : (s.attempted a).attempts.map (fun a ↦ (a.client, a.result)) =
      s.attempts.map (fun a ↦ (a.client, a.result)) ++ t.called.toList := by
    rw [hcalled]
    exact List.map_append
  have hresponse : t.response = a.result.toOption := by rw [Turn.response, hresult]; rfl
  cases h : a.result with
  | error e =>
    rw [h] at hresponse
    refine ⟨hattempts, fun hends ↦ ?_, fun _ ↦ rfl, fun _ ↦ rfl, fun answer hanswer ↦ ?_⟩
    · rw [Turn.ends, hresponse] at hends
      cases hends
    · rw [hresponse] at hanswer
      cases hanswer
  | ok answer =>
    rw [h] at hresponse
    have hends : t.ends = isFinal answer.status := by rw [Turn.ends, hresponse]; rfl
    have hfinal := account_final X modelName t.client answer
    rw [← hends] at hfinal
    refine ⟨hattempts, fun hend ↦ ?_, fun hend ↦ ?_, fun hnone ↦ ?_, fun answer' hanswer hend ↦ ?_⟩
    · rcases hfinal with ⟨_, entry, hdone⟩ | ⟨hnot, _⟩
      · exact ⟨answer, _, hresponse, hdone, same_logIfNone entry answer⟩
      · rw [hend] at hnot
        cases hnot
    · rcases hfinal with ⟨hnot, _⟩ | ⟨_, hdone, _⟩
      · rw [hend] at hnot
        cases hnot
      · exact hdone
    · rw [hresponse] at hnone
      cases hnone
    · rw [hresponse] at hanswer
      cases hanswer
      rcases hfinal with ⟨hnot, _⟩ | ⟨_, _, kind, entry, herr⟩
      · rw [hend] at hnot
        cases hnot
      · exact ⟨kind, _, by rw [herr]; rfl, same_logIfNone entry answer⟩

theorem attemptClient_turn (e : Encounter) (client : ClientConfig) (s : ChainState) :
    (attemptClient X modelName e client s).2.registry =
        (turn modelName e client s.registry).2 ∧
      TurnDone (turn modelName e client s.registry).1 s (attemptClient X modelName e client s) := by
  have hstep : attemptClient X modelName e client s =
      if (allow e.allowAt client (e.before s.registry)).1.admits = true then
        ((account X modelName client (e.answer client modelName)).1,
          { s.attempted ⟨client, e.answer client modelName,
              e.during (allow e.allowAt client (e.before s.registry)).2, e.recordAt,
              reportOf X modelName client (e.answer client modelName)⟩ with
            lastClientError := (account X modelName client (e.answer client modelName)).2.2.or
              s.lastClientError })
      else (none, { s with registry := (allow e.allowAt client (e.before s.registry)).2 }) := rfl
  rw [hstep, turn]
  by_cases hadmits : (allow e.allowAt client (e.before s.registry)).1.admits = true
  · rw [dif_pos hadmits, if_pos hadmits]
    refine ⟨?_, turnDone_called X modelName ⟨client, _, some _, hadmits.symm⟩ ⟨client, _, _, _, _⟩
      s rfl rfl⟩
    rw [← reportOf_eq X modelName client]
    rfl
  · rw [dif_neg hadmits, if_neg hadmits]
    refine ⟨rfl, (List.append_nil _).symm, fun h ↦ ?_, fun _ ↦ rfl, fun _ ↦ rfl, fun _ h ↦ ?_⟩
    · cases h
    · cases h

/-- What a run of the loop leaves, by the turns of its clients. -/
structure TurnsDone (ts : List Turn) (s : ChainState) (run : Option Response × ChainState) :
    Prop where
  attempts : run.2.attempts.map (fun a ↦ (a.client, a.result)) =
    s.attempts.map (fun a ↦ (a.client, a.result)) ++ (reached ts).filterMap Turn.called
  ended : ∀ t, ts.find? Turn.ends = some t → ∃ answer resp, t.response = some answer ∧
    run.1 = some resp ∧ Same answer resp
  unended : ts.find? Turn.ends = none → run.1 = none
  unanswered : ts.filterMap Turn.response = [] → run.2.lastClientError = s.lastClientError
  answered : ∀ answer, (ts.filterMap Turn.response).getLast? = some answer →
    ts.find? Turn.ends = none →
      ∃ kind resp, run.2.lastClientError = some (kind, resp) ∧ Same answer resp

theorem filterMap_called_cons (t : Turn) (ts : List Turn) :
    (t :: ts).filterMap Turn.called = t.called.toList ++ ts.filterMap Turn.called := by
  cases h : t.called with
  | none => rw [List.filterMap_cons_none h]; rfl
  | some c => rw [List.filterMap_cons_some h]; rfl

theorem TurnsDone.stop {t : Turn} {s : ChainState} {run : Option Response × ChainState}
    (h : TurnDone t s run) (hends : t.ends = true) (ts : List Turn) :
    TurnsDone (t :: ts) s run := by
  have hfirst : (t :: ts).find? Turn.ends = some t := List.find?_cons_of_pos hends
  obtain ⟨answer, resp, hanswer, hrun, hsame⟩ := h.ended hends
  refine ⟨?_, fun t' ht' ↦ ?_, fun hnone ↦ ?_, fun hnil ↦ ?_, fun _ _ hnone ↦ ?_⟩
  · rw [reached, if_pos hends, filterMap_called_cons, List.filterMap_nil, List.append_nil]
    exact h.attempts
  · rw [hfirst] at ht'
    cases ht'
    exact ⟨answer, resp, hanswer, hrun, hsame⟩
  · rw [hfirst] at hnone
    cases hnone
  · rw [List.filterMap_cons_some hanswer] at hnil
    cases hnil
  · rw [hfirst] at hnone
    cases hnone

theorem TurnsDone.cons {t : Turn} {s : ChainState} {run : Option Response × ChainState}
    (h : TurnDone t s run) (hends : t.ends = false) {ts : List Turn}
    {run' : Option Response × ChainState} (hrest : TurnsDone ts run.2 run') :
    TurnsDone (t :: ts) s run' := by
  have hfirst : (t :: ts).find? Turn.ends = ts.find? Turn.ends :=
    List.find?_cons_of_neg (Bool.eq_false_iff.mp hends)
  refine ⟨?_, fun t' ht' ↦ ?_, fun hnone ↦ ?_, fun hnil ↦ ?_, fun answer hlast hnone ↦ ?_⟩
  · rw [reached, hends, if_neg Bool.false_ne_true, filterMap_called_cons, hrest.attempts,
      h.attempts, List.append_assoc]
  · exact hrest.ended t' (hfirst ▸ ht')
  · exact hrest.unended (hfirst ▸ hnone)
  · rw [List.filterMap_eq_nil_iff, List.forall_mem_cons] at hnil
    rw [hrest.unanswered (List.filterMap_eq_nil_iff.mpr hnil.2), h.unanswered hnil.1]
  · cases hresponse : t.response with
    | none =>
      rw [List.filterMap_cons_none hresponse] at hlast
      exact hrest.answered answer hlast (hfirst ▸ hnone)
    | some first =>
      rw [List.filterMap_cons_some hresponse] at hlast
      cases hlater : (ts.filterMap Turn.response).getLast? with
      | none =>
        have hnil := List.getLast?_eq_none_iff.mp hlater
        rw [hnil] at hlast
        cases hlast
        obtain ⟨kind, resp, herr, hsame⟩ := h.answered _ hresponse hends
        exact ⟨kind, resp, (hrest.unanswered hnil).trans herr, hsame⟩
      | some later =>
        rw [List.getLast?_cons, hlater] at hlast
        cases hlast
        exact hrest.answered _ hlater (hfirst ▸ hnone)

theorem attemptClients_turns (clients : List ClientConfig) (encounters : ℕ → Encounter)
    (s : ChainState) :
    TurnsDone (turns modelName encounters clients s.registry) s
      (attemptClients X modelName encounters clients s) := by
  induction clients generalizing encounters s with
  | nil =>
    refine ⟨(List.append_nil _).symm, fun t ht ↦ ?_, fun _ ↦ rfl, fun _ ↦ rfl, fun _ h ↦ ?_⟩
    · cases ht
    · cases h
  | cons client clients ih =>
    obtain ⟨hregistry, hturn⟩ := attemptClient_turn X modelName (encounters 0) client s
    rw [turns, attemptClients]
    cases hends : (turn modelName (encounters 0) client s.registry).1.ends with
    | true =>
      obtain ⟨_, resp, _, hdone, _⟩ := hturn.ended hends
      cases hrun : attemptClient X modelName (encounters 0) client s with
      | mk done s' =>
        rw [hrun] at hdone hturn
        subst hdone
        exact TurnsDone.stop hturn hends _
    | false =>
      have hdone := hturn.unended hends
      cases hrun : attemptClient X modelName (encounters 0) client s with
      | mk done s' =>
        rw [hrun] at hdone hturn hregistry
        subst hdone
        rw [← hregistry]
        exact TurnsDone.cons hturn hends (ih _ s')

end Runs

section Law

variable (X : Externals) (modelName : String)

theorem turns_client (clients : List ClientConfig) (encounters : ℕ → Encounter)
    (registry : RegistryState) :
    (turns modelName encounters clients registry).map Turn.client = clients := by
  induction clients generalizing encounters registry with
  | nil => rfl
  | cons client clients ih =>
    rw [turns, List.map_cons, ih, turn]
    split <;> rfl

theorem reached_sublist (ts : List Turn) : (reached ts).Sublist ts := by
  induction ts with
  | nil => exact List.Sublist.refl []
  | cons t ts ih =>
    rw [reached]
    split
    · exact (List.nil_sublist ts).cons_cons t
    · exact ih.cons_cons t

theorem called_clients_sublist (ts : List Turn) :
    ((ts.filterMap Turn.called).map Prod.fst).Sublist (ts.map Turn.client) := by
  induction ts with
  | nil => exact List.Sublist.refl []
  | cons t ts ih =>
    rw [filterMap_called_cons, List.map_append, List.map_cons]
    cases h : t.result with
    | none =>
      have hcalled : t.called = none := by rw [Turn.called, h]; rfl
      rw [hcalled]
      exact ih.cons t.client
    | some result =>
      have hcalled : t.called = some (t.client, result) := by rw [Turn.called, h]; rfl
      rw [hcalled]
      exact ih.cons_cons t.client

theorem called_eq_none (t : Turn) : t.called = none ↔ t.permission.admits = false := by
  rw [← t.asked, Turn.called, Option.map_eq_none_iff, Option.isSome_eq_false_iff,
    Option.isNone_iff_eq_none]

theorem reached_called_eq_nil (ts : List Turn) :
    (reached ts).filterMap Turn.called = [] ↔ ∀ t ∈ ts, t.permission.admits = false := by
  induction ts with
  | nil => simp [reached]
  | cons t ts ih =>
    rw [reached, List.forall_mem_cons]
    split
    · rename_i hends
      have hadmits : t.permission.admits = true := by
        rw [← t.asked]
        cases h : t.result with
        | none => rw [Turn.ends, Turn.response, h] at hends; cases hends
        | some result => rfl
      rw [List.filterMap_eq_nil_iff]
      simp [called_eq_none, hadmits]
    · rw [← ih, filterMap_called_cons, List.append_eq_nil_iff, ← called_eq_none]
      simp

theorem chain_outcome (encounters : ℕ → Encounter) (clients : List ClientConfig)
    (registry : RegistryState) (tried : List String) {ts : List Turn} {s : ChainState}
    {done : Option Response}
    (hattempts : attemptClients X modelName encounters clients ⟨registry, tried, none, []⟩ =
      (done, s))
    (hrun : TurnsDone ts ⟨registry, tried, none, []⟩ (done, s))
    (hsilent : s.attempts = [] ↔ ∀ t ∈ ts, t.permission.admits = false) :
    ChainOutcome clients ts
      (executeClientChainWithRegistry X modelName encounters clients registry tried).1 := by
  rw [executeClientChainWithRegistry, hattempts]
  cases hfirst : ts.find? Turn.ends with
  | some t =>
    obtain ⟨answer, resp, hanswer, hdone, hsame⟩ := hrun.ended t hfirst
    cases hdone
    exact .stopped hfirst hanswer hsame.status hsame.body
  | none =>
    cases hrun.unended hfirst
    have hunended (t : Turn) (ht : t ∈ ts) : t.ends = false :=
      Bool.eq_false_iff.mpr (List.find?_eq_none.mp hfirst t ht)
    dsimp only
    by_cases hnil : s.attempts = []
    · rw [if_pos hnil]
      exact .coolingDown (hsilent.mp hnil) rfl
    have hasked : ∃ t ∈ ts, t.permission.admits = true := by
      rw [hsilent] at hnil
      push Not at hnil
      exact hnil.imp fun t ht ↦ ⟨ht.1, Bool.eq_true_of_not_eq_false ht.2⟩
    rw [if_neg hnil]
    cases hfallback : selectFallbackModel clients with
    | some model => exact .fallback hunended hasked hfallback
    | none =>
      have hunconfigured := List.findSome?_eq_none_iff.mp hfallback
      cases hlast : (ts.filterMap Turn.response).getLast? with
      | some answer =>
        obtain ⟨kind, resp, herr, hsame⟩ := hrun.answered answer hlast hfirst
        rw [herr]
        obtain ⟨t, ht, hresponse⟩ := List.mem_filterMap.mp (List.mem_of_getLast? hlast)
        have hfails : answer.status.isSuccess = false := by
          have hends := hunended t ht
          rw [Turn.ends, hresponse, Option.any_some, isFinal, Bool.or_eq_false_iff] at hends
          exact hends.1
        exact .passed hunended hunconfigured hlast hfails hsame.status hsame.body
      | none =>
        have hnone := List.getLast?_eq_none_iff.mp hlast
        rw [hrun.unanswered hnone]
        refine .failed hasked hunconfigured fun t ht hadmits ↦ ?_
        have hresponse := List.filterMap_eq_nil_iff.mp hnone t ht
        rw [← t.asked] at hadmits
        obtain ⟨result, hresult⟩ := Option.isSome_iff_exists.mp hadmits
        rw [Turn.response, hresult, Option.bind_some] at hresponse
        cases result with
        | error e => exact ⟨e, hresult⟩
        | ok resp => cases hresponse

theorem chain_law (encounters : ℕ → Encounter) (clients : List ClientConfig)
    (registry : RegistryState) (tried : List String) :
    ChainLaw clients (turns modelName encounters clients registry)
      (executeClientChainWithRegistry X modelName encounters clients registry tried) := by
  have hrun := attemptClients_turns X modelName clients encounters ⟨registry, tried, none, []⟩
  have hstate := chain_attempts X modelName encounters clients registry tried
  have hcalls := hrun.attempts
  rw [List.map_nil, List.nil_append, ← hstate] at hcalls
  have horder := turns_client modelName clients encounters registry
  have hsilent : (executeClientChainWithRegistry X modelName encounters clients registry
      tried).2.attempts = [] ↔
        ∀ t ∈ turns modelName encounters clients registry, t.permission.admits = false := by
    rw [← reached_called_eq_nil, ← hcalls, List.map_eq_nil_iff]
  refine ⟨horder, ?_, hcalls, ?_, hsilent⟩
  · have hclients := called_clients_sublist (reached (turns modelName encounters clients registry))
    rw [← hcalls, List.map_map] at hclients
    have hreached := (reached_sublist (turns modelName encounters clients registry)).map Turn.client
    rw [horder] at hreached
    exact hclients.trans hreached
  · rw [hstate] at hsilent
    exact chain_outcome X modelName encounters clients registry tried rfl hrun hsilent

end Law

end QueQiao.Dispatcher
