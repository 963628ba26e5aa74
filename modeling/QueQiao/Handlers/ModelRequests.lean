import QueQiao.Handlers.EffectiveKeys
import QueQiao.Handlers.LogScan
import QueQiao.Handlers.MessageUtils
import QueQiao.Services.CacheEviction

namespace QueQiao.ModelRequests

open Lib.Transition ModelHandler ModelsCache ErrorLogScan MessageUtils

abbrev Headers := String → Option String

def nonEmpty (s : String) : Option String := if s = "" then none else some s

/-- What `Authorization` says, with or without the name of its scheme. -/
def bearerToken (value : String) : Option String :=
  let token := (stripPrefix "Bearer ".toList value.toList).or
    (stripPrefix "bearer ".toList value.toList)
  nonEmpty (trimmed ((token.map String.ofList).getD value))

def extractCredential (headers : Headers) : Option String :=
  (((headers "authorization").bind fun s ↦ nonEmpty (trimmed s)).bind bearerToken).or
    ((headers "x-api-key").bind fun s ↦ nonEmpty (trimmed s))

/-- A configuration with the `api_key` of each client, in their order. -/
structure Loaded extends Config where
  apiKeys : List (Option String)
  ttlSeconds : ℕ
  length_apiKeys : apiKeys.length = openaiClients.length

def resolveUpstreamApiKeys (config : Loaded) (credential : Option String) :
    List (Option String) :=
  config.apiKeys.map fun apiKey ↦ credential.or (apiKey.bind nonEmpty)

/-- Where a request for `/v1/models` is, or the task that refreshes for it. -/
inductive Phase
  | asked
  | missed
  | following
  | behind
  | refreshing
  | storing (value : Json)
  | failed
  | restoring (previous : Json)
  | done (result : Option Json)
  | answered (answer : StatusCode × Json)

structure Request where
  generation : ℕ
  credential : Option String
  phase : Phase

/-- A round of requests to the upstreams of which one was answered: the key for each of them, and
what they returned. -/
structure Fetch where
  generation : ℕ
  keys : List (Option String)
  results : ℕ → FetchResult

structure State (δ : Type) where
  now : ℕ := 0
  entries : List (Key δ × Entry Json) := []
  inflight : List (Key δ) := []
  requests : List Request := []
  fetches : List Fetch := []

inductive Action
  | direct (results : ℕ → FetchResult)
  | lookup
  | begin
  | previous
  | fetched (results : ℕ → FetchResult)
  | insert (first : ℕ)
  | panic
  | finish

inductive Event
  | tick (now : ℕ)
  | arrive (generation : ℕ) (headers : Headers)
  | act (i : ℕ) (action : Action)

def staleRetryTtl : ℕ := 30

section Run

variable {δ : Type} [DecidableEq δ] (sha256 : List UInt8 → δ) (salt : List UInt8)
  (loaded : ℕ → Loaded)

def Request.keys (r : Request) : List (Option String) :=
  resolveUpstreamApiKeys (loaded r.generation) r.credential

def Request.key (r : Request) : Key δ := makeKey sha256 salt r.generation (r.keys loaded)

namespace State

variable (s : State δ)

def entry (key : Key δ) : Option (Entry Json) := s.entries.lookup key

def fresh (key : Key δ) : Option Json :=
  ((s.entry key).filter fun e ↦ s.now - e.storedAt < e.ttl).map (·.value)

def moveTo (i : ℕ) (r : Request) (phase : Phase) : State δ :=
  { s with requests := s.requests.set i { r with phase := phase } }

def fetched (r : Request) (results : ℕ → FetchResult) : State δ × Option Json :=
  let aggregated := aggregateModels (loaded r.generation).openaiClients results
  if aggregated.2 then
    ({ s with fetches := ⟨r.generation, r.keys loaded, results⟩ :: s.fetches }, some aggregated.1)
  else (s, none)

/-- `first` is the place of the entry that the iteration over the map yields first. -/
def insert (r : Request) (value : Json) (ttl first : ℕ) : Option (State δ) :=
  let key := r.key sha256 salt loaded
  let call := ⟨key, value, ttl, s.now, ((s.entries[first]?).map Prod.fst).getD key⟩
  (ModelsCache.insert s.entries call).map fun entries ↦ { s with entries := entries }

end State

def answer (value : Option Json) : StatusCode × Json :=
  value.elim upstreamError fun value ↦ (.ok, value)

/-- The next step of a request, or of the task that refreshes for it. -/
def act (s : State δ) (i : ℕ) (r : Request) : Phase → Action → Option (State δ)
  | .asked, .direct results =>
    if (loaded r.generation).ttlSeconds = 0 then
      let (s, value) := s.fetched loaded r results
      some (s.moveTo i r (.answered (answer value)))
    else none
  | .asked, .lookup =>
    if (loaded r.generation).ttlSeconds = 0 then none
    else
      match s.fresh (r.key sha256 salt loaded) with
      | some value => some (s.moveTo i r (.answered (.ok, value)))
      | none => some (s.moveTo i r .missed)
  | .missed, .begin =>
    if r.key sha256 salt loaded ∈ s.inflight then some (s.moveTo i r .following)
    else
      some ({ s with inflight := r.key sha256 salt loaded :: s.inflight }.moveTo i r .refreshing)
  -- the leader has completed, or the wait for it has timed out
  | .following, .lookup =>
    match s.fresh (r.key sha256 salt loaded) with
    | some value => some (s.moveTo i r (.answered (.ok, value)))
    | none => some (s.moveTo i r .behind)
  | .behind, .previous =>
    some (s.moveTo i r
      (.answered (answer ((s.entry (r.key sha256 salt loaded)).map (·.value)))))
  | .refreshing, .fetched results =>
    let (s, value) := s.fetched loaded r results
    some (s.moveTo i r (value.elim .failed .storing))
  | .storing value, .insert first =>
    (s.insert sha256 salt loaded r value (loaded r.generation).ttlSeconds first).map
      (·.moveTo i r (.done (some value)))
  | .failed, .previous =>
    some (s.moveTo i r
      (((s.entry (r.key sha256 salt loaded)).map (·.value)).elim (.done none) .restoring))
  | .restoring previous, .insert first =>
    (s.insert sha256 salt loaded r previous staleRetryTtl first).map
      (·.moveTo i r (.done (some previous)))
  | .refreshing, .panic | .storing _, .panic | .failed, .panic | .restoring _, .panic =>
    some (s.moveTo i r (.done none))
  -- the guard is dropped, and the request hears of the end of the task
  | .done result, .finish =>
    some ({ s with
      inflight := s.inflight.filter (· ≠ r.key sha256 salt loaded) }.moveTo i r
        (.answered (answer result)))
  | _, _ => none

def step (s : State δ) : Event → Option (State δ)
  | .tick now => some { s with now := now }
  | .arrive generation headers =>
    some { s with requests := s.requests ++ [⟨generation, extractCredential headers, .asked⟩] }
  | .act i action => s.requests[i]?.bind fun r ↦ act sha256 salt loaded s i r r.phase action

/-- A list that was fetched for a key of the cache. -/
def Fetched (s : State δ) (key : Key δ) (value : Json) : Prop :=
  ∃ f ∈ s.fetches, makeKey sha256 salt f.generation f.keys = key ∧
    aggregateModels (loaded f.generation).openaiClients f.results = (value, true)

def Phase.value : Phase → Option Json
  | .storing value | .restoring value => some value
  | .done result => result
  | .answered (status, value) => if status = .ok then some value else none
  | _ => none

def Request.caller (r : Request) : ℕ × Option String := (r.generation, r.credential)

/-- Every list comes from upstreams that were asked with the keys of a caller, and is only where the
key of the cache is that of these keys. -/
structure Sourced (s : State δ) : Prop where
  entries : ∀ key e, (key, e) ∈ s.entries → Fetched sha256 salt loaded s key e.value
  requests : ∀ r ∈ s.requests, ∀ value, r.phase.value = some value →
    Fetched sha256 salt loaded s (r.key sha256 salt loaded) value
  fetches : ∀ f ∈ s.fetches, ∃ credential,
    (f.generation, credential) ∈ s.requests.map Request.caller ∧
      f.keys = resolveUpstreamApiKeys (loaded f.generation) credential

variable {sha256 salt loaded} {s t : State δ} {i : ℕ} {r : Request} {value : Json}

omit [DecidableEq δ] in
theorem Fetched.mono {key : Key δ} (h : Fetched sha256 salt loaded s key value)
    (hsubset : s.fetches ⊆ t.fetches) : Fetched sha256 salt loaded t key value := by
  obtain ⟨f, hf, hkey, hvalue⟩ := h
  exact ⟨f, hsubset hf, hkey, hvalue⟩

theorem value_answer (result : Option Json) : (Phase.answered (answer result)).value = result := by
  cases result with
  | none => rfl
  | some value => rfl

theorem value_stored (result : Option Json) :
    (result.elim Phase.failed Phase.storing).value = result := by
  cases result with
  | none => rfl
  | some value => rfl

theorem value_restored (result : Option Json) :
    (result.elim (Phase.done none) Phase.restoring).value = result := by
  cases result with
  | none => rfl
  | some value => rfl

theorem Sourced.entry (h : Sourced sha256 salt loaded s) {key : Key δ} {e : Entry Json}
    (he : s.entry key = some e) : Fetched sha256 salt loaded s key e.value := by
  obtain ⟨before, after, hentries, -⟩ := List.lookup_eq_some_iff.mp he
  refine h.entries key e ?_
  rw [hentries]
  exact List.mem_append_right _ List.mem_cons_self

theorem Sourced.fresh (h : Sourced sha256 salt loaded s) {key : Key δ}
    (hfresh : s.fresh key = some value) : Fetched sha256 salt loaded s key value := by
  obtain ⟨e, he, rfl⟩ := Option.map_eq_some_iff.mp hfresh
  exact h.entry (Option.filter_eq_some_iff.mp he).1

omit [DecidableEq δ] in
theorem Sourced.setInflight (h : Sourced sha256 salt loaded s) (inflight : List (Key δ)) :
    Sourced sha256 salt loaded { s with inflight := inflight } :=
  ⟨h.entries, h.requests, h.fetches⟩

omit [DecidableEq δ] in
theorem Sourced.moveTo (h : Sourced sha256 salt loaded s) (hr : s.requests[i]? = some r)
    {phase : Phase} (hphase : ∀ value, phase.value = some value →
      Fetched sha256 salt loaded s (r.key sha256 salt loaded) value) :
    Sourced sha256 salt loaded (s.moveTo i r phase) where
  entries := h.entries
  requests := by
    intro r' hr' value hvalue
    rcases List.mem_or_eq_of_mem_set hr' with hmem | rfl
    · exact h.requests r' hmem value hvalue
    · exact hphase value hvalue
  fetches := by
    have hcallers : (s.moveTo i r phase).requests.map Request.caller =
        s.requests.map Request.caller := by
      obtain ⟨hlt, rfl⟩ := List.getElem?_eq_some_iff.mp hr
      have hlt' : i < (s.requests.map Request.caller).length := by rwa [List.length_map]
      have hsame : Request.caller { s.requests[i] with phase := phase } =
          (s.requests.map Request.caller)[i] := by
        rw [List.getElem_map]
        rfl
      rw [State.moveTo, List.map_set, hsame, List.set_getElem_self]
    rw [hcallers]
    exact h.fetches

omit [DecidableEq δ] in
theorem Sourced.fetched (h : Sourced sha256 salt loaded s) (hr : r ∈ s.requests)
    (results : ℕ → FetchResult) :
    Sourced sha256 salt loaded (s.fetched loaded r results).1 ∧
      (s.fetched loaded r results).1.requests = s.requests ∧
      ∀ value, (s.fetched loaded r results).2 = some value →
        Fetched sha256 salt loaded (s.fetched loaded r results).1 (r.key sha256 salt loaded)
          value := by
  rw [State.fetched]
  split
  · rename_i hany
    refine ⟨⟨fun key e he ↦ (h.entries key e he).mono (List.subset_cons_self _ _),
      fun r' hr' value hvalue ↦ (h.requests r' hr' value hvalue).mono (List.subset_cons_self _ _),
      fun f hf ↦ ?_⟩, rfl, fun value hvalue ↦ ⟨_, List.mem_cons_self, rfl, ?_⟩⟩
    · rcases List.mem_cons.mp hf with rfl | hf
      · exact ⟨r.credential, List.mem_map_of_mem hr, rfl⟩
      · exact h.fetches f hf
    · rw [← Option.some.inj hvalue, ← hany]
  · exact ⟨h, rfl, nofun⟩

theorem Sourced.insert (h : Sourced sha256 salt loaded s)
    (hvalue : Fetched sha256 salt loaded s (r.key sha256 salt loaded) value) {ttl first : ℕ}
    (hs : s.insert sha256 salt loaded r value ttl first = some t) :
    Sourced sha256 salt loaded t ∧ t.requests = s.requests ∧ t.fetches = s.fetches := by
  obtain ⟨entries, hentries, rfl⟩ := Option.map_eq_some_iff.mp hs
  obtain ⟨-, rfl⟩ := insert_eq_some hentries
  refine ⟨⟨fun key e he ↦ ?_, h.requests, h.fetches⟩, rfl, rfl⟩
  rcases mem_insertEntry.mp he with heq | ⟨he, -⟩
  · obtain ⟨rfl, rfl⟩ := Prod.mk.inj heq
    exact hvalue
  · exact h.entries key e he

omit [DecidableEq δ] in
theorem Sourced.moveWithout (h : Sourced sha256 salt loaded s) (hr : s.requests[i]? = some r)
    {phase : Phase} (hnone : phase.value = none) :
    Sourced sha256 salt loaded (s.moveTo i r phase) :=
  h.moveTo hr fun value heq ↦ by cases hnone.symm.trans heq

theorem Sourced.hit (h : Sourced sha256 salt loaded s) (hr : s.requests[i]? = some r)
    (hfresh : s.fresh (r.key sha256 salt loaded) = some value) :
    Sourced sha256 salt loaded (s.moveTo i r (.answered (.ok, value))) := by
  refine h.moveTo hr fun value' heq ↦ ?_
  obtain rfl := Option.some.inj heq
  exact h.fresh hfresh

theorem Sourced.insertDone (h : Sourced sha256 salt loaded s) (hr : s.requests[i]? = some r)
    (hvalue : Fetched sha256 salt loaded s (r.key sha256 salt loaded) value) {ttl first : ℕ}
    (hs : (s.insert sha256 salt loaded r value ttl first).map
      (·.moveTo i r (.done (some value))) = some t) : Sourced sha256 salt loaded t := by
  obtain ⟨u, hu, rfl⟩ := Option.map_eq_some_iff.mp hs
  obtain ⟨hinsert, hrequests, hfetches⟩ := h.insert hvalue hu
  refine hinsert.moveTo (hrequests ▸ hr) fun value' heq ↦ ?_
  obtain rfl := Option.some.inj heq
  exact hvalue.mono (hfetches ▸ List.Subset.refl _)

omit [DecidableEq δ] in
theorem Sourced.fetchedTo (h : Sourced sha256 salt loaded s) (hr : s.requests[i]? = some r)
    (results : ℕ → FetchResult) {phase : Option Json → Phase}
    (hphase : ∀ result, (phase result).value = result) :
    Sourced sha256 salt loaded ((s.fetched loaded r results).1.moveTo i r
      (phase (s.fetched loaded r results).2)) := by
  obtain ⟨hfetched, hrequests, hvalue⟩ := h.fetched (List.mem_of_getElem? hr) results
  refine hfetched.moveTo (hrequests ▸ hr) fun value heq ↦ hvalue value ?_
  rwa [hphase] at heq

theorem Sourced.previous (h : Sourced sha256 salt loaded s) (hr : s.requests[i]? = some r)
    {phase : Option Json → Phase} (hphase : ∀ result, (phase result).value = result) :
    Sourced sha256 salt loaded (s.moveTo i r
      (phase ((s.entry (r.key sha256 salt loaded)).map (·.value)))) := by
  refine h.moveTo hr fun value heq ↦ ?_
  rw [hphase] at heq
  obtain ⟨e, he, rfl⟩ := Option.map_eq_some_iff.mp heq
  exact h.entry he

theorem Sourced.act (h : Sourced sha256 salt loaded s) (hr : s.requests[i]? = some r)
    {action : Action} (hs : act sha256 salt loaded s i r r.phase action = some t) :
    Sourced sha256 salt loaded t := by
  have hheld := h.requests r (List.mem_of_getElem? hr)
  cases hphase : r.phase with
  | asked =>
    cases action with
    | direct results =>
      rw [hphase, ModelRequests.act] at hs
      obtain ⟨-, hs⟩ := Option.ite_none_right_eq_some.mp hs
      obtain rfl := Option.some.inj hs
      exact h.fetchedTo hr results value_answer
    | lookup =>
      rw [hphase, ModelRequests.act] at hs
      obtain ⟨-, hs⟩ := Option.ite_none_left_eq_some.mp hs
      split at hs
      · rename_i value hfresh
        obtain rfl := Option.some.inj hs
        exact h.hit hr hfresh
      · obtain rfl := Option.some.inj hs
        exact h.moveWithout hr rfl
    | _ => rw [hphase] at hs; cases hs
  | missed =>
    cases action with
    | begin =>
      rw [hphase, ModelRequests.act] at hs
      split at hs
      · obtain rfl := Option.some.inj hs
        exact h.moveWithout hr rfl
      · obtain rfl := Option.some.inj hs
        have hset := h.setInflight (r.key sha256 salt loaded :: s.inflight)
        exact hset.moveWithout hr rfl
    | _ => rw [hphase] at hs; cases hs
  | following =>
    cases action with
    | lookup =>
      rw [hphase, ModelRequests.act] at hs
      split at hs
      · rename_i value hfresh
        obtain rfl := Option.some.inj hs
        exact h.hit hr hfresh
      · obtain rfl := Option.some.inj hs
        exact h.moveWithout hr rfl
    | _ => rw [hphase] at hs; cases hs
  | behind =>
    cases action with
    | previous =>
      rw [hphase] at hs
      obtain rfl := Option.some.inj hs
      exact h.previous hr value_answer
    | _ => rw [hphase] at hs; cases hs
  | refreshing =>
    cases action with
    | fetched results =>
      rw [hphase] at hs
      obtain rfl := Option.some.inj hs
      exact h.fetchedTo hr results value_stored
    | panic =>
      rw [hphase] at hs
      obtain rfl := Option.some.inj hs
      exact h.moveWithout hr rfl
    | _ => rw [hphase] at hs; cases hs
  | storing value =>
    rw [hphase] at hs hheld
    cases action with
    | insert first => exact h.insertDone hr (hheld value rfl) hs
    | panic =>
      obtain rfl := Option.some.inj hs
      exact h.moveWithout hr rfl
    | _ => cases hs
  | failed =>
    cases action with
    | previous =>
      rw [hphase] at hs
      obtain rfl := Option.some.inj hs
      exact h.previous hr value_restored
    | panic =>
      rw [hphase] at hs
      obtain rfl := Option.some.inj hs
      exact h.moveWithout hr rfl
    | _ => rw [hphase] at hs; cases hs
  | restoring value =>
    rw [hphase] at hs hheld
    cases action with
    | insert first => exact h.insertDone hr (hheld value rfl) hs
    | panic =>
      obtain rfl := Option.some.inj hs
      exact h.moveWithout hr rfl
    | _ => cases hs
  | done result =>
    rw [hphase] at hheld
    cases action with
    | finish =>
      rw [hphase] at hs
      obtain rfl := Option.some.inj hs
      have hset := h.setInflight (s.inflight.filter (· ≠ r.key sha256 salt loaded))
      refine hset.moveTo hr fun value heq ↦ ?_
      rw [value_answer] at heq
      exact hheld value heq
    | _ => rw [hphase] at hs; cases hs
  | answered answer =>
    rw [hphase] at hs
    cases action <;> cases hs

theorem Sourced.step {e : Event} (h : Sourced sha256 salt loaded s)
    (hs : step sha256 salt loaded s e = some t) : Sourced sha256 salt loaded t := by
  cases e with
  | tick now =>
    obtain rfl := Option.some.inj hs
    exact ⟨h.entries, h.requests, h.fetches⟩
  | arrive generation headers =>
    obtain rfl := Option.some.inj hs
    refine ⟨h.entries, fun r hr value hvalue ↦ ?_, fun f hf ↦ ?_⟩
    · rcases List.mem_append.mp hr with hr | hr
      · exact h.requests r hr value hvalue
      · obtain rfl := List.mem_singleton.mp hr
        cases hvalue
    · obtain ⟨credential, hmem, hkeys⟩ := h.fetches f hf
      refine ⟨credential, ?_, hkeys⟩
      rw [List.map_append]
      exact List.mem_append_left _ hmem
  | act i action =>
    obtain ⟨r, hr, hs⟩ := Option.bind_eq_some_iff.mp hs
    exact h.act hr hs

theorem sourced_run {tr : List (State δ × Event)}
    (h : Path (ModelRequests.step sha256 salt loaded) {} tr t) : Sourced sha256 salt loaded t :=
  h.invariant_all ⟨nofun, nofun, nofun⟩ fun _ _ _ hs hst ↦ hs.step hst

/-- Whoever else asks, and in whatever order the refreshes, the insertions and the evictions happen,
the list that a caller gets was fetched under the configuration and with the keys of that caller,
unless two sets of keys have one fingerprint. -/
theorem listed_for_caller {tr : List (State δ × Event)}
    (h : Path (ModelRequests.step sha256 salt loaded) {} tr t)
    (hshort : ∀ r ∈ t.requests, ∀ key ∈ r.keys loaded, Short key) :
    ∀ r ∈ t.requests, ∀ list, r.phase = .answered (.ok, list) →
      ∃ f ∈ t.fetches, f.generation = r.generation ∧
        aggregateModels (loaded r.generation).openaiClients f.results = (list, true) ∧
          (f.keys = r.keys loaded ∨ Collides sha256 (salt ++ encodeEffectiveKeys f.keys)
            (salt ++ encodeEffectiveKeys (r.keys loaded))) := by
  intro r hr list hphase
  have hsourced := sourced_run h
  have hvalue : r.phase.value = some list := by
    rw [hphase]
    rfl
  obtain ⟨f, hf, hkey, hlist⟩ := hsourced.requests r hr list hvalue
  have hfetcher : ∀ key ∈ f.keys, Short key := by
    obtain ⟨credential, hmem, hkeys⟩ := hsourced.fetches f hf
    obtain ⟨r', hr', hcaller⟩ := List.mem_map.mp hmem
    obtain ⟨hgeneration, hcredential⟩ := Prod.mk.inj hcaller
    have hown := hshort r' hr'
    rwa [Request.keys, hgeneration, hcredential, ← hkeys] at hown
  obtain ⟨hgeneration, hhash⟩ := Key.mk.inj hkey
  refine ⟨f, hf, hgeneration, hgeneration ▸ hlist, ?_⟩
  by_cases hkeys : f.keys = r.keys loaded
  · exact .inl hkeys
  · refine .inr ⟨fun hsalted ↦ hkeys ?_, hhash⟩
    exact eq_of_encodeEffectiveKeys hfetcher (hshort r hr) (List.append_cancel_left hsalted)

end Run

def aliasLoaded : Loaded where
  toConfig := aliasConfig
  apiKeys := [some "shared"]
  ttlSeconds := 60
  length_apiKeys := rfl

def withHeader (name value : String) : Headers := fun header ↦
  if header = name then some value else none

/-- Two callers ask at the same time, and the upstream only takes the key of the first. After a
minute it does not answer the first either. -/
def twoCallers : List Event :=
  [.arrive 0 (withHeader "authorization" " Bearer alice"), .act 0 .lookup, .act 0 .begin,
    .arrive 0 (withHeader "x-api-key" "bob"), .act 1 .lookup, .act 1 .begin,
    .act 0 (.fetched fun _ ↦ oneModel), .act 0 (.insert 0), .act 0 .finish,
    .act 1 (.fetched fun _ ↦ .failed "status 401"), .act 1 .previous, .act 1 .finish,
    .tick 60, .arrive 0 (withHeader "authorization" "bearer alice"), .act 2 .lookup,
    .act 2 .begin, .act 2 (.fetched fun _ ↦ .failed "timed out"), .act 2 .previous,
    .act 2 (.insert 0), .act 2 .finish]

theorem listed_for_caller_twoCallers : ∃ tr t,
    Path (step id (.replicate 32 7) fun _ ↦ aliasLoaded) {} tr t ∧
      t.requests.map (fun r ↦ (r.credential, r.phase.value.map listedIds)) =
        [(some "alice", some ["fast"]), (some "bob", none), (some "alice", some ["fast"])] ∧
      ∀ r ∈ t.requests, ∀ list, r.phase = .answered (.ok, list) →
        ∃ f ∈ t.fetches, f.generation = r.generation ∧
          aggregateModels aliasLoaded.openaiClients f.results = (list, true) ∧
            (f.keys = r.keys (fun _ ↦ aliasLoaded) ∨
              Collides id (.replicate 32 7 ++ encodeEffectiveKeys f.keys)
                (.replicate 32 7 ++ encodeEffectiveKeys (r.keys fun _ ↦ aliasLoaded))) := by
  have hrun : (trace (step id (.replicate 32 7) fun _ ↦ aliasLoaded) {} twoCallers).map (fun r ↦
      (r.2.requests.map (fun r ↦ (r.credential, r.phase.value.map listedIds)),
        r.2.requests.all fun r ↦ (r.keys fun _ ↦ aliasLoaded).all fun key ↦ decide (Short key))) =
      some ([(some "alice", some ["fast"]), (some "bob", none), (some "alice", some ["fast"])],
        true) := by
    decide +kernel
  obtain ⟨⟨tr, t⟩, hr, hs⟩ := Option.map_eq_some_iff.mp hrun
  obtain ⟨hanswers, hshort⟩ := Prod.mk.inj hs
  have hpath := Path.of_trace hr
  refine ⟨tr, t, hpath, hanswers, listed_for_caller hpath fun r hr key hkey ↦ ?_⟩
  exact of_decide_eq_true (List.all_eq_true.mp (List.all_eq_true.mp hshort r hr) key hkey)

end QueQiao.ModelRequests
