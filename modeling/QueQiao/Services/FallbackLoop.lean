import QueQiao.Lib.Reachability
import QueQiao.Services.Dispatcher

namespace QueQiao.Dispatcher

open CircuitBreaker Lib.Reachability Routing

section Returns

variable (X : Externals) (config : Config) (routingKeys : Option (List (String × ℕ)))
  (endpoint : Option String)

/-- Routing of `model` can put first a client list whose fallback is `model'`. -/
def FallbackEdge (model model' : String) : Prop :=
  ∃ visit, selectFallbackModel (orderedClients X config routingKeys endpoint visit model) =
    some model'

def fallbackModels : Set String := {m | ∃ c ∈ config.openaiClients, c.fallback = some m}

theorem fallbackModels_finite : (fallbackModels config).Finite := by
  refine (config.openaiClients.filterMap (·.fallback)).finite_toSet.subset fun m hm ↦ ?_
  obtain ⟨c, hc, hfallback⟩ := hm
  exact List.mem_filterMap.mpr ⟨c, hc, hfallback⟩

variable {config}

theorem mem_orderedClients {visit : Visit} {model : String} {c : ClientConfig}
    (h : c ∈ orderedClients X config routingKeys endpoint visit model) :
    c ∈ config.openaiClients := by
  have hmatch := (selectClients_perm _ _ _ _ _ _).mem_iff.mp h
  exact List.mem_of_mem_filter hmatch

theorem FallbackEdge.mem {m m' : String} (h : FallbackEdge X config routingKeys endpoint m m') :
    m' ∈ fallbackModels config := by
  obtain ⟨visit, hvisit⟩ := h
  obtain ⟨c, hc, hfallback⟩ := List.exists_of_findSome?_eq_some hvisit
  exact ⟨c, mem_orderedClients X routingKeys endpoint hc, hfallback⟩

variable {X routingKeys endpoint}

theorem chain_error_some {modelName m : String} {encounters : ℕ → Encounter}
    {clients : List ClientConfig} {registry : RegistryState} {tried : List String}
    (h : (executeClientChainWithRegistry X modelName encounters clients registry tried).1 =
      .error (some m)) : selectFallbackModel clients = some m := by
  rw [executeClientChainWithRegistry] at h
  split at h
  · cases h
  split at h
  · cases h
  split at h
  · rename_i fallbackModel hfallback
    cases h
    exact hfallback
  · split at h <;> cases h

theorem fallbackEdge_of_switch {visit : Visit} {model model' : String} {s s' : ExecState}
    (h : executeRound X config routingKeys endpoint visit model s = (.switch model', s')) :
    FallbackEdge X config routingKeys endpoint model model' := by
  refine ⟨visit, ?_⟩
  rw [executeRound, resolveClients] at h
  split at h
  · cases h
  · rename_i clients hclients
    split at hclients
    · cases hclients
    cases hclients
    generalize hchain : executeClientChainWithRegistry X model visit.encounters
      (orderedClients X config routingKeys endpoint visit model) s.registry s.triedClients = r at h
    obtain ⟨result, chain⟩ := r
    dsimp only at h
    split at h
    · cases h
    · cases h
      exact chain_error_some (congrArg Prod.fst hchain)
    · cases h

theorem executeLoop_returns {model : String}
    (h : Acc (fun m' m ↦ FallbackEdge X config routingKeys endpoint m m') model)
    (visits : ℕ → Visit) (s : ExecState) :
    ∃ fuel out, executeLoop X config routingKeys endpoint fuel visits model s = some out := by
  induction h generalizing visits s with
  | intro model _ ih =>
    cases hround : executeRound X config routingKeys endpoint (visits 0) model s with
    | mk round s' =>
      cases round with
      | finish resp => exact ⟨1, (resp, s'), by simp [executeLoop, hround]⟩
      | switch model' =>
        obtain ⟨fuel, out, hout⟩ :=
          ih model' (fallbackEdge_of_switch hround) (fun k ↦ visits (k + 1)) s'
        exact ⟨fuel + 1, out, by simpa [executeLoop, hround] using hout⟩

def NeverOpened (registry : RegistryState) : Prop :=
  ∀ name backend, registry.backends name = some backend → backend.openedAt = none

theorem NeverOpened.insert {registry : RegistryState} (h : NeverOpened registry) (name : String)
    {backend : BackendState} (hb : backend.openedAt = none) :
    NeverOpened (registry.insert name backend) := by
  intro n b hn
  by_cases hname : n = name
  · subst hname
    rw [insert_backends_self] at hn
    exact Option.some.inj hn ▸ hb
  · rw [insert_backends_ne _ hname] at hn
    exact h n b hn

theorem NeverOpened.entry {registry : RegistryState} (h : NeverOpened registry)
    (client : ClientConfig) : (registry.entry client).openedAt = none := by
  rw [RegistryState.entry]
  cases hb : registry.backends client.name with
  | none => rfl
  | some backend => exact h _ _ hb

theorem NeverOpened.allow {registry : RegistryState} (h : NeverOpened registry) (now : Instant)
    (client : ClientConfig) :
    (allow now client registry).1 = .allowed ∧ NeverOpened (allow now client registry).2 := by
  rw [CircuitBreaker.allow]
  split
  · exact ⟨rfl, h⟩
  dsimp only
  split
  · exact ⟨rfl, h.insert _ rfl⟩
  · rw [h.entry client]
    exact ⟨rfl, h.insert _ (h.entry client)⟩

theorem NeverOpened.recordSuccess {registry : RegistryState} (h : NeverOpened registry)
    (client : ClientConfig) : NeverOpened (recordSuccess client registry) := by
  rw [CircuitBreaker.recordSuccess]
  split
  · exact h
  dsimp only
  split <;> exact h.insert _ rfl

def unauthorizedEncounter : Encounter where
  allowAt := 0
  answer := fun _ _ ↦ .ok { status := .unauthorized, body := .json .null }
  recordAt := 0

theorem attemptClient_unauthorized (modelName : String) (client : ClientConfig) {s : ChainState}
    (h : NeverOpened s.registry) :
    ∃ s', attemptClient X modelName unauthorizedEncounter client s = (none, s') ∧
      s'.attempts ≠ [] ∧ NeverOpened s'.registry := by
  obtain ⟨hallowed, hregistry⟩ := h.allow 0 client
  have hrun : (attemptClient X modelName unauthorizedEncounter client s).1 = none ∧
      (attemptClient X modelName unauthorizedEncounter client s).2.attempts ≠ [] ∧
      (attemptClient X modelName unauthorizedEncounter client s).2.registry =
        recordSuccess client (allow 0 client s.registry).2 := by
    simp only [attemptClient, unauthorizedEncounter, id_eq, hallowed, AttemptPermission.admits]
    exact ⟨rfl, by simp [ChainState.attempted], rfl⟩
  exact ⟨_, Prod.ext hrun.1 rfl, hrun.2.1, hrun.2.2 ▸ hregistry.recordSuccess client⟩

theorem attemptClients_unauthorized (modelName : String) (clients : List ClientConfig)
    {s : ChainState} (h : NeverOpened s.registry) (hne : clients ≠ [] ∨ s.attempts ≠ []) :
    ∃ s', attemptClients X modelName (fun _ ↦ unauthorizedEncounter) clients s = (none, s') ∧
      s'.attempts ≠ [] ∧ NeverOpened s'.registry := by
  induction clients generalizing s with
  | nil => exact ⟨s, rfl, hne.resolve_left (not_not.mpr rfl), h⟩
  | cons client clients ih =>
    obtain ⟨s', hs', hattempts, hregistry⟩ :=
      attemptClient_unauthorized (X := X) modelName client h
    obtain ⟨s'', hs'', hrest⟩ := ih hregistry (.inr hattempts)
    exact ⟨s'', by simpa only [attemptClients, hs'] using hs'', hrest⟩

theorem executeRound_unauthorized {visit : Visit} {model model' : String} {s : ExecState}
    (h : NeverOpened s.registry)
    (hedge : selectFallbackModel (orderedClients X config routingKeys endpoint visit model) =
      some model') :
    ∃ s', executeRound X config routingKeys endpoint
        { visit with encounters := fun _ ↦ unauthorizedEncounter } model s = (.switch model', s') ∧
      NeverOpened s'.registry := by
  have hne : orderedClients X config routingKeys endpoint visit model ≠ [] := by
    intro hnil
    rw [hnil] at hedge
    cases hedge
  obtain ⟨chain, hchain, hattempts, hregistry⟩ := attemptClients_unauthorized (X := X)
    model _ (s := ⟨s.registry, s.triedClients, none, []⟩) h (.inl hne)
  have hresult : executeClientChainWithRegistry X model (fun _ ↦ unauthorizedEncounter)
      (orderedClients X config routingKeys endpoint visit model) s.registry s.triedClients =
        (.error (some model'), chain) := by
    simp [executeClientChainWithRegistry, hchain, hattempts, hedge]
  refine ⟨⟨chain.registry, chain.triedClients, s.attempts ++ chain.attempts⟩, ?_, hregistry⟩
  have hclients : resolveClients X config routingKeys endpoint
      { visit with encounters := fun _ ↦ unauthorizedEncounter } model =
        .ok (orderedClients X config routingKeys endpoint visit model) := if_neg hne
  simp only [executeRound, hclients, hresult]

theorem executeLoop_eq_none (models : ℕ → String) {visits : ℕ → Visit}
    (hedge : ∀ k, selectFallbackModel
      (orderedClients X config routingKeys endpoint (visits k) (models k)) = some (models (k + 1)))
    (fuel : ℕ) {s : ExecState} (h : NeverOpened s.registry) :
    executeLoop X config routingKeys endpoint fuel
      (fun k ↦ { visits k with encounters := fun _ ↦ unauthorizedEncounter }) (models 0) s =
        none := by
  induction fuel generalizing models visits s with
  | zero => rfl
  | succ fuel ih =>
    obtain ⟨s', hround, hregistry⟩ := executeRound_unauthorized h (hedge 0)
    rw [executeLoop, hround]
    exact ih (fun k ↦ models (k + 1)) (fun k ↦ hedge (k + 1)) hregistry

theorem neverOpened_configure_new (config : HealthCheckConfig) :
    NeverOpened (configure config (.new config)) := by
  intro name backend hb
  cases hb

/-- `execute` returns, whatever the upstreams do and whatever state the breakers are in,
exactly when the fallbacks lead from the initial model to no cycle. -/
theorem execute_returns_iff (X : Externals) (config : Config)
    (routingKeys : Option (List (String × ℕ))) (endpoint : Option String) (initialModel : String) :
    (∀ visits registry, ∃ fuel out,
      execute X config routingKeys endpoint fuel visits initialModel registry = some out) ↔
      ¬ReachesCycle (FallbackEdge X config routingKeys endpoint) initialModel := by
  constructor
  · intro hreturns hcycle
    obtain ⟨models, hstart, hpath⟩ := hcycle.exists_path
    choose visits hvisits using hpath
    obtain ⟨fuel, out, hout⟩ := hreturns
      (fun k ↦ { visits k with encounters := fun _ ↦ unauthorizedEncounter })
      (.new config.healthCheck)
    have hnone := executeLoop_eq_none models hvisits fuel
      (s := ⟨configure config.healthCheck (.new config.healthCheck), [], []⟩)
      (neverOpened_configure_new _)
    rw [execute, ← hstart, hnone] at hout
    cases hout
  · intro hacyclic visits registry
    have hacc := acc_of_not_reachesCycle (fallbackModels_finite config)
      (fun _ _ h ↦ FallbackEdge.mem X routingKeys endpoint h) hacyclic
    exact executeLoop_returns hacc visits _

end Returns

def selfFallback : Config where
  openaiClients := [{
    name := "primary"
    baseUrl := "https://primary.example.com/v1"
    modelMatch := { value := ["m"] }
    fallback := some "m" }]

def someVisit : Visit where
  keys := fun _ ↦ ⟨0, by decide⟩
  gauge := .empty
  encounters := fun _ ↦ unauthorizedEncounter

theorem execute_never_returns :
    validateConfig selfFallback = .ok () ∧
      ∀ X fuel, execute X selfFallback none none fuel (fun _ ↦ someVisit) "m"
        (.new selfFallback.healthCheck) = none := by
  refine ⟨by decide, fun X fuel ↦ ?_⟩
  have hedge : selectFallbackModel (orderedClients X selfFallback none none someVisit "m") =
      some "m" := by
    have hmatch : findMatchingClients selfFallback "m" = selfFallback.openaiClients := by decide
    have hperm := selectClients_perm X.hashScore someVisit.keys
      (findMatchingClients selfFallback "m") none selfFallback.strategy none
    rw [hmatch] at hperm
    have hone : orderedClients X selfFallback none none someVisit "m" =
        selfFallback.openaiClients := by
      rw [orderedClients, hmatch]
      exact List.perm_singleton.mp hperm
    rw [hone]
    rfl
  exact executeLoop_eq_none (fun _ ↦ "m") (fun _ ↦ hedge) fuel
    (neverOpened_configure_new _)

end QueQiao.Dispatcher
