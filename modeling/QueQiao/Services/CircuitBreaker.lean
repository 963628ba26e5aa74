import QueQiao.Config.Types
import QueQiao.Lib.Binary64
import Mathlib.Logic.Function.Iterate

namespace QueQiao.CircuitBreaker

open Lib (Binary64.nearest Binary64.roundEven Binary64.add Binary64.mul)

-- both in seconds
abbrev Instant := ℚ
abbrev Duration := ℚ

inductive AttemptPermission
  | allowed
  | halfOpen
  | blocked (retryAfter : Duration)
  deriving DecidableEq, Repr

def AttemptPermission.admits : AttemptPermission → Bool
  | .allowed | .halfOpen => true
  | .blocked _ => false

structure BackendState where
  baseUrl : String
  consecutiveFailures : ℕ
  openedAt : Option Instant
  backoffLevel : ℕ
  probeInFlight : Bool
  deriving DecidableEq, Repr

def BackendState.new (client : ClientConfig) : BackendState where
  baseUrl := client.baseUrl
  consecutiveFailures := 0
  openedAt := none
  backoffLevel := 0
  probeInFlight := false

/-- What `normalize_config` returns: the bounds it enforces are part of the type. -/
structure NormalizedConfig where
  enabled : Bool
  failureThreshold : ℕ
  cooldownSeconds : ℕ
  maxCooldownSeconds : ℕ
  backoffMultiplier : ℚ
  one_le_threshold : 1 ≤ failureThreshold
  cooldown_le_max : cooldownSeconds ≤ maxCooldownSeconds
  one_le_multiplier : 1 ≤ backoffMultiplier

def normalizeMultiplier : F64 → ℚ
  | .nonFinite => 1
  | .finite q => if q < 1 then 1 else q

theorem one_le_normalizeMultiplier (m : F64) : 1 ≤ normalizeMultiplier m := by
  cases m with
  | nonFinite => exact le_rfl
  | finite q =>
    by_cases h : q < 1
    · simp [normalizeMultiplier, h]
    · simpa [normalizeMultiplier, h] using not_lt.mp h

def normalizeConfig (config : HealthCheckConfig) : NormalizedConfig where
  enabled := config.enabled
  failureThreshold := max config.failureThreshold 1
  cooldownSeconds := config.cooldownSeconds
  maxCooldownSeconds := max config.maxCooldownSeconds config.cooldownSeconds
  backoffMultiplier := normalizeMultiplier config.backoffMultiplier
  one_le_threshold := le_max_right _ _
  cooldown_le_max := le_max_right _ _
  one_le_multiplier := one_le_normalizeMultiplier _

structure RegistryState where
  config : NormalizedConfig
  backends : String → Option BackendState

def RegistryState.new (config : HealthCheckConfig) : RegistryState where
  config := normalizeConfig config
  backends := fun _ ↦ none

def configure (config : HealthCheckConfig) (state : RegistryState) : RegistryState :=
  { state with config := normalizeConfig config }

def RegistryState.entry (state : RegistryState) (client : ClientConfig) : BackendState :=
  (state.backends client.name).getD (.new client)

def RegistryState.insert (state : RegistryState) (name : String) (backend : BackendState) :
    RegistryState :=
  { state with backends := fun n ↦ if n = name then some backend else state.backends n }

def asSecsF64 (d : Duration) : ℚ :=
  Binary64.add (Binary64.nearest ⌊d⌋) (Binary64.nearest (Int.fract d))

def fromSecsF64 (secs : ℚ) : Duration := Binary64.roundEven (secs * 10 ^ 9) / 10 ^ 9

def productF64 (d : Duration) (multiplier : ℚ) : ℚ := Binary64.mul multiplier (asSecsF64 d)

def NormalizedConfig.backoff (config : NormalizedConfig) (cooldown : Duration) : Duration :=
  min (fromSecsF64 (productF64 cooldown config.backoffMultiplier)) config.maxCooldownSeconds

/-- The cooldown that is waited for. `checkedCooldown` has the panics of the products. -/
def cooldownForState (config : NormalizedConfig) (backend : BackendState) : Duration :=
  config.backoff^[backend.backoffLevel] config.cooldownSeconds

def allow (now : Instant) (client : ClientConfig) (state : RegistryState) :
    AttemptPermission × RegistryState :=
  if state.config.enabled = false then (.allowed, state)
  else
    let backend := state.entry client
    if backend.baseUrl ≠ client.baseUrl then (.allowed, state.insert client.name (.new client))
    else
      match backend.openedAt with
      | none => (.allowed, state.insert client.name backend)
      | some openedAt =>
        let cooldown := cooldownForState state.config backend
        let elapsed := max (now - openedAt) 0
        if elapsed < cooldown then
          (.blocked (max (cooldown - elapsed) 0), state.insert client.name backend)
        else if backend.probeInFlight then (.blocked 0, state.insert client.name backend)
        else (.halfOpen, state.insert client.name { backend with probeInFlight := true })

def recordSuccess (client : ClientConfig) (state : RegistryState) : RegistryState :=
  if state.config.enabled = false then state
  else
    let backend := state.entry client
    if backend.baseUrl ≠ client.baseUrl then state.insert client.name (.new client)
    else state.insert client.name
      { backend with
        consecutiveFailures := 0
        openedAt := none
        backoffLevel := 0
        probeInFlight := false }

def u32SaturatingSucc (n : ℕ) : ℕ := min (n + 1) (2 ^ 32 - 1)

/-- The first half of `record_failure`: which counter a failure raises. -/
def BackendState.countFailure (backend : BackendState) : BackendState :=
  if backend.openedAt.isSome ∨ backend.probeInFlight then
    { backend with backoffLevel := u32SaturatingSucc backend.backoffLevel }
  else { backend with consecutiveFailures := u32SaturatingSucc backend.consecutiveFailures }

/-- The second half: the flag is lowered and the breaker opened, or opened anew. -/
def BackendState.open (threshold : ℕ) (now : Instant) (backend : BackendState) : BackendState :=
  let landed := { backend with probeInFlight := false }
  if landed.openedAt.isSome ∨ threshold ≤ landed.consecutiveFailures then
    { landed with openedAt := some now }
  else landed

def recordFailure (now : Instant) (client : ClientConfig) (state : RegistryState) :
    RegistryState :=
  if state.config.enabled = false then state
  else
    let entry := state.entry client
    let backend := if entry.baseUrl ≠ client.baseUrl then .new client else entry
    state.insert client.name (backend.countFailure.open state.config.failureThreshold now)

inductive RecordCall
  | success
  | failure
  deriving DecidableEq, Repr

def record (now : Instant) (client : ClientConfig) : RecordCall → RegistryState → RegistryState
  | .success => recordSuccess client
  | .failure => recordFailure now client

def RegistryState.probing (state : RegistryState) (name : String) : Bool :=
  (state.backends name).any (·.probeInFlight)

section Lemmas

variable (state : RegistryState) (client : ClientConfig) (now : Instant)

@[simp] theorem insert_backends_self (name : String) (backend : BackendState) :
    (state.insert name backend).backends name = some backend := if_pos rfl

theorem insert_backends_ne {name n : String} (h : n ≠ name) (backend : BackendState) :
    (state.insert name backend).backends n = state.backends n := if_neg h

@[simp] theorem probing_insert_self (name : String) (backend : BackendState) :
    (state.insert name backend).probing name = backend.probeInFlight := by
  simp [RegistryState.probing]

theorem probing_insert_ne {name n : String} (h : n ≠ name) (backend : BackendState) :
    (state.insert name backend).probing n = state.probing n := by
  simp [RegistryState.probing, insert_backends_ne state h]

@[simp] theorem open_probeInFlight (threshold : ℕ) (backend : BackendState) :
    (backend.open threshold now).probeInFlight = false := by
  rw [BackendState.open]
  dsimp only
  split <;> rfl

theorem entry_probeInFlight : (state.entry client).probeInFlight = state.probing client.name := by
  unfold RegistryState.entry RegistryState.probing
  cases state.backends client.name <;> rfl

/-- All that `allow` can do to the flag of its backend: raise it on a half-open permission,
when it was down; leave it; or drop it with an entry that is for another base URL. -/
theorem allow_cases :
    ((allow now client state).1 = .halfOpen ∧ state.config.enabled = true ∧
      state.probing client.name = false ∧
      (allow now client state).2.probing client.name = true) ∨
    ((allow now client state).1 ≠ .halfOpen ∧
      (allow now client state).2.probing client.name = state.probing client.name) ∨
    ((allow now client state).1 ≠ .halfOpen ∧ (state.entry client).baseUrl ≠ client.baseUrl ∧
      (allow now client state).2.probing client.name = false) := by
  have hentry := entry_probeInFlight state client
  rw [allow]
  split
  · exact .inr (.inl ⟨by simp, rfl⟩)
  rename_i henabled
  dsimp only
  split
  · rename_i hurl
    exact .inr (.inr ⟨by simp, hurl, by simp [BackendState.new]⟩)
  split
  · exact .inr (.inl ⟨by simp, by simp [hentry]⟩)
  split
  · exact .inr (.inl ⟨by simp, by simp [hentry]⟩)
  split
  · exact .inr (.inl ⟨by simp, by simp [hentry]⟩)
  · rename_i hflag
    exact .inl ⟨rfl, by simpa using henabled, by simpa [hentry] using hflag, by simp⟩

theorem allow_probing_ne {n : String} (hn : n ≠ client.name) :
    (allow now client state).2.probing n = state.probing n := by
  rw [allow]
  split
  · rfl
  dsimp only
  split
  · exact probing_insert_ne state hn _
  split
  · exact probing_insert_ne state hn _
  split
  · exact probing_insert_ne state hn _
  split <;> exact probing_insert_ne state hn _

@[simp] theorem allow_config : (allow now client state).2.config = state.config := by
  rw [allow]
  split
  · rfl
  dsimp only
  split
  · rfl
  split
  · rfl
  split
  · rfl
  split <;> rfl

theorem record_probing (call : RecordCall) (h : state.config.enabled = true) :
    (record now client call state).probing client.name = false := by
  cases call with
  | success =>
    simp only [record, recordSuccess, h, Bool.true_eq_false, ↓reduceIte]
    split <;> simp [BackendState.new]
  | failure =>
    simp [record, recordFailure, h]

theorem record_disabled (call : RecordCall) (h : state.config.enabled = false) :
    record now client call state = state := by
  cases call <;> simp [record, recordSuccess, recordFailure, h]

theorem record_probing_ne (call : RecordCall) {n : String} (hn : n ≠ client.name) :
    (record now client call state).probing n = state.probing n := by
  cases call with
  | success =>
    simp only [record, recordSuccess]
    split
    · rfl
    · split <;> exact probing_insert_ne state hn _
  | failure =>
    simp only [record, recordFailure]
    split
    · rfl
    · exact probing_insert_ne state hn _

@[simp] theorem entry_insert_self (backend : BackendState) :
    (state.insert client.name backend).entry client = backend := by
  simp [RegistryState.entry]

theorem allow_baseUrl (h : (state.entry client).baseUrl = client.baseUrl) :
    ((allow now client state).2.entry client).baseUrl = client.baseUrl := by
  rw [allow]
  split
  · exact h
  dsimp only
  split
  · simp [BackendState.new]
  split
  · simpa using h
  split
  · simpa using h
  split <;> simpa using h

@[simp] theorem countFailure_baseUrl (backend : BackendState) :
    backend.countFailure.baseUrl = backend.baseUrl := by
  rw [BackendState.countFailure]
  split <;> rfl

@[simp] theorem open_baseUrl (threshold : ℕ) (backend : BackendState) :
    (backend.open threshold now).baseUrl = backend.baseUrl := by
  rw [BackendState.open]
  dsimp only
  split <;> rfl

theorem record_baseUrl (call : RecordCall) (h : (state.entry client).baseUrl = client.baseUrl) :
    ((record now client call state).entry client).baseUrl = client.baseUrl := by
  cases henabled : state.config.enabled with
  | false => rwa [record_disabled state client now call henabled]
  | true =>
    cases call with
    | success => simp [record, recordSuccess, henabled, h]
    | failure => simp [record, recordFailure, henabled, h]

end Lemmas

end QueQiao.CircuitBreaker
