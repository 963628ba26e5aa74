import QueQiao.Services.CircuitBreaker
import QueQiao.Lib.Transition
import Mathlib.Data.List.Perm.Basic

namespace QueQiao.CircuitBreaker

open Lib.Transition

/-- A request that was admitted to a backend and has not reported yet. -/
structure Attempt where
  client : ClientConfig
  probe : Bool

structure System where
  registry : RegistryState
  now : Instant
  attempts : List Attempt

/-- What can happen next: time passes, the configuration is applied again, a request asks
for a backend, an admitted request reports, or its future is dropped. -/
inductive Event
  | tick (at_ : Instant)
  | configure (config : HealthCheckConfig)
  | allow (client : ClientConfig)
  | report (i : ℕ) (call : RecordCall)
  | cancel (i : ℕ)

def System.init (config : HealthCheckConfig) (now : Instant) : System where
  registry := .new config
  now := now
  attempts := []

def startAttempt (client : ClientConfig) (p : AttemptPermission) (attempts : List Attempt) :
    List Attempt :=
  if p.admits then ⟨client, decide (p = .halfOpen)⟩ :: attempts else attempts

def step (s : System) : Event → Option System
  | .tick t => if s.now ≤ t then some { s with now := t } else none
  | .configure config => some { s with registry := CircuitBreaker.configure config s.registry }
  | .allow client =>
    let r := CircuitBreaker.allow s.now client s.registry
    some { s with registry := r.2, attempts := startAttempt client r.1 s.attempts }
  | .report i call =>
    match s.attempts[i]? with
    | none => none
    | some a => some { s with
        registry := record s.now a.client call s.registry
        attempts := s.attempts.eraseIdx i }
  | .cancel i =>
    match s.attempts[i]? with
    | none => none
    | some _ => some { s with attempts := s.attempts.eraseIdx i }

inductive Stepped (s : System) : Event → System → Prop
  | tick {t : Instant} (hle : s.now ≤ t) : Stepped s (.tick t) { s with now := t }
  | configure (config : HealthCheckConfig) :
      Stepped s (.configure config)
        { s with registry := CircuitBreaker.configure config s.registry }
  | allow (client : ClientConfig) :
      Stepped s (.allow client) { s with
        registry := (CircuitBreaker.allow s.now client s.registry).2
        attempts :=
          startAttempt client (CircuitBreaker.allow s.now client s.registry).1 s.attempts }
  | report {i : ℕ} {a : Attempt} (call : RecordCall) (hget : s.attempts[i]? = some a) :
      Stepped s (.report i call) { s with
        registry := record s.now a.client call s.registry
        attempts := s.attempts.eraseIdx i }
  | cancel {i : ℕ} {a : Attempt} (hget : s.attempts[i]? = some a) :
      Stepped s (.cancel i) { s with attempts := s.attempts.eraseIdx i }

theorem Stepped.of_step {s t : System} {e : Event} (h : step s e = some t) : Stepped s e t := by
  cases e with
  | tick at_ =>
    simp only [step, Option.ite_none_right_eq_some, Option.some.injEq] at h
    obtain ⟨hle, rfl⟩ := h
    exact .tick hle
  | configure config =>
    obtain rfl := Option.some.inj h
    exact .configure config
  | allow client =>
    obtain rfl := Option.some.inj h
    exact .allow client
  | report i call =>
    simp only [step] at h
    split at h
    · cases h
    · rename_i a hget
      obtain rfl := Option.some.inj h
      exact .report call hget
  | cancel i =>
    simp only [step] at h
    split at h
    · cases h
    · rename_i a hget
      obtain rfl := Option.some.inj h
      exact .cancel hget

def System.probes (s : System) : ℕ := s.attempts.countP (·.probe)

theorem countP_eraseIdx {p : Attempt → Bool} {attempts : List Attempt} {i : ℕ} {a : Attempt}
    (h : attempts[i]? = some a) :
    attempts.countP p = (attempts.eraseIdx i).countP p + if p a then 1 else 0 := by
  obtain ⟨hi, rfl⟩ := List.getElem?_eq_some_iff.mp h
  rw [← (List.getElem_cons_eraseIdx_perm hi).countP_eq p, List.countP_cons]

theorem mem_eraseIdx_of_ne {attempts : List Attempt} {i : ℕ} {a b : Attempt} (hb : b ∈ attempts)
    (ha : attempts[i]? = some a) (hne : b ≠ a) : b ∈ attempts.eraseIdx i := by
  obtain ⟨hi, rfl⟩ := List.getElem?_eq_some_iff.mp ha
  have hmem := (List.getElem_cons_eraseIdx_perm hi).mem_iff.mpr hb
  exact (List.mem_cons.mp hmem).resolve_left hne

def Event.IsRequestOf (c : ClientConfig) : Event → Prop
  | .tick _ | .report _ _ => True
  | .allow client => client = c
  | .configure _ | .cancel _ => False

def StaleReport (s : System) : Event → Prop
  | .report i _ =>
    ∃ a ∈ s.attempts[i]?, a.probe = false ∧ s.registry.probing a.client.name = true
  | _ => False

instance (s : System) (e : Event) : Decidable (StaleReport s e) := by
  cases e <;> simp only [StaleReport] <;> infer_instance

/-- At most one probe is outstanding, and none is when the next one would be admitted. -/
def OneProbe (c : ClientConfig) (s : System) : Prop :=
  s.probes ≤ 1 ∧ ((allow s.now c s.registry).1 = .halfOpen → s.probes = 0)

structure ProbeInv (c : ClientConfig) (s : System) : Prop where
  clients : ∀ a ∈ s.attempts, a.client = c
  baseUrl : (s.registry.entry c).baseUrl = c.baseUrl
  enabled : s.registry.probing c.name = true → s.registry.config.enabled = true
  probes : s.probes = if s.registry.probing c.name then 1 else 0

theorem probeInv_init (config : HealthCheckConfig) (now : Instant) (c : ClientConfig) :
    ProbeInv c (.init config now) where
  clients := by simp [System.init]
  baseUrl := rfl
  enabled := by simp [System.init, RegistryState.new, RegistryState.probing]
  probes := by simp [System.init, RegistryState.new, RegistryState.probing, System.probes]

theorem probeInv_allow {c : ClientConfig} {s : System} (h : ProbeInv c s) :
    ProbeInv c { s with
      registry := (allow s.now c s.registry).2
      attempts := startAttempt c (allow s.now c s.registry).1 s.attempts } := by
  obtain ⟨hclients, hbase, henabled, hprobes⟩ := h
  have hstart : ∀ p, ∀ a ∈ startAttempt c p s.attempts, a.client = c := by
    intro p a ha
    rw [startAttempt] at ha
    split at ha
    · rcases List.mem_cons.mp ha with rfl | ha
      · rfl
      · exact hclients a ha
    · exact hclients a ha
  rcases allow_cases s.registry c s.now with ⟨hp, hen, hoff, hon⟩ | ⟨hp, hsame⟩ | ⟨_, hurl, _⟩
  · refine ⟨hstart _, allow_baseUrl _ _ _ hbase, fun _ ↦ by rwa [allow_config], ?_⟩
    have hzero : s.attempts.countP (·.probe) = 0 := by simpa [System.probes, hoff] using hprobes
    simp [System.probes, startAttempt, hp, hon, AttemptPermission.admits, hzero]
  · refine ⟨hstart _, allow_baseUrl _ _ _ hbase, fun hon ↦ ?_, ?_⟩
    · rw [allow_config]
      exact henabled (hsame ▸ hon)
    · have hcount : (startAttempt c (allow s.now c s.registry).1 s.attempts).countP (·.probe) =
          s.attempts.countP (·.probe) := by
        rw [startAttempt]
        split <;> simp [hp]
      simpa only [System.probes, hcount, hsame] using hprobes
  · exact absurd hbase hurl

theorem probeInv_report {c : ClientConfig} {s : System} {i : ℕ} {call : RecordCall} {a : Attempt}
    (h : ProbeInv c s) (ha : s.attempts[i]? = some a) (hfresh : ¬StaleReport s (.report i call)) :
    ProbeInv c { s with
      registry := record s.now a.client call s.registry
      attempts := s.attempts.eraseIdx i } := by
  obtain ⟨hclients, hbase, henabled, hprobes⟩ := h
  obtain rfl : a.client = c := hclients a (List.mem_of_getElem? ha)
  have hcount := countP_eraseIdx (p := (·.probe)) ha
  have hoff : (record s.now a.client call s.registry).probing a.client.name = false := by
    cases hen : s.registry.config.enabled with
    | true => exact record_probing _ _ _ _ hen
    | false =>
      rw [record_disabled _ _ _ _ hen]
      by_contra hon
      exact Bool.false_ne_true (hen ▸ henabled (by simpa using hon))
  refine ⟨fun b hb ↦ hclients b (List.mem_of_mem_eraseIdx hb), record_baseUrl _ _ _ _ hbase,
    fun hon ↦ absurd (hoff.symm.trans hon) Bool.false_ne_true, ?_⟩
  -- the report of the probe itself is the one that was counted; any other comes with none in flight
  simp only [System.probes, hoff, Bool.false_eq_true, ↓reduceIte] at hprobes ⊢
  cases hprobe : a.probe with
  | true =>
    simp only [hprobe, ↓reduceIte] at hcount
    split at hprobes <;> omega
  | false =>
    have hnone : s.registry.probing a.client.name ≠ true := fun hon ↦
      hfresh ⟨a, ha, hprobe, hon⟩
    simp only [hnone, Bool.false_eq_true, ↓reduceIte] at hprobes
    omega

theorem probeInv_step {c : ClientConfig} {s t : System} {e : Event} (h : ProbeInv c s)
    (hreq : e.IsRequestOf c) (hfresh : ¬StaleReport s e) (hs : step s e = some t) :
    ProbeInv c t := by
  cases Stepped.of_step hs with
  | tick => exact ⟨h.clients, h.baseUrl, h.enabled, h.probes⟩
  | configure => exact hreq.elim
  | allow client =>
    obtain rfl : client = c := hreq
    exact probeInv_allow h
  | report call ha => exact probeInv_report h ha hfresh
  | cancel => exact hreq.elim

/-- Requests to one backend never have two probes outstanding, as long as no request that
was admitted before the breaker opened reports while a probe is in flight. -/
theorem one_probe_outstanding (config : HealthCheckConfig) (now : Instant) (c : ClientConfig)
    {tr : List (System × Event)} {s : System} (h : Path step (.init config now) tr s)
    (hreq : ∀ p ∈ tr, p.2.IsRequestOf c) (hfresh : ∀ p ∈ tr, ¬StaleReport p.1 p.2) :
    OneProbe c s := by
  have hinv : ProbeInv c s := h.invariant
    (fun s e ↦ e.IsRequestOf c ∧ ¬StaleReport s e)
    (fun p hp ↦ ⟨hreq p hp, hfresh p hp⟩) (probeInv_init config now c)
    (fun _ _ _ hs hok hst ↦ probeInv_step hs hok.1 hok.2 hst)
  have hprobes := hinv.probes
  constructor
  · split at hprobes <;> omega
  · intro hp
    rcases allow_cases s.registry c s.now with ⟨_, _, hoff, _⟩ | ⟨hne, _⟩ | ⟨hne, _⟩
    · simpa [hoff] using hprobes
    · exact absurd hp hne
    · exact absurd hp hne

def primary : ClientConfig where
  name := "primary"
  baseUrl := "https://primary.example.com/v1"

def oneStrike : HealthCheckConfig where
  failureThreshold := 1
  cooldownSeconds := 30

def oneProbe : List Event :=
  [.allow primary, .report 0 .failure, .tick 30, .allow primary]

theorem one_probe_outstanding_half_open :
    ∃ tr s, Path step (.init oneStrike 0) tr s ∧ s.probes = 1 ∧ OneProbe primary s := by
  have hrun : (trace step (.init oneStrike 0) oneProbe).map
      (fun r ↦ (r.2.probes, r.1.all fun p ↦ !decide (StaleReport p.1 p.2))) = some (1, true) := by
    decide +kernel
  obtain ⟨⟨tr, s⟩, hr, hs⟩ := Option.map_eq_some_iff.mp hrun
  obtain ⟨hprobes, hfresh⟩ := Prod.mk.inj hs
  refine ⟨tr, s, Path.of_trace hr, hprobes,
    one_probe_outstanding oneStrike 0 primary (Path.of_trace hr) (fun p hp ↦ ?_) (fun p hp ↦ ?_)⟩
  · have hl : p.2 ∈ oneProbe := trace_labels hr ▸ List.mem_map_of_mem hp
    simp only [oneProbe, List.mem_cons, List.not_mem_nil, or_false] at hl
    rcases hl with hl | hl | hl | hl <;> simp [hl, Event.IsRequestOf]
  · simpa using List.all_eq_true.mp hfresh p hp

/-- Two requests are sent; the first fails and opens the breaker. After the cooldown the
probe is sent, then the second request fails too, and a second probe follows. -/
def twoProbes : List Event :=
  [.allow primary, .allow primary, .report 0 .failure, .tick 30, .allow primary,
    .report 1 .failure, .tick 90, .allow primary]

theorem two_probes_outstanding :
    ∃ tr s, Path step (.init oneStrike 0) tr s ∧ (∀ p ∈ tr, p.2.IsRequestOf primary) ∧
      s.probes = 2 ∧ ¬OneProbe primary s := by
  have hrun : (trace step (.init oneStrike 0) twoProbes).map (·.2.probes) = some 2 := by
    decide +kernel
  obtain ⟨⟨tr, s⟩, hr, hprobes⟩ := Option.map_eq_some_iff.mp hrun
  refine ⟨tr, s, Path.of_trace hr, fun p hp ↦ ?_, hprobes,
    fun h ↦ absurd h.1 (by rw [hprobes]; decide)⟩
  have hl : p.2 ∈ twoProbes := trace_labels hr ▸ List.mem_map_of_mem hp
  simp only [twoProbes, List.mem_cons, List.not_mem_nil, or_false] at hl
  rcases hl with hl | hl | hl | hl | hl | hl | hl | hl <;> simp [hl, Event.IsRequestOf]

/-- A backend whose probe flag is set has an attempt in progress. -/
def ProbeReported (s : System) : Prop :=
  ∀ name, s.registry.probing name = true → ∃ a ∈ s.attempts, a.client.name = name

def LastOfProbing (s : System) (i : ℕ) : Prop :=
  ∃ a ∈ s.attempts[i]?, s.registry.probing a.client.name = true ∧
    ∀ b ∈ s.attempts.eraseIdx i, b.client.name ≠ a.client.name

instance (s : System) (i : ℕ) : Decidable (LastOfProbing s i) := by
  rw [LastOfProbing]
  infer_instance

/-- The last attempt of a backend with its probe flag set goes away unheard: it is
cancelled, or reports while health checks are disabled. -/
def Abandons (s : System) : Event → Prop
  | .cancel i => LastOfProbing s i
  | .report i _ => s.registry.config.enabled = false ∧ LastOfProbing s i
  | _ => False

instance (s : System) (e : Event) : Decidable (Abandons s e) := by
  cases e <;> simp only [Abandons] <;> infer_instance

theorem probeReported_erase {s : System} {i : ℕ} {a : Attempt} (h : ProbeReported s)
    (ha : s.attempts[i]? = some a) :
    ProbeReported { s with attempts := s.attempts.eraseIdx i } ↔ ¬LastOfProbing s i := by
  constructor
  · rintro ht ⟨b, hb, hon, hlast⟩
    obtain ⟨d, hd, hname⟩ := ht b.client.name hon
    exact hlast d hd hname
  · intro hl name hon
    obtain ⟨b, hb, rfl⟩ := h name hon
    by_cases hname : b.client.name = a.client.name
    · by_contra hnone
      refine hl ⟨a, ha, hname ▸ hon, fun d hd hd' ↦ hnone ⟨d, hd, hd'.trans hname.symm⟩⟩
    · have hne : b ≠ a := fun he ↦ hname (he ▸ rfl)
      exact ⟨b, mem_eraseIdx_of_ne hb ha hne, rfl⟩

theorem probeReported_report {s : System} {i : ℕ} {a : Attempt} {call : RecordCall}
    (h : ProbeReported s) (ha : s.attempts[i]? = some a)
    (hen : s.registry.config.enabled = true) :
    ProbeReported { s with
      registry := record s.now a.client call s.registry
      attempts := s.attempts.eraseIdx i } := by
  intro name hon
  by_cases hname : name = a.client.name
  · subst hname
    simp [record_probing _ _ _ _ hen] at hon
  · obtain ⟨b, hb, rfl⟩ := h name (by simpa [record_probing_ne _ _ _ _ hname] using hon)
    exact ⟨b, mem_eraseIdx_of_ne hb ha (fun he ↦ hname (he ▸ rfl)), rfl⟩

theorem probeReported_allow {s : System} {client : ClientConfig} (h : ProbeReported s) :
    ProbeReported { s with
      registry := (allow s.now client s.registry).2
      attempts := startAttempt client (allow s.now client s.registry).1 s.attempts } := by
  have hsub : ∀ p, s.attempts ⊆ startAttempt client p s.attempts := by
    intro p
    rw [startAttempt]
    split
    · exact List.subset_cons_self _ _
    · exact List.Subset.refl _
  intro name hon
  dsimp only at hon ⊢
  by_cases hname : name = client.name
  · subst hname
    rcases allow_cases s.registry client s.now with ⟨hp, _⟩ | ⟨_, hsame⟩ | ⟨_, _, hoff⟩
    · exact ⟨⟨client, true⟩, by simp [hp, startAttempt, AttemptPermission.admits], rfl⟩
    · obtain ⟨b, hb, hb'⟩ := h client.name (hsame ▸ hon)
      exact ⟨b, hsub _ hb, hb'⟩
    · exact absurd (hoff.symm.trans hon) Bool.false_ne_true
  · obtain ⟨b, hb, hb'⟩ := h name (by rwa [allow_probing_ne _ _ _ hname] at hon)
    exact ⟨b, hsub _ hb, hb'⟩

theorem probeReported_step {s t : System} {e : Event} (h : ProbeReported s)
    (hs : step s e = some t) : ProbeReported t ↔ ¬Abandons s e := by
  cases Stepped.of_step hs with
  | tick => exact iff_of_true h id
  | configure => exact iff_of_true h id
  | allow client => exact iff_of_true (probeReported_allow h) id
  | report call ha =>
    cases hen : s.registry.config.enabled with
    | true => exact iff_of_true (probeReported_report h ha hen) (by simp [Abandons, hen])
    | false => simpa [record_disabled _ _ _ _ hen, Abandons, hen] using probeReported_erase h ha
  | cancel ha => exact probeReported_erase h ha

/-- In a run of the registry every set flag belongs to an attempt in progress, in every
state, exactly when no step of it abandons a probe. -/
theorem probe_reported_iff (config : HealthCheckConfig) (now : Instant)
    {tr : List (System × Event)} {s : System} (h : Path step (.init config now) tr s) :
    Always ProbeReported tr s ↔ ∀ p ∈ tr, ¬Abandons p.1 p.2 :=
  h.always_iff
    (fun _ hon ↦ absurd hon (by simp [System.init, RegistryState.new, RegistryState.probing]))
    (fun _ _ _ hP hs ↦ probeReported_step hP hs)

theorem probe_reported_half_open :
    ∃ tr s, Path step (.init oneStrike 0) tr s ∧ s.probes = 1 ∧ Always ProbeReported tr s := by
  have hrun : (trace step (.init oneStrike 0) oneProbe).map
      (fun r ↦ (r.2.probes, r.1.all fun p ↦ !decide (Abandons p.1 p.2))) = some (1, true) := by
    decide +kernel
  obtain ⟨⟨tr, s⟩, hr, hs⟩ := Option.map_eq_some_iff.mp hrun
  obtain ⟨hprobes, hkept⟩ := Prod.mk.inj hs
  refine ⟨tr, s, Path.of_trace hr, hprobes,
    (probe_reported_iff oneStrike 0 (Path.of_trace hr)).mpr (fun p hp ↦ ?_)⟩
  simpa using List.all_eq_true.mp hkept p hp

/-- The probe is admitted and its future dropped: the flag stays up with nobody to report,
and the backend blocks every later request. -/
def droppedProbe : List Event :=
  [.allow primary, .report 0 .failure, .tick 30, .allow primary, .cancel 0]

theorem probe_abandoned :
    ∃ tr s, Path step (.init oneStrike 0) tr s ∧ s.attempts.length = 0 ∧ ¬ProbeReported s := by
  have hrun : (trace step (.init oneStrike 0) droppedProbe).map
      (fun r ↦ (r.2.attempts.length, r.2.registry.probing "primary")) = some (0, true) := by
    decide +kernel
  obtain ⟨⟨tr, s⟩, hr, hs⟩ := Option.map_eq_some_iff.mp hrun
  obtain ⟨hlen, hon⟩ := Prod.mk.inj hs
  refine ⟨tr, s, Path.of_trace hr, hlen, fun h ↦ ?_⟩
  obtain ⟨a, ha, _⟩ := h "primary" hon
  rw [List.length_eq_zero_iff.mp hlen] at ha
  exact absurd ha List.not_mem_nil

end QueQiao.CircuitBreaker
