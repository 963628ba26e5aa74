import QueQiao.Services.BreakerRuns

namespace QueQiao.CircuitBreaker

open Lib.Transition

def RegistryState.backoffLevel (state : RegistryState) (name : String) : ℕ :=
  ((state.backends name).map (·.backoffLevel)).getD 0

def RegistryState.isOpen (state : RegistryState) (name : String) : Bool :=
  (state.backends name).any (·.openedAt.isSome)

def reports (name : String) (call : RecordCall) (q : Attempt → Bool) (s : System) : Event → Bool
  | .report i c => decide (c = call) && s.attempts[i]?.any fun a ↦ decide (a.client.name = name) && q a
  | _ => false

def succeeds (name : String) (p : System × Event) : Bool :=
  p.1.registry.config.enabled && reports name .success (fun _ ↦ true) p.1 p.2

def probeFails (name : String) (p : System × Event) : Bool :=
  reports name .failure (fun a ↦ a.probe) p.1 p.2

/-- The failure of a request that is no probe comes while the breaker is open. -/
def lateFails (name : String) (p : System × Event) : Bool :=
  p.1.registry.isOpen name && reports name .failure (fun a ↦ !a.probe) p.1 p.2

def sinceSuccess (name : String) (tr : List (System × Event)) : List (System × Event) :=
  tr.reverse.takeWhile fun p ↦ !succeeds name p

def failedProbes (name : String) (tr : List (System × Event)) : ℕ :=
  (sinceSuccess name tr).countP (probeFails name)

def lateFailures (name : String) (tr : List (System × Event)) : ℕ :=
  (sinceSuccess name tr).countP (lateFails name)

section Counting

variable {name : String} {tr : List (System × Event)} {p : System × Event}

theorem sinceSuccess_snoc (h : succeeds name p = false) :
    sinceSuccess name (tr ++ [p]) = p :: sinceSuccess name tr := by
  rw [sinceSuccess, List.reverse_append, List.reverse_singleton, List.singleton_append,
    List.takeWhile_cons_of_pos (by rw [h]; rfl), sinceSuccess]

theorem failures_snoc (h : succeeds name p = false) :
    failedProbes name (tr ++ [p]) + lateFailures name (tr ++ [p]) =
      failedProbes name tr + lateFailures name tr +
        ((if probeFails name p then 1 else 0) + if lateFails name p then 1 else 0) := by
  rw [failedProbes, failedProbes, lateFailures, lateFailures, sinceSuccess_snoc h, List.countP_cons,
    List.countP_cons]
  omega

end Counting

section Registry

variable {state : RegistryState} {client : ClientConfig} {now : Instant} {name : String}

/-- Only an open breaker has a probe in flight. -/
def BackendState.Sound (backend : BackendState) : Prop :=
  backend.probeInFlight = true → backend.openedAt.isSome = true

def RegistryState.Sound (state : RegistryState) : Prop :=
  ∀ name, ∀ backend ∈ state.backends name, backend.Sound

theorem sound_new : (BackendState.new client).Sound := fun h ↦ by cases h

theorem RegistryState.Sound.entry (h : state.Sound) : (state.entry client).Sound := by
  rw [RegistryState.entry]
  cases hbackend : state.backends client.name with
  | none => exact sound_new
  | some backend => exact h client.name backend hbackend

theorem RegistryState.Sound.insert (h : state.Sound) {backend : BackendState}
    (hbackend : backend.Sound) : (state.insert name backend).Sound := by
  intro n other hother
  by_cases hn : n = name
  · subst hn
    rw [insert_backends_self, Option.mem_some_iff] at hother
    exact hother ▸ hbackend
  · rw [insert_backends_ne state hn] at hother
    exact h n other hother

theorem backoffLevel_entry :
    (state.entry client).backoffLevel = state.backoffLevel client.name := by
  rw [RegistryState.entry, RegistryState.backoffLevel]
  cases state.backends client.name <;> rfl

theorem openedAt_entry : (state.entry client).openedAt.isSome = state.isOpen client.name := by
  rw [RegistryState.entry, RegistryState.isOpen]
  cases state.backends client.name <;> rfl

theorem backoffLevel_insert (n : String) (backend : BackendState) :
    (state.insert name backend).backoffLevel n =
      if n = name then backend.backoffLevel else state.backoffLevel n := by
  rw [RegistryState.backoffLevel]
  split
  · rename_i hn
    rw [hn, insert_backends_self]
    rfl
  · rename_i hn
    rw [insert_backends_ne state hn, RegistryState.backoffLevel]

theorem allow_entry : (allow now client state).2 = state ∨
    ∃ backend, (allow now client state).2 = state.insert client.name backend ∧
      (backend = .new client ∨ backend = state.entry client ∨
        backend = { state.entry client with probeInFlight := true } ∧
          (state.entry client).openedAt.isSome = true) := by
  rw [allow]
  split
  · exact .inl rfl
  right
  dsimp only
  split
  · exact ⟨_, rfl, .inl rfl⟩
  split
  · exact ⟨_, rfl, .inr (.inl rfl)⟩
  · rename_i openedAt hopened
    split
    · exact ⟨_, rfl, .inr (.inl rfl)⟩
    split
    · exact ⟨_, rfl, .inr (.inl rfl)⟩
    · exact ⟨_, rfl, .inr (.inr ⟨rfl, by rw [hopened]; rfl⟩)⟩

theorem sound_allow (h : state.Sound) : (allow now client state).2.Sound := by
  obtain heq | ⟨backend, heq, hbackend⟩ := @allow_entry state client now
  · rwa [heq]
  · rw [heq]
    apply h.insert
    obtain rfl | rfl | ⟨rfl, hopened⟩ := hbackend
    · exact sound_new
    · exact h.entry
    · exact fun _ ↦ hopened

theorem backoffLevel_allow (n : String) :
    (allow now client state).2.backoffLevel n ≤ state.backoffLevel n := by
  obtain heq | ⟨backend, heq, hbackend⟩ := @allow_entry state client now
  · rw [heq]
  · rw [heq, backoffLevel_insert]
    split
    · rename_i hn
      rw [hn, ← backoffLevel_entry]
      obtain rfl | rfl | ⟨rfl, -⟩ := hbackend
      · exact Nat.zero_le _
      · exact Nat.le_refl _
      · exact Nat.le_refl _
    · exact Nat.le_refl _

theorem sound_record (h : state.Sound) (call : RecordCall) :
    (record now client call state).Sound := by
  cases henabled : state.config.enabled with
  | false => rwa [record_disabled state client now call henabled]
  | true =>
    cases call with
    | success =>
      simp only [record, recordSuccess, henabled, Bool.true_eq_false, ↓reduceIte]
      split
      · exact h.insert sound_new
      · exact h.insert fun hprobe ↦ by cases hprobe
    | failure =>
      simp only [record, recordFailure, henabled, Bool.true_eq_false, ↓reduceIte]
      refine h.insert fun hprobe ↦ ?_
      rw [open_probeInFlight] at hprobe
      cases hprobe

theorem backoffLevel_success (henabled : state.config.enabled = true) :
    (record now client .success state).backoffLevel client.name = 0 := by
  simp only [record, recordSuccess, henabled, Bool.true_eq_false, ↓reduceIte]
  split
  · rw [backoffLevel_insert, if_pos rfl]
    rfl
  · rw [backoffLevel_insert, if_pos rfl]

theorem backoffLevel_record_ne (call : RecordCall) {n : String} (hn : n ≠ client.name) :
    (record now client call state).backoffLevel n = state.backoffLevel n := by
  cases henabled : state.config.enabled with
  | false => rw [record_disabled state client now call henabled]
  | true =>
    cases call with
    | success =>
      simp only [record, recordSuccess, henabled, Bool.true_eq_false, ↓reduceIte]
      split <;> rw [backoffLevel_insert, if_neg hn]
    | failure =>
      simp only [record, recordFailure, henabled, Bool.true_eq_false, ↓reduceIte]
      rw [backoffLevel_insert, if_neg hn]

theorem open_backoffLevel (threshold : ℕ) (backend : BackendState) :
    (backend.open threshold now).backoffLevel = backend.backoffLevel := by
  rw [BackendState.open]
  dsimp only
  split <;> rfl

theorem backoffLevel_failure (hsound : state.Sound) (henabled : state.config.enabled = true)
    (hurl : (state.entry client).baseUrl = client.baseUrl) :
    (record now client .failure state).backoffLevel client.name =
      if state.isOpen client.name then u32SaturatingSucc (state.backoffLevel client.name)
      else state.backoffLevel client.name := by
  simp only [record, recordFailure, henabled, Bool.true_eq_false, ↓reduceIte, hurl, ne_eq,
    not_true_eq_false]
  rw [backoffLevel_insert, if_pos rfl, open_backoffLevel, BackendState.countFailure,
    openedAt_entry, ← backoffLevel_entry]
  cases hopen : state.isOpen client.name with
  | true => rw [if_pos (.inl rfl), if_pos rfl]
  | false =>
    have hprobe : (state.entry client).probeInFlight ≠ true := by
      intro hprobe
      have hopened := hsound.entry hprobe
      rw [openedAt_entry, hopen] at hopened
      cases hopened
    rw [if_neg (by simpa using hprobe), if_neg Bool.false_ne_true]

theorem backoffLevel_failure_le (hsound : state.Sound) :
    (record now client .failure state).backoffLevel client.name ≤
      state.backoffLevel client.name + if state.isOpen client.name then 1 else 0 := by
  cases henabled : state.config.enabled with
  | false =>
    rw [record_disabled state client now .failure henabled]
    exact Nat.le_add_right _ _
  | true =>
    by_cases hurl : (state.entry client).baseUrl = client.baseUrl
    · rw [backoffLevel_failure hsound henabled hurl]
      split
      · exact Nat.min_le_left _ _
      · exact Nat.le_refl _
    · simp only [record, recordFailure, henabled, Bool.true_eq_false, ↓reduceIte, ne_eq, hurl,
        not_false_eq_true]
      rw [backoffLevel_insert, if_pos rfl, open_backoffLevel]
      exact Nat.zero_le _

end Registry

section Runs

variable {name : String} {tr : List (System × Event)} {s t : System} {e : Event}

structure Covered (name : String) (tr : List (System × Event)) (s : System) : Prop where
  sound : s.registry.Sound
  level : s.registry.backoffLevel name ≤ failedProbes name tr + lateFailures name tr

theorem Covered.keep (h : Covered name tr s) (hsound : t.registry.Sound)
    (hlevel : t.registry.backoffLevel name ≤ s.registry.backoffLevel name)
    (hsuccess : succeeds name (s, e) = false) : Covered name (tr ++ [(s, e)]) t where
  sound := hsound
  level := by
    rw [failures_snoc hsuccess]
    exact (hlevel.trans h.level).trans (Nat.le_add_right _ _)

theorem reports_of_get {i : ℕ} {a : Attempt} {call : RecordCall} (hget : s.attempts[i]? = some a)
    (c : RecordCall) (q : Attempt → Bool) : reports name c q s (.report i call) =
      (decide (call = c) && (decide (a.client.name = name) && q a)) := by
  rw [reports, hget, Option.any_some]

theorem Covered.report {i : ℕ} {a : Attempt} (h : Covered name tr s)
    (hget : s.attempts[i]? = some a) (call : RecordCall) :
    Covered name (tr ++ [(s, .report i call)])
      { s with
        registry := record s.now a.client call s.registry
        attempts := s.attempts.eraseIdx i } := by
  have hsound := @sound_record s.registry a.client s.now h.sound call
  by_cases hname : a.client.name = name
  · subst hname
    cases call with
    | success =>
      cases henabled : s.registry.config.enabled with
      | true =>
        refine ⟨hsound, ?_⟩
        rw [backoffLevel_success henabled]
        exact Nat.zero_le _
      | false =>
        refine h.keep hsound ?_ (by rw [succeeds, henabled]; rfl)
        rw [record_disabled _ _ _ _ henabled]
    | failure =>
      have hsuccess : succeeds a.client.name (s, .report i .failure) = false := by
        rw [succeeds, reports_of_get hget]
        exact Bool.and_false _
      refine ⟨hsound, ?_⟩
      have hle := @backoffLevel_failure_le s.registry a.client s.now h.sound
      have hlevel := h.level
      rw [failures_snoc hsuccess, probeFails, lateFails, reports_of_get hget, reports_of_get hget]
      dsimp only
      -- the report is that of a probe, or late where the breaker is open
      cases hprobe : a.probe with
      | true =>
        simp only [decide_true, Bool.true_and, if_true]
        split at hle <;> omega
      | false =>
        cases hopen : s.registry.isOpen a.client.name with
        | true =>
          rw [hopen] at hle
          simp only [decide_true, Bool.true_and, Bool.not_false, if_true] at hle ⊢
          omega
        | false =>
          rw [hopen, if_neg Bool.false_ne_true] at hle
          omega
  · refine h.keep hsound ?_ ?_
    · rw [backoffLevel_record_ne call (Ne.symm hname)]
    · rw [succeeds, reports_of_get hget, decide_eq_false hname]
      simp

theorem Covered.step (h : Covered name tr s) (hs : step s e = some t) :
    Covered name (tr ++ [(s, e)]) t := by
  have hno (hreport : reports name .success (fun _ ↦ true) s e = false) :
      succeeds name (s, e) = false := by
    rw [succeeds, hreport, Bool.and_false]
  cases Stepped.of_step hs with
  | tick => exact h.keep h.sound (Nat.le_refl _) (hno rfl)
  | configure => exact h.keep h.sound (Nat.le_refl _) (hno rfl)
  | allow client => exact h.keep (sound_allow h.sound) (backoffLevel_allow name) (hno rfl)
  | report call hget => exact h.report hget call
  | cancel => exact h.keep h.sound (Nat.le_refl _) (hno rfl)

theorem covered_run {config : HealthCheckConfig} {now : Instant}
    (h : Path CircuitBreaker.step (.init config now) tr s) : Covered name tr s := by
  induction h with
  | nil => exact ⟨(fun _ _ hbackend ↦ by cases hbackend), Nat.zero_le _⟩
  | snoc _ hs ih => exact ih.step hs

/-- The level of a backend is at most the number of its failures, since its last success, that are
of probes or come while its breaker is open. A failure of the second kind raises it by one. -/
theorem backoffLevel_le_failures {config : HealthCheckConfig} {now : Instant}
    (h : Path CircuitBreaker.step (.init config now) tr s) (name : String) :
    s.registry.backoffLevel name ≤ failedProbes name tr + lateFailures name tr ∧
    ∀ i a, s.attempts[i]? = some a → a.client.name = name → s.registry.config.enabled = true →
      (s.registry.entry a.client).baseUrl = a.client.baseUrl → s.registry.isOpen name = true →
        ∃ t, CircuitBreaker.step s (.report i .failure) = some t ∧
          t.registry.backoffLevel name = u32SaturatingSucc (s.registry.backoffLevel name) := by
  have hcovered : Covered name tr s := covered_run h
  refine ⟨hcovered.level, ?_⟩
  intro i a hget hname henabled hurl hopen
  subst hname
  refine ⟨_, by rw [CircuitBreaker.step, hget], ?_⟩
  have hlevel := @backoffLevel_failure _ _ s.now hcovered.sound henabled hurl
  rw [hopen, if_pos rfl] at hlevel
  exact hlevel

end Runs

/-- Two requests are admitted; the failure of the first opens the breaker, and then the other
fails, too. -/
def twoFailures : List Event :=
  [.allow primary, .allow primary, .report 0 .failure, .report 0 .failure]

theorem backoffLevel_le_failures_two :
    ∃ tr s, Path step (.init oneStrike 0) tr s ∧ s.registry.backoffLevel "primary" = 1 ∧
      s.registry.backoffLevel "primary" ≤
        failedProbes "primary" tr + lateFailures "primary" tr := by
  have hrun : (trace step (.init oneStrike 0) twoFailures).map
      (fun r ↦ r.2.registry.backoffLevel "primary") = some 1 := by
    decide +kernel
  obtain ⟨⟨tr, s⟩, hr, hlevel⟩ := Option.map_eq_some_iff.mp hrun
  exact ⟨tr, s, Path.of_trace hr, hlevel,
    (backoffLevel_le_failures (Path.of_trace hr) "primary").1⟩

theorem late_failure_raises_level :
    ∃ tr s, Path step (.init oneStrike 0) tr s ∧ failedProbes "primary" tr = 0 ∧
      s.registry.backoffLevel "primary" = 1 := by
  have hrun : (trace step (.init oneStrike 0) twoFailures).map
      (fun r ↦ (failedProbes "primary" r.1, r.2.registry.backoffLevel "primary")) = some (0, 1) := by
    decide +kernel
  obtain ⟨⟨tr, s⟩, hr, hs⟩ := Option.map_eq_some_iff.mp hrun
  obtain ⟨hprobes, hlevel⟩ := Prod.mk.inj hs
  exact ⟨tr, s, Path.of_trace hr, hprobes, hlevel⟩

end QueQiao.CircuitBreaker
