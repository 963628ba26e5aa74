import QueQiao.Services.CircuitBreaker

namespace QueQiao.CircuitBreaker

open Lib.Binary64

/-- The seconds of a `Duration` have 64 bits. -/
def durationEnd : ℚ := 2 ^ 64

/-- `Duration::mul_f64`, which panics on a product that is no `Duration`. -/
def mulF64 (d : Duration) (multiplier : ℚ) : Option Duration :=
  if 0 ≤ productF64 d multiplier ∧ productF64 d multiplier < durationEnd then
    some (fromSecsF64 (productF64 d multiplier))
  else none

def cooldownLoop (config : NormalizedConfig) : ℕ → Duration → Option Duration
  | 0, cooldown => some cooldown
  | rounds + 1, cooldown =>
    (mulF64 cooldown config.backoffMultiplier).bind fun product ↦
      cooldownLoop config rounds (min product config.maxCooldownSeconds)

/-- `cooldown_for_state` with its panics. -/
def checkedCooldown (config : NormalizedConfig) (backend : BackendState) : Option Duration :=
  cooldownLoop config backend.backoffLevel config.cooldownSeconds

section Seconds

variable {d e : Duration}

/-- A duration of whole seconds, or one that is short enough for all its seconds to be counted. -/
def Countable (d : Duration) : Prop := Int.fract d = 0 ∨ d < 2 ^ 53

theorem countable_natCast (n : ℕ) : Countable n := .inl (Int.fract_natCast n)

theorem nearest_fract_le_one (d : Duration) : nearest (Int.fract d) ≤ 1 := by
  have hone : nearest 1 = 1 := by exact_mod_cast nearest_natCast (n := 1) (by norm_num)
  exact (nearest_mono (Int.fract_nonneg d) (Int.fract_lt_one d).le).trans_eq hone

theorem nearest_floor_natCast {n : ℕ} (h : n ≤ 2 ^ 53) : nearest (n : ℤ) = n := by
  exact_mod_cast nearest_natCast h

theorem asSecsF64_mono (hd : 0 ≤ d) (hcount : Countable d) (h : d ≤ e) :
    asSecsF64 d ≤ asSecsF64 e := by
  have hfloor : 0 ≤ ⌊d⌋ := Int.floor_nonneg.mpr hd
  have hround : nearest ⌊d⌋ ≤ nearest ⌊e⌋ :=
    nearest_mono (by exact_mod_cast hfloor) (by exact_mod_cast Int.floor_mono h)
  have hsecs : 0 ≤ nearest ⌊d⌋ := nearest_nonneg (by exact_mod_cast hfloor)
  have hnanos (x : Duration) : 0 ≤ nearest (Int.fract x) := nearest_nonneg (Int.fract_nonneg x)
  refine nearest_mono (add_nonneg hsecs (hnanos d)) ?_
  rcases (Int.floor_mono h).lt_or_eq with hlt | heq
  · by_cases hzero : Int.fract d = 0
    · rw [hzero, nearest_zero, add_zero]
      exact hround.trans (le_add_of_nonneg_right (hnanos e))
    · -- the seconds are counted one by one
      have hshort : ⌊d⌋ < 2 ^ 53 :=
        Int.floor_lt.mpr (by exact_mod_cast hcount.resolve_left hzero)
      obtain ⟨n, hn⟩ := Int.eq_ofNat_of_zero_le hfloor
      have hnext : nearest ((n + 1 : ℕ) : ℤ) ≤ nearest ⌊e⌋ :=
        nearest_mono (by positivity) (by exact_mod_cast (by omega : ((n + 1 : ℕ) : ℤ) ≤ ⌊e⌋))
      rw [nearest_floor_natCast (by omega)] at hnext
      rw [hn, nearest_floor_natCast (by omega)]
      push_cast at hnext
      linarith [nearest_fract_le_one d, hnanos e]
  · have hfract : Int.fract d ≤ Int.fract e := by
      rw [Int.fract, Int.fract, heq]
      exact sub_le_sub_right h _
    exact add_le_add hround (nearest_mono (Int.fract_nonneg d) hfract)

theorem fromSecsF64_mono {x y : ℚ} (h : x ≤ y) : fromSecsF64 x ≤ fromSecsF64 y := by
  refine div_le_div_of_nonneg_right ?_ (by positivity)
  exact_mod_cast roundEven_mono (mul_le_mul_of_nonneg_right h (by positivity))

theorem fromSecsF64_intCast (n : ℤ) : fromSecsF64 n = n := by
  have hnanos : (n : ℚ) * 10 ^ 9 = ((n * 10 ^ 9 : ℤ) : ℚ) := by push_cast; rfl
  rw [fromSecsF64, hnanos, roundEven_intCast]
  push_cast
  exact mul_div_cancel_right₀ _ (by positivity)

theorem countable_fromSecsF64 {x : ℚ} (hx : 0 ≤ x) : Countable (fromSecsF64 (nearest x)) := by
  rcases lt_or_ge x (2 ^ 52) with hlt | hge
  · have hbound : nearest x ≤ ((2 ^ 52 : ℤ) : ℚ) := by
      refine (nearest_mono hx hlt.le).trans_eq ?_
      exact_mod_cast nearest_natCast (n := 2 ^ 52) (by norm_num)
    have hsecs := (fromSecsF64_mono hbound).trans_eq (fromSecsF64_intCast _)
    exact .inr (hsecs.trans_lt (by norm_num))
  · obtain ⟨n, hn⟩ := exists_nearest_eq_intCast hge
    rw [hn, fromSecsF64_intCast]
    exact .inl (Int.fract_intCast n)

theorem asSecsF64_nonneg (hd : 0 ≤ d) : 0 ≤ asSecsF64 d := by
  have hfloor : (0 : ℚ) ≤ ⌊d⌋ := by exact_mod_cast Int.floor_nonneg.mpr hd
  exact nearest_nonneg (add_nonneg (nearest_nonneg hfloor) (nearest_nonneg (Int.fract_nonneg d)))

theorem productF64_mono {multiplier : ℚ} (hm : 0 ≤ multiplier) (hd : 0 ≤ d)
    (hcount : Countable d) (h : d ≤ e) : productF64 d multiplier ≤ productF64 e multiplier :=
  nearest_mono (mul_nonneg hm (asSecsF64_nonneg hd))
    (mul_le_mul_of_nonneg_left (asSecsF64_mono hd hcount h) hm)

end Seconds

section Backoff

variable (config : NormalizedConfig)

def NormalizedConfig.capped (level : ℕ) : Duration := config.backoff^[level] config.cooldownSeconds

/-- The first product is not rounded to less than the cooldown, and the last one is a `Duration`. -/
def NormalizedConfig.Fits : ℕ → Prop
  | 0 => True
  | level + 1 =>
    config.cooldownSeconds ≤ fromSecsF64 (productF64 config.cooldownSeconds config.backoffMultiplier) ∧
      productF64 (config.capped level) config.backoffMultiplier < durationEnd

theorem multiplier_nonneg : 0 ≤ config.backoffMultiplier :=
  zero_le_one.trans config.one_le_multiplier

theorem cooldown_le_max_cast : (config.cooldownSeconds : ℚ) ≤ config.maxCooldownSeconds :=
  Nat.cast_le.mpr config.cooldown_le_max

def NormalizedConfig.Kept (d : Duration) : Prop :=
  0 ≤ d ∧ Countable d ∧ d ≤ config.maxCooldownSeconds

variable {config}

theorem productF64_nonneg {d : Duration} (hd : 0 ≤ d) :
    0 ≤ productF64 d config.backoffMultiplier :=
  nearest_nonneg (mul_nonneg (multiplier_nonneg config) (asSecsF64_nonneg hd))

theorem kept_backoff {d : Duration} (h : config.Kept d) : config.Kept (config.backoff d) := by
  have hproduct : 0 ≤ productF64 d config.backoffMultiplier := productF64_nonneg h.1
  have hsecs : 0 ≤ fromSecsF64 (productF64 d config.backoffMultiplier) := by
    have hzero := fromSecsF64_mono hproduct
    rwa [show fromSecsF64 0 = 0 by exact_mod_cast fromSecsF64_intCast 0] at hzero
  refine ⟨le_min hsecs (Nat.cast_nonneg _), ?_, min_le_right _ _⟩
  rw [NormalizedConfig.backoff]
  rcases min_choice (fromSecsF64 (productF64 d config.backoffMultiplier))
    (config.maxCooldownSeconds : ℚ) with heq | heq
  · rw [heq]
    exact countable_fromSecsF64 (mul_nonneg (multiplier_nonneg config) (asSecsF64_nonneg h.1))
  · rw [heq]
    exact countable_natCast _

theorem kept_capped (level : ℕ) : config.Kept (config.capped level) := by
  induction level with
  | zero => exact ⟨Nat.cast_nonneg _, countable_natCast _, cooldown_le_max_cast config⟩
  | succ level ih =>
    rw [NormalizedConfig.capped, Function.iterate_succ_apply']
    exact kept_backoff ih

theorem capped_succ (level : ℕ) :
    config.capped (level + 1) = config.backoff (config.capped level) :=
  Function.iterate_succ_apply' _ _ _

theorem backoff_mono {d e : Duration} (hd : config.Kept d) (h : d ≤ e) :
    config.backoff d ≤ config.backoff e :=
  min_le_min_right _ (fromSecsF64_mono
    (productF64_mono (multiplier_nonneg config) hd.1 hd.2.1 h))

theorem capped_mono (h : config.capped 0 ≤ config.capped 1) : Monotone config.capped := by
  refine monotone_nat_of_le_succ fun level ↦ ?_
  induction level with
  | zero => exact h
  | succ level ih =>
    rw [capped_succ, capped_succ (level + 1)]
    exact backoff_mono (kept_capped level) ih

theorem capped_succ_le (h : config.capped 1 ≤ config.capped 0) (level : ℕ) :
    config.capped (level + 1) ≤ config.capped 1 := by
  induction level with
  | zero => exact le_rfl
  | succ level ih =>
    rw [capped_succ (level + 1), capped_succ 0]
    exact backoff_mono (kept_capped _) (ih.trans h)

theorem capped_zero_le_one_iff : config.capped 0 ≤ config.capped 1 ↔ (config.cooldownSeconds : ℚ) ≤
    fromSecsF64 (productF64 config.cooldownSeconds config.backoffMultiplier) := by
  rw [capped_succ]
  exact le_min_iff.trans (and_iff_left (cooldown_le_max_cast config))

theorem NormalizedConfig.Fits.capped_le {level k n : ℕ} (h : config.Fits level) (hk : k ≤ n)
    (hn : n ≤ level) : config.capped k ≤ config.capped n := by
  cases level with
  | zero =>
    obtain rfl : n = 0 := Nat.le_zero.mp hn
    rw [Nat.le_zero.mp hk]
  | succ level => exact capped_mono (capped_zero_le_one_iff.mpr h.1) hk

theorem NormalizedConfig.Fits.product_lt {level n : ℕ} (h : config.Fits level) (hn : n < level) :
    productF64 (config.capped n) config.backoffMultiplier < durationEnd := by
  cases level with
  | zero => exact absurd hn (Nat.not_lt_zero n)
  | succ level =>
    obtain ⟨hpos, hcount, -⟩ : config.Kept (config.capped n) := kept_capped n
    have hle := h.capped_le (Nat.le_of_lt_succ hn) (Nat.le_succ level)
    exact (productF64_mono (multiplier_nonneg config) hpos hcount hle).trans_lt h.2

theorem mulF64_capped (level : ℕ) : mulF64 (config.capped level) config.backoffMultiplier =
    if productF64 (config.capped level) config.backoffMultiplier < durationEnd then
      some (fromSecsF64 (productF64 (config.capped level) config.backoffMultiplier)) else none :=
  if_congr (and_iff_right (productF64_nonneg (kept_capped level).1)) rfl rfl

theorem cooldownLoop_eq_some {rounds level : ℕ} {c : Duration} :
    cooldownLoop config rounds (config.capped level) = some c ↔
      (∀ n, level ≤ n → n < level + rounds →
        productF64 (config.capped n) config.backoffMultiplier < durationEnd) ∧
      c = config.capped (level + rounds) := by
  induction rounds generalizing level with
  | zero =>
    rw [cooldownLoop, Option.some.injEq, eq_comm, Nat.add_zero]
    exact (and_iff_right fun n hle hlt ↦ absurd hle (Nat.not_le_of_lt hlt)).symm
  | succ rounds ih =>
    rw [cooldownLoop, mulF64_capped]
    split
    · rename_i hfits
      have hnext : min (fromSecsF64 (productF64 (config.capped level) config.backoffMultiplier))
          (config.maxCooldownSeconds : ℚ) = config.capped (level + 1) := (capped_succ level).symm
      rw [Option.bind_some, hnext, ih, Nat.add_right_comm, Nat.add_assoc]
      refine and_congr_left fun _ ↦ ?_
      constructor
      · intro h n hle hlt
        rcases Nat.eq_or_lt_of_le hle with rfl | hle
        · exact hfits
        · exact h n hle hlt
      · intro h n hle hlt
        exact h n (Nat.le_of_succ_le hle) hlt
    · rename_i hpanics
      rw [Option.bind_none]
      refine iff_of_false (by simp) fun h ↦ hpanics ?_
      exact h.1 level (Nat.le_refl level) (Nat.lt_add_of_pos_right (Nat.succ_pos rounds))

theorem checkedCooldown_eq_some {backend : BackendState} {c : Duration} :
    checkedCooldown config backend = some c ↔
      (∀ n < backend.backoffLevel,
        productF64 (config.capped n) config.backoffMultiplier < durationEnd) ∧
      c = cooldownForState config backend := by
  rw [checkedCooldown, show (config.cooldownSeconds : Duration) = config.capped 0 from rfl,
    cooldownLoop_eq_some, Nat.zero_add]
  exact and_congr_left fun _ ↦ forall_congr' fun n ↦ forall_prop_of_true (Nat.zero_le n)

/-- With cooldowns that a double counts in seconds, and products of less than 2^63 seconds, there
is no level that does not fit. -/
theorem fits_of_le (hcooldown : config.maxCooldownSeconds ≤ 2 ^ 53)
    (hproduct : config.backoffMultiplier * config.maxCooldownSeconds ≤ 2 ^ 63) (level : ℕ) :
    config.Fits level := by
  have hsecs {n : ℕ} (hn : n ≤ 2 ^ 53) : asSecsF64 n = n := by
    rw [asSecsF64, Int.floor_natCast, Int.fract_natCast, nearest_zero, nearest_floor_natCast hn, add,
      add_zero, nearest_natCast hn]
  cases level with
  | zero => trivial
  | succ level =>
    obtain ⟨hpos, hcount, hmax⟩ : config.Kept (config.capped level) := kept_capped level
    constructor
    · have hle := config.cooldown_le_max.trans hcooldown
      have hone : (config.cooldownSeconds : ℚ) ≤
          config.backoffMultiplier * config.cooldownSeconds :=
        le_mul_of_one_le_left (Nat.cast_nonneg _) config.one_le_multiplier
      have hround := nearest_mono (Nat.cast_nonneg _) hone
      rw [nearest_natCast hle] at hround
      rw [productF64, hsecs hle, mul]
      calc (config.cooldownSeconds : ℚ)
        _ = fromSecsF64 (config.cooldownSeconds : ℤ) := (fromSecsF64_intCast _).symm
        _ ≤ _ := fromSecsF64_mono (by exact_mod_cast hround)
    · refine (productF64_mono (multiplier_nonneg config) hpos hcount hmax).trans_lt ?_
      rw [productF64, hsecs hcooldown, mul]
      refine (nearest_mono ?_ hproduct).trans_lt (by decide +kernel)
      exact mul_nonneg (multiplier_nonneg config) (Nat.cast_nonneg _)

end Backoff

/-- The cooldown of a backend is computed, is within its bounds, and is no shorter than that of a
lower level. -/
def CooldownInBounds (config : NormalizedConfig) (backend : BackendState) : Prop :=
  ∃ c, checkedCooldown config backend = some c ∧
    config.cooldownSeconds ≤ c ∧ c ≤ config.maxCooldownSeconds ∧
    ∀ lower : BackendState, lower.backoffLevel ≤ backend.backoffLevel →
      ∃ c', checkedCooldown config lower = some c' ∧ c' ≤ c

/-- A cooldown is not within its bounds exactly if the product of the level before is too long for a
`Duration`, although the cap would cut it, or if the first product is rounded to less than the
cooldown. -/
theorem cooldownInBounds_iff (config : HealthCheckConfig) (backend : BackendState) :
    CooldownInBounds (normalizeConfig config) backend ↔
      (normalizeConfig config).Fits backend.backoffLevel := by
  generalize normalizeConfig config = config
  constructor
  · rintro ⟨c, hc, hle, -, -⟩
    obtain ⟨hproducts, rfl⟩ := checkedCooldown_eq_some.mp hc
    change _ ≤ config.capped backend.backoffLevel at hle
    cases hlevel : backend.backoffLevel with
    | zero => trivial
    | succ level =>
      rw [hlevel] at hproducts hle
      refine ⟨capped_zero_le_one_iff.mp ?_, hproducts level (Nat.lt_succ_self level)⟩
      by_contra hbelow
      exact hbelow (hle.trans (capped_succ_le (not_le.mp hbelow).le level))
  · intro hfits
    refine ⟨_, checkedCooldown_eq_some.mpr ⟨fun n ↦ hfits.product_lt, rfl⟩,
      hfits.capped_le (Nat.zero_le _) le_rfl, (kept_capped _).2.2, fun lower hlower ↦ ?_⟩
    have hproducts (n : ℕ) (hn : n < lower.backoffLevel) :=
      hfits.product_lt (hn.trans_le hlower)
    exact ⟨_, checkedCooldown_eq_some.mpr ⟨hproducts, rfl⟩, hfits.capped_le hlower le_rfl⟩

def longCooldown : HealthCheckConfig where
  cooldownSeconds := 2 ^ 63
  maxCooldownSeconds := 2 ^ 63

def oddCooldown : HealthCheckConfig where
  cooldownSeconds := 2 ^ 54 + 1
  maxCooldownSeconds := 2 ^ 54 + 1
  backoffMultiplier := .finite 1

theorem long_cooldown_panics :
    checkedCooldown (normalizeConfig longCooldown) ⟨"", 3, some 0, 1, false⟩ = none ∧
      checkedCooldown (normalizeConfig oddCooldown) ⟨"", 3, some 0, 1, false⟩ = some (2 ^ 54) ∧
      ¬∀ (config : HealthCheckConfig) (backend : BackendState),
        CooldownInBounds (normalizeConfig config) backend := by
  have hnone : checkedCooldown (normalizeConfig longCooldown) ⟨"", 3, some 0, 1, false⟩ = none := by
    decide +kernel
  refine ⟨hnone, by decide +kernel, fun h ↦ ?_⟩
  obtain ⟨c, hc, -⟩ := h longCooldown ⟨"", 3, some 0, 1, false⟩
  cases hnone.symm.trans hc

end QueQiao.CircuitBreaker
