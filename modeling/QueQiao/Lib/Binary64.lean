import Mathlib.Algebra.Order.Field.Rat
import Mathlib.Algebra.Order.Ring.Rat
import Mathlib.Data.Int.Log
import Mathlib.Data.Multiset.Basic
import Mathlib.Data.Rat.Floor
import Mathlib.Tactic.Linarith
import Mathlib.Tactic.NormNum
import Mathlib.Tactic.Positivity

namespace QueQiao.Lib.Binary64

def roundEven (q : ℚ) : ℤ :=
  if q - ⌊q⌋ < 1 / 2 ∨ q - ⌊q⌋ = 1 / 2 ∧ ⌊q⌋ % 2 = 0 then ⌊q⌋ else ⌊q⌋ + 1

/-- The exponent of the last of 53 binary places, which goes down to that of the subnormals. -/
def ulpExponent (q : ℚ) : ℤ := max (Int.log 2 |q| - 52) (-1074)

/-- The nearest double, and of two the even one. There is no largest double here. -/
def nearest (q : ℚ) : ℚ := roundEven (q / 2 ^ ulpExponent q) * 2 ^ ulpExponent q

def add (x y : ℚ) : ℚ := nearest (x + y)

def mul (x y : ℚ) : ℚ := nearest (x * y)

/-- The number that a pattern of 64 bits stands for. An infinity is beyond all finite ones, and a
NaN is no number. -/
def ofBits (bits : UInt64) : Option ℚ :=
  let sign : ℚ := if bits.toNat < 2 ^ 63 then 1 else -1
  let exponent : ℕ := bits.toNat / 2 ^ 52 % 2 ^ 11
  let fraction : ℕ := bits.toNat % 2 ^ 52
  if exponent = 2047 then if fraction = 0 then some (sign * 2 ^ 1024) else none
  else if exponent = 0 then some (sign * fraction * 2 ^ (-1074 : ℤ))
  else some (sign * (2 ^ 52 + fraction) * 2 ^ ((exponent : ℤ) - 1075))

/-- The conversion to a signed integer of 64 bits: to zero, and to the ends where it is out of
range. -/
def toI64 (bits : UInt64) : ℤ :=
  match ofBits bits with
  | some q => max (-2 ^ 63) (min (2 ^ 63 - 1) (if 0 ≤ q then ⌊q⌋ else ⌈q⌉))
  | none => 0

example : ofBits 0x4004000000000000 = some 2.5 ∧ toI64 0xC004000000000000 = -2 := by decide +kernel

section Integers

theorem roundEven_intCast (n : ℤ) : roundEven n = n := by
  rw [roundEven, Int.floor_intCast, sub_self, if_pos (.inl (by norm_num))]

theorem floor_le_roundEven (q : ℚ) : ⌊q⌋ ≤ roundEven q := by
  rw [roundEven]
  split
  · exact le_rfl
  · exact Int.le_add_one le_rfl

theorem roundEven_le (q : ℚ) : roundEven q ≤ ⌊q⌋ + 1 := by
  rw [roundEven]
  split
  · exact Int.le_add_one le_rfl
  · exact le_rfl

theorem roundEven_mono {x y : ℚ} (h : x ≤ y) : roundEven x ≤ roundEven y := by
  rcases (Int.floor_mono h).lt_or_eq with hlt | heq
  · exact (roundEven_le x).trans (hlt.trans_le (floor_le_roundEven y))
  · rw [roundEven]
    split
    · exact heq.le.trans (floor_le_roundEven y)
    · rename_i hup
      rw [roundEven, if_neg, heq]
      rintro (hlow | ⟨htie, heven⟩)
      · exact hup (.inl (by rw [heq]; linarith))
      · rcases h.lt_or_eq with hxy | rfl
        · exact hup (.inl (by rw [heq]; linarith))
        · exact hup (.inr ⟨htie, heven⟩)

theorem roundEven_le_of_le {q : ℚ} {n : ℤ} (h : q ≤ n) : roundEven q ≤ n :=
  (roundEven_mono h).trans_eq (roundEven_intCast n)

theorem le_roundEven_of_le {q : ℚ} {n : ℤ} (h : (n : ℚ) ≤ q) : n ≤ roundEven q :=
  (roundEven_intCast n).symm.trans_le (roundEven_mono h)

end Integers

section Rounding

variable {x y : ℚ}

theorem lt_of_ulpExponent (hx : 0 < x) : x < 2 ^ (ulpExponent x + 53) := by
  have hlog := Int.lt_zpow_succ_log_self (b := 2) one_lt_two x
  rw [Nat.cast_ofNat] at hlog
  refine hlog.trans_le (zpow_le_zpow_right₀ one_le_two ?_)
  rw [ulpExponent, abs_of_pos hx]
  omega

theorem le_of_ulpExponent (hx : 0 < x) (h : -1074 < ulpExponent x) :
    2 ^ (ulpExponent x + 52) ≤ x := by
  have hlog := Int.zpow_log_le_self (b := 2) one_lt_two hx
  rw [Nat.cast_ofNat] at hlog
  refine le_trans (zpow_le_zpow_right₀ one_le_two ?_) hlog
  rw [ulpExponent, abs_of_pos hx] at h ⊢
  omega

theorem ulpExponent_mono (hx : 0 < x) (h : x ≤ y) : ulpExponent x ≤ ulpExponent y := by
  rw [ulpExponent, ulpExponent, abs_of_pos hx, abs_of_pos (hx.trans_le h)]
  have := Int.log_mono_right (b := 2) hx h
  omega

@[simp] theorem nearest_zero : nearest 0 = 0 := by
  have hzero : roundEven 0 = 0 := by exact_mod_cast roundEven_intCast 0
  rw [nearest, zero_div, hzero, Int.cast_zero, zero_mul]

theorem two_zpow_add (e : ℤ) (n : ℕ) : (2 : ℚ) ^ (e + n) = ((2 ^ n : ℤ) : ℚ) * 2 ^ e := by
  rw [zpow_add₀ two_ne_zero, zpow_natCast, mul_comm]
  push_cast
  rfl

theorem nearest_le_two_zpow {k : ℕ} (h : x ≤ 2 ^ (ulpExponent x + k)) :
    nearest x ≤ 2 ^ (ulpExponent x + k) := by
  have hpos : (0 : ℚ) < 2 ^ ulpExponent x := zpow_pos two_pos _
  rw [two_zpow_add] at h ⊢
  refine mul_le_mul_of_nonneg_right ?_ hpos.le
  exact_mod_cast roundEven_le_of_le ((div_le_iff₀ hpos).mpr h)

theorem two_zpow_le_nearest {k : ℕ} (h : 2 ^ (ulpExponent x + k) ≤ x) :
    2 ^ (ulpExponent x + k) ≤ nearest x := by
  have hpos : (0 : ℚ) < 2 ^ ulpExponent x := zpow_pos two_pos _
  rw [two_zpow_add] at h ⊢
  refine mul_le_mul_of_nonneg_right ?_ hpos.le
  exact_mod_cast le_roundEven_of_le ((le_div_iff₀ hpos).mpr h)

theorem nearest_nonneg (hx : 0 ≤ x) : 0 ≤ nearest x := by
  have hpos : (0 : ℚ) < 2 ^ ulpExponent x := zpow_pos two_pos _
  refine mul_nonneg ?_ hpos.le
  have hdiv : ((0 : ℤ) : ℚ) ≤ x / 2 ^ ulpExponent x := by
    rw [Int.cast_zero]
    exact div_nonneg hx hpos.le
  exact_mod_cast le_roundEven_of_le hdiv

/-- Rounding keeps the order. Two numbers of one exponent are rounded to the same places, and
between two exponents there is a power of two. -/
theorem nearest_mono (hx : 0 ≤ x) (h : x ≤ y) : nearest x ≤ nearest y := by
  rcases hx.eq_or_lt with rfl | hx
  · rw [nearest_zero]
    exact nearest_nonneg h
  rcases (ulpExponent_mono hx h).lt_or_eq with hlt | heq
  · have hbelow : -1074 ≤ ulpExponent x := le_max_right _ _
    have hmiddle : 2 ^ (ulpExponent x + (53 : ℕ)) ≤ (2 : ℚ) ^ (ulpExponent y + (52 : ℕ)) :=
      zpow_le_zpow_right₀ one_le_two (by omega)
    refine (nearest_le_two_zpow (k := 53) (lt_of_ulpExponent hx).le).trans (hmiddle.trans ?_)
    exact two_zpow_le_nearest (k := 52) (le_of_ulpExponent (hx.trans_le h) (by omega))
  · have hpos : (0 : ℚ) < 2 ^ ulpExponent y := zpow_pos two_pos _
    rw [nearest, nearest, heq]
    refine mul_le_mul_of_nonneg_right ?_ hpos.le
    exact_mod_cast roundEven_mono (div_le_div_of_nonneg_right h hpos.le)

theorem nearest_eq_of_dvd {n : ℤ} (h : x = n * 2 ^ ulpExponent x) : nearest x = x := by
  have hpos : (0 : ℚ) < 2 ^ ulpExponent x := zpow_pos two_pos _
  have hdiv : x / 2 ^ ulpExponent x = n := (div_eq_iff hpos.ne').mpr h
  rw [nearest, hdiv, roundEven_intCast, ← h]

theorem nearest_natCast {n : ℕ} (h : n ≤ 2 ^ 53) : nearest n = n := by
  rcases n.eq_zero_or_pos with rfl | hpos
  · rw [Nat.cast_zero, nearest_zero]
  have habs : |(n : ℚ)| = n := abs_of_pos (Nat.cast_pos.mpr hpos)
  have hlog : Int.log 2 (n : ℚ) = Nat.log 2 n := Int.log_natCast 2 n
  rcases h.lt_or_eq with hlt | rfl
  · have hexp : ulpExponent n ≤ 0 := by
      have hlt' : Nat.log 2 n < 53 := Nat.log_lt_of_lt_pow hpos.ne' hlt
      rw [ulpExponent, habs, hlog]
      omega
    refine nearest_eq_of_dvd (n := n * 2 ^ (-ulpExponent n).toNat) ?_
    have hexp' : ((-ulpExponent n).toNat : ℤ) = -ulpExponent n := Int.toNat_of_nonneg (by omega)
    push_cast
    rw [mul_assoc, ← zpow_natCast, hexp', ← zpow_add₀ two_ne_zero, neg_add_cancel, zpow_zero,
      mul_one]
  · decide +kernel

theorem exists_nearest_eq_intCast (h : 2 ^ 52 ≤ x) : ∃ n : ℤ, nearest x = n := by
  have hx : (0 : ℚ) < x := lt_of_lt_of_le (by norm_num) h
  have hexp : 0 ≤ ulpExponent x := by
    have hlog := Int.log_mono_right (b := 2) (by norm_num : (0 : ℚ) < 2 ^ 52) h
    have hself : Int.log 2 ((2 : ℚ) ^ 52) = 52 := by
      exact_mod_cast Int.log_zpow (R := ℚ) one_lt_two 52
    rw [ulpExponent, abs_of_pos hx]
    omega
  refine ⟨roundEven (x / 2 ^ ulpExponent x) * 2 ^ (ulpExponent x).toNat, ?_⟩
  have hexp' : ((ulpExponent x).toNat : ℤ) = ulpExponent x := Int.toNat_of_nonneg hexp
  rw [nearest]
  push_cast
  rw [← zpow_natCast, hexp']

end Rounding

section Sums

/-- A sum of doubles as the values that are added. What it comes to depends on the order, since
every addition rounds. -/
abbrev FloatSum := Multiset ℚ

def FloatSum.of (v : Option ℚ) : FloatSum := v.elim 0 fun v ↦ {v}

inductive SumsTo : FloatSum → ℚ → Prop
  | zero : SumsTo 0 0
  | value (v : ℚ) : SumsTo {v} v
  | add {s t : FloatSum} {x y : ℚ} (hs : SumsTo s x) (ht : SumsTo t y) : SumsTo (s + t) (add x y)

def sum (values : List ℚ) : ℚ := values.foldl add 0

theorem SumsTo.foldl {s : FloatSum} {x : ℚ} (h : SumsTo s x) (values : List ℚ) :
    SumsTo (s + values) (values.foldl Binary64.add x) := by
  induction values generalizing s x with
  | nil => rwa [Multiset.coe_nil, add_zero]
  | cons v values ih =>
    rw [← Multiset.cons_coe, ← Multiset.singleton_add, ← add_assoc, List.foldl_cons]
    exact ih (h.add (.value v))

theorem sumsTo_sum (values : List ℚ) : SumsTo values (sum values) := by
  have h := SumsTo.zero.foldl values
  rwa [zero_add] at h

theorem SumsTo.sum {α : Type*} {bag : α → FloatSum} {float : α → ℚ} {l : List α}
    (h : ∀ a ∈ l, SumsTo (bag a) (float a)) :
    SumsTo (l.map bag).sum (Binary64.sum (l.map float)) := by
  have hfrom (s : FloatSum) (x : ℚ) (hx : SumsTo s x) :
      SumsTo (s + (l.map bag).sum) ((l.map float).foldl Binary64.add x) := by
    induction l generalizing s x with
    | nil => rwa [List.map_nil, List.sum_nil, add_zero]
    | cons a l ih =>
      rw [List.map_cons, List.map_cons, List.sum_cons, ← add_assoc, List.foldl_cons]
      exact ih (fun b hb ↦ h b (List.mem_cons_of_mem a hb)) _ _
        (hx.add (h a List.mem_cons_self))
  have hzero := hfrom 0 0 .zero
  rwa [zero_add] at hzero

example : add (nearest 0.1) (add (nearest 0.2) (nearest 0.3)) ≠
    sum [nearest 0.1, nearest 0.2, nearest 0.3] := by
  decide +kernel

end Sums

end QueQiao.Lib.Binary64
