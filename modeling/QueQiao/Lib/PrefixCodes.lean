import Mathlib.Algebra.Order.Group.Nat
import Mathlib.Data.Set.Function

/-! Codes that end where they end, whatever follows them. -/

namespace QueQiao.Lib.PrefixCodes

variable {α β σ : Type*}

/-- Among the values that `p` holds of, a code and what follows it tell each other apart. -/
def SelfDelimiting (p : α → Prop) (encode : α → List σ) : Prop :=
  ∀ a b r r', p a → p b → encode a ++ r = encode b ++ r' → a = b ∧ r = r'

variable {p : α → Prop} {q : β → Prop} {encode : α → List σ}

theorem selfDelimiting_of_length {n : ℕ} (hlength : ∀ a, (encode a).length = n)
    (hinj : Set.InjOn encode {a | p a}) : SelfDelimiting p encode := by
  intro a b r r' ha hb heq
  obtain ⟨hcode, hrest⟩ := List.append_inj heq ((hlength a).trans (hlength b).symm)
  exact ⟨hinj ha hb hcode, hrest⟩

theorem SelfDelimiting.header {head : β → List σ} {key : α → β} {body : α → List σ}
    (hhead : SelfDelimiting q head) (hkey : ∀ a, p a → q (key a))
    (hlength : ∀ a b, p a → p b → key a = key b → (body a).length = (body b).length)
    (hbody : ∀ a b, p a → p b → key a = key b → body a = body b → a = b) :
    SelfDelimiting p fun a ↦ head (key a) ++ body a := by
  intro a b r r' ha hb heq
  rw [List.append_assoc, List.append_assoc] at heq
  obtain ⟨hk, heq⟩ := hhead _ _ _ _ (hkey a ha) (hkey b hb) heq
  obtain ⟨hb', hrest⟩ := List.append_inj heq (hlength a b ha hb hk)
  exact ⟨hbody a b ha hb hk hb', hrest⟩

theorem SelfDelimiting.flatMap_inj (h : SelfDelimiting p encode) (hne : ∀ a, encode a ≠ [])
    {as bs : List α} (has : ∀ a ∈ as, p a) (hbs : ∀ b ∈ bs, p b)
    (heq : as.flatMap encode = bs.flatMap encode) : as = bs := by
  induction as generalizing bs with
  | nil =>
    cases bs with
    | nil => rfl
    | cons b bs =>
      rw [List.flatMap_nil, List.flatMap_cons] at heq
      exact absurd (List.append_eq_nil_iff.mp heq.symm).1 (hne b)
  | cons a as ih =>
    obtain ⟨ha, hleft⟩ := List.forall_mem_cons.mp has
    cases bs with
    | nil =>
      rw [List.flatMap_nil, List.flatMap_cons] at heq
      exact absurd (List.append_eq_nil_iff.mp heq).1 (hne a)
    | cons b bs =>
      obtain ⟨hb, hright⟩ := List.forall_mem_cons.mp hbs
      rw [List.flatMap_cons, List.flatMap_cons] at heq
      obtain ⟨rfl, hrest⟩ := h a b _ _ ha hb heq
      rw [ih hleft hright hrest]

/-- The last `k` bytes of a number, the last one first. -/
def leBytes : ℕ → ℕ → List UInt8
  | 0, _ => []
  | k + 1, n => UInt8.ofNat n :: leBytes k (n / 256)

theorem length_leBytes (k n : ℕ) : (leBytes k n).length = k := by
  induction k generalizing n with
  | zero => rfl
  | succ k ih => rw [leBytes, List.length_cons, ih]

theorem leBytes_inj {k n m : ℕ} (hn : n < 256 ^ k) (hm : m < 256 ^ k)
    (h : leBytes k n = leBytes k m) : n = m := by
  induction k generalizing n m with
  | zero =>
    rw [pow_zero] at hn hm
    omega
  | succ k ih =>
    rw [pow_succ] at hn hm
    obtain ⟨hlow, hhigh⟩ := List.cons.inj h
    have hmod : n % 256 = m % 256 := congrArg UInt8.toNat hlow
    have hdiv : n / 256 = m / 256 :=
      ih (Nat.div_lt_of_lt_mul (by omega)) (Nat.div_lt_of_lt_mul (by omega)) hhigh
    omega

theorem selfDelimiting_leBytes (k : ℕ) : SelfDelimiting (· < 256 ^ k) (leBytes k) :=
  selfDelimiting_of_length (length_leBytes k) fun _ hn _ hm h ↦ leBytes_inj hn hm h

end QueQiao.Lib.PrefixCodes
