import Mathlib.Algebra.GroupWithZero.Nat
import Mathlib.Data.List.Infix
import Mathlib.Data.Nat.Find

/-! Texts that are indexed by bytes of UTF-8. An index inside a character, or behind the end, is a
fault. -/

namespace QueQiao.Lib.ByteIndex

abbrev Chars := List Char

def byteLen (s : Chars) : ℕ := (s.map Char.utf8Size).sum

@[simp] theorem byteLen_nil : byteLen [] = 0 := rfl

@[simp] theorem byteLen_cons (c : Char) (s : Chars) : byteLen (c :: s) = c.utf8Size + byteLen s := by
  rw [byteLen, List.map_cons, List.sum_cons, byteLen]

@[simp] theorem byteLen_append (s t : Chars) : byteLen (s ++ t) = byteLen s + byteLen t := by
  rw [byteLen, List.map_append, List.sum_append, byteLen, byteLen]

theorem length_le_byteLen (s : Chars) : s.length ≤ byteLen s := by
  induction s with
  | nil => exact Nat.le_refl _
  | cons c s ih =>
    have hpos := c.utf8Size_pos
    rw [List.length_cons, byteLen_cons]
    omega

def bytes (s : Chars) : List UInt8 := s.flatMap String.utf8EncodeChar

def ascii (c : Char) : UInt8 := UInt8.ofNat c.toNat

theorem bytes_append (s t : Chars) : bytes (s ++ t) = bytes s ++ bytes t := List.flatMap_append

theorem length_bytes (s : Chars) : (bytes s).length = byteLen s := by
  induction s with
  | nil => rfl
  | cons c s ih =>
    rw [bytes, List.flatMap_cons, List.length_append, String.length_utf8EncodeChar, byteLen_cons]
    exact congrArg _ ih

theorem byteLen_toList (s : String) : byteLen s.toList = s.utf8ByteSize := by
  rw [← length_bytes, ← String.size_toByteArray, ← String.utf8Encode_toList]
  exact List.size_toByteArray.symm

theorem getElem?_bytes_append (a b : Chars) (k : ℕ) :
    (bytes (a ++ b))[byteLen a + k]? = (bytes b)[k]? := by
  rw [bytes_append, ← length_bytes, List.getElem?_append_right (Nat.le_add_right _ _),
    Nat.add_sub_cancel_left]

theorem getElem?_bytes_boundary (a b : Chars) : (bytes (a ++ b))[byteLen a]? = (bytes b)[0]? :=
  getElem?_bytes_append a b 0

theorem bytes_injective : Function.Injective bytes := by
  intro s t h
  have hencode : s.utf8Encode = t.utf8Encode := congrArg List.toByteArray h
  rw [← String.toByteArray_ofList, ← String.toByteArray_ofList, String.toByteArray_inj] at hencode
  exact String.ofList_injective hencode

theorem utf8EncodeChar_ascii {c : Char} (h : c.toNat < 128) :
    String.utf8EncodeChar c = [ascii c] := by
  have hv : c.val.toNat ≤ 0x7f := by
    have : c.toNat = c.val.toNat := rfl
    omega
  rw [String.utf8EncodeChar, if_pos hv]
  rfl

theorem utf8Size_ascii {c : Char} (h : c.toNat < 128) : c.utf8Size = 1 := by
  rw [← String.length_utf8EncodeChar, utf8EncodeChar_ascii h]
  rfl

theorem bytes_cons_ascii {c : Char} (h : c.toNat < 128) (s : Chars) :
    bytes (c :: s) = ascii c :: bytes s := by
  rw [bytes, List.flatMap_cons, utf8EncodeChar_ascii h]
  rfl

theorem le_utf8EncodeChar_wide {c : Char} (h : 128 ≤ c.toNat) :
    ∀ b ∈ String.utf8EncodeChar c, 128 ≤ b.toNat := by
  have hv : ¬c.val.toNat ≤ 0x7f := by
    have : c.toNat = c.val.toNat := rfl
    omega
  have hmod {n m k : ℕ} (hk : 128 ≤ k) (hsum : m + k ≤ 256) (hm : 0 < m) :
      128 ≤ (UInt8.ofNat (n % m + k)).toNat := by
    have hlt := Nat.mod_lt n hm
    rw [UInt8.toNat_ofNat', Nat.mod_eq_of_lt (by omega)]
    omega
  rw [String.utf8EncodeChar, if_neg hv]
  split_ifs
  · simp only [List.forall_mem_cons]
    exact ⟨hmod (by omega) (by omega) (by omega), hmod (by omega) (by omega) (by omega),
      List.forall_mem_nil _⟩
  · simp only [List.forall_mem_cons]
    exact ⟨hmod (by omega) (by omega) (by omega), hmod (by omega) (by omega) (by omega),
      hmod (by omega) (by omega) (by omega), List.forall_mem_nil _⟩
  · simp only [List.forall_mem_cons]
    exact ⟨hmod (by omega) (by omega) (by omega), hmod (by omega) (by omega) (by omega),
      hmod (by omega) (by omega) (by omega), hmod (by omega) (by omega) (by omega),
      List.forall_mem_nil _⟩

theorem two_le_utf8Size {c : Char} (h : 128 ≤ c.toNat) : 2 ≤ c.utf8Size := by
  have hv : ¬c.val.toNat ≤ 0x7f := by
    have : c.toNat = c.val.toNat := rfl
    omega
  rw [← String.length_utf8EncodeChar, String.utf8EncodeChar, if_neg hv]
  split_ifs
  · exact Nat.le_refl 2
  · exact Nat.le_succ 2
  · exact Nat.le_add_right 2 2

theorem utf8EncodeChar_wide {c : Char} (h : 128 ≤ c.toNat) :
    ∃ b₀ b₁ bs, String.utf8EncodeChar c = b₀ :: b₁ :: bs ∧ 128 ≤ b₀.toNat ∧ 128 ≤ b₁.toNat := by
  have hbytes := le_utf8EncodeChar_wide h
  have htwo := two_le_utf8Size h
  rw [← String.length_utf8EncodeChar] at htwo
  generalize String.utf8EncodeChar c = encoded at hbytes htwo
  rcases encoded with _ | ⟨b₀, _ | ⟨b₁, bs⟩⟩
  · exact absurd htwo (Nat.not_succ_le_zero 1)
  · exact absurd htwo (Nat.not_succ_le_self 1)
  · exact ⟨b₀, b₁, bs, rfl, hbytes b₀ List.mem_cons_self,
      hbytes b₁ (List.mem_cons_of_mem _ List.mem_cons_self)⟩

theorem bytes_cons_wide {c : Char} (h : 128 ≤ c.toNat) (s : Chars) :
    ∃ b₀ b₁ bs, bytes (c :: s) = b₀ :: b₁ :: bs ∧ 128 ≤ b₀.toNat ∧ 128 ≤ b₁.toNat := by
  obtain ⟨b₀, b₁, bs, hc, h₀, h₁⟩ := utf8EncodeChar_wide h
  refine ⟨b₀, b₁, bs ++ bytes s, ?_, h₀, h₁⟩
  rw [bytes, List.flatMap_cons, hc]
  rfl

theorem ascii_inj {c d : Char} (hc : c.toNat < 128) (hd : d.toNat < 128) :
    ascii c = ascii d ↔ c = d := by
  constructor
  · intro h
    have hnat := congrArg UInt8.toNat h
    rw [ascii, ascii, UInt8.toNat_ofNat', UInt8.toNat_ofNat', Nat.mod_eq_of_lt (by omega),
      Nat.mod_eq_of_lt (by omega)] at hnat
    exact Char.toNat_inj.mp hnat
  · exact congrArg ascii

theorem ne_ascii {b : UInt8} (h : 128 ≤ b.toNat) {c : Char} (hc : c.toNat < 128) :
    b ≠ ascii c := by
  intro heq
  rw [heq, ascii, UInt8.toNat_ofNat', Nat.mod_eq_of_lt (by omega)] at h
  omega

theorem head_byte (c : Char) (s : Chars) :
    ∃ b, (bytes (c :: s))[0]? = some b ∧ ∀ d : Char, d.toNat < 128 → (b = ascii d ↔ c = d) := by
  by_cases hc : c.toNat < 128
  · refine ⟨ascii c, by rw [bytes_cons_ascii hc, List.getElem?_cons_zero], fun d hd ↦ ?_⟩
    exact ascii_inj hc hd
  · obtain ⟨b₀, b₁, bs, hbytes, h₀, -⟩ := bytes_cons_wide (Nat.le_of_not_lt hc) s
    refine ⟨b₀, by rw [hbytes, List.getElem?_cons_zero], fun d hd ↦ ?_⟩
    refine iff_of_false (ne_ascii h₀ hd) ?_
    rintro rfl
    exact hc hd

theorem exists_suffix_of_ascii {u : List UInt8} {s : Chars} (h : u <:+ bytes s)
    (hu : ∀ b ∈ u, b.toNat < 128) : ∃ t, t <:+ s ∧ bytes t = u := by
  induction s with
  | nil => exact ⟨[], List.suffix_rfl, (List.suffix_nil.mp h).symm⟩
  | cons c s ih =>
    have hcons : bytes (c :: s) = String.utf8EncodeChar c ++ bytes s := rfl
    rw [hcons] at h
    rcases Nat.lt_or_ge (bytes s).length u.length with hlt | hle
    · have hs : bytes s <:+ u :=
        List.suffix_of_suffix_length_le (List.suffix_append _ _) h hlt.le
      obtain ⟨v, rfl⟩ := hs
      have hv : v <:+ String.utf8EncodeChar c := List.suffix_append_self_iff.mp h
      have hne : v ≠ [] := by
        rintro rfl
        exact absurd hlt (Nat.lt_irrefl _)
      obtain ⟨b, hb⟩ := List.exists_mem_of_ne_nil v hne
      have hascii := hu b (List.mem_append_left _ hb)
      have hc : c.toNat < 128 := by
        by_contra hwide
        have hle := le_utf8EncodeChar_wide (Nat.le_of_not_lt hwide) b (hv.subset hb)
        omega
      rw [utf8EncodeChar_ascii hc] at hv
      have hone : v = [ascii c] :=
        hv.eq_of_length_le (Nat.one_le_iff_ne_zero.mpr (mt List.eq_nil_of_length_eq_zero hne))
      exact ⟨c :: s, List.suffix_rfl, by rw [hone, bytes_cons_ascii hc]; rfl⟩
    · obtain ⟨t, ht, hbytes⟩ := ih (List.suffix_of_suffix_length_le h (List.suffix_append _ _) hle)
      exact ⟨t, ht.trans (List.suffix_cons c s), hbytes⟩

section Ascii

variable {m s t : Chars}

def Ascii (t : Chars) : Prop := ∀ c ∈ t, c.toNat < 128

instance (t : Chars) : Decidable (Ascii t) := List.decidableBAll _ t

theorem Ascii.of_prefix (h : Ascii m) (ht : t <+: m) : Ascii t :=
  fun c hc ↦ h c (ht.subset hc)

theorem bytes_of_ascii (h : Ascii t) : bytes t = t.map ascii := by
  induction t with
  | nil => rfl
  | cons c t ih =>
    obtain ⟨hc, ht⟩ := List.forall_mem_cons.mp h
    rw [bytes_cons_ascii hc, ih ht, List.map_cons]

theorem byteLen_of_ascii (h : Ascii t) : byteLen t = t.length := by
  rw [← length_bytes, bytes_of_ascii h, List.length_map]

theorem bytes_prefix_iff (h : Ascii m) : bytes t <+: bytes m ↔ t <+: m := by
  constructor
  · intro hpre
    have htake := List.prefix_iff_eq_take.mp hpre
    rw [bytes_of_ascii h, ← List.map_take, ← bytes_of_ascii (h.of_prefix (List.take_prefix _ _))]
      at htake
    rw [bytes_injective htake]
    exact List.take_prefix _ _
  · rintro ⟨r, rfl⟩
    rw [bytes_append]
    exact List.prefix_append _ _

theorem bytes_suffix (h : t <:+ s) : bytes t <:+ bytes s := by
  obtain ⟨r, rfl⟩ := h
  rw [bytes_append]
  exact List.suffix_append _ _

/-- Bytes at the end of a text that are the first ones of a text of ASCII are its last characters. -/
theorem exists_suffix_of_bytes (h : Ascii m) {u : List UInt8} (hs : u <:+ bytes s)
    (hm : u <+: bytes m) : ∃ t, bytes t = u ∧ t <:+ s ∧ t <+: m := by
  have hu : ∀ b ∈ u, b.toNat < 128 := by
    intro b hb
    rw [bytes_of_ascii h] at hm
    obtain ⟨c, hc, rfl⟩ := List.mem_map.mp (hm.subset hb)
    have hascii := h c hc
    rw [ascii, UInt8.toNat_ofNat', Nat.mod_eq_of_lt (by omega)]
    exact hascii
  obtain ⟨t, ht, rfl⟩ := exists_suffix_of_ascii hs hu
  exact ⟨t, rfl, ht, (bytes_prefix_iff h).mp hm⟩

end Ascii

inductive Fault
  | outOfBounds
  | notBoundary
  deriving DecidableEq, Repr

/-- The two sides of the index `i`. -/
def cut : Chars → ℕ → Except Fault (Chars × Chars)
  | s, 0 => .ok ([], s)
  | [], _ + 1 => .error .outOfBounds
  | c :: s, i + 1 =>
    if c.utf8Size ≤ i + 1 then
      (cut s (i + 1 - c.utf8Size)).map fun t ↦ (c :: t.1, t.2)
    else .error .notBoundary

def sliceFrom (s : Chars) (i : ℕ) : Except Fault Chars := (cut s i).map (·.2)

def sliceTo (s : Chars) (i : ℕ) : Except Fault Chars := (cut s i).map (·.1)

def slice (s : Chars) (i j : ℕ) : Except Fault Chars :=
  if j < i then .error .outOfBounds else (sliceFrom s i).bind fun t ↦ sliceTo t (j - i)

def checkedSub (n k : ℕ) : Except Fault ℕ := if k ≤ n then .ok (n - k) else .error .outOfBounds

theorem ok_bind {ε α β : Type} (a : α) (f : α → Except ε β) : (Except.ok a >>= f) = f a := rfl

theorem checkedSub_of_le {n k : ℕ} (h : k ≤ n) : checkedSub n k = .ok (n - k) := if_pos h

theorem checkedSub_add (n k : ℕ) : checkedSub (n + k) k = .ok n := by
  rw [checkedSub_of_le (Nat.le_add_left k n), Nat.add_sub_cancel]

def isCharBoundary (s : Chars) (i : ℕ) : Bool := (cut s i).isOk

theorem cut_cons {c : Char} {i : ℕ} (h : c.utf8Size ≤ i) (s : Chars) :
    cut (c :: s) i = (cut s (i - c.utf8Size)).map fun t ↦ (c :: t.1, t.2) := by
  have hpos := c.utf8Size_pos
  obtain ⟨n, rfl⟩ : ∃ n, i = n + 1 := ⟨i - 1, by omega⟩
  rw [cut, if_pos h]

theorem cut_append (a b : Chars) : cut (a ++ b) (byteLen a) = .ok (a, b) := by
  induction a with
  | nil => cases b <;> rfl
  | cons c a ih =>
    rw [List.cons_append, byteLen_cons, cut_cons (Nat.le_add_right _ _), Nat.add_sub_cancel_left,
      ih]
    rfl

theorem eq_of_cut_eq_ok {s a b : Chars} {i : ℕ} (h : cut s i = .ok (a, b)) :
    s = a ++ b ∧ byteLen a = i := by
  induction s generalizing i a with
  | nil =>
    cases i with
    | zero =>
      cases h
      exact ⟨rfl, rfl⟩
    | succ i => cases h
  | cons c s ih =>
    cases i with
    | zero =>
      cases h
      exact ⟨rfl, rfl⟩
    | succ i =>
      rw [cut] at h
      split_ifs at h with hc
      cases hcut : cut s (i + 1 - c.utf8Size) with
      | error e =>
        rw [hcut] at h
        cases h
      | ok t =>
        rw [hcut] at h
        cases h
        obtain ⟨hs, hlen⟩ := ih hcut
        refine ⟨congrArg (c :: ·) hs, ?_⟩
        rw [byteLen_cons, hlen]
        omega

theorem cut_inside (a b : Chars) {c : Char} {i : ℕ} (hpos : 0 < i) (hi : i < c.utf8Size) :
    cut (a ++ c :: b) (byteLen a + i) = .error .notBoundary := by
  induction a with
  | nil =>
    obtain ⟨n, rfl⟩ : ∃ n, i = n + 1 := ⟨i - 1, by omega⟩
    rw [byteLen_nil, Nat.zero_add, List.nil_append, cut, if_neg (by omega)]
  | cons d a ih =>
    rw [List.cons_append, byteLen_cons, Nat.add_assoc, cut_cons (Nat.le_add_right _ _),
      Nat.add_sub_cancel_left, ih]
    rfl

theorem sliceFrom_append (a b : Chars) : sliceFrom (a ++ b) (byteLen a) = .ok b := by
  rw [sliceFrom, cut_append]
  rfl

theorem sliceTo_append (a b : Chars) : sliceTo (a ++ b) (byteLen a) = .ok a := by
  rw [sliceTo, cut_append]
  rfl

theorem slice_append (a b c : Chars) :
    slice (a ++ (b ++ c)) (byteLen a) (byteLen a + byteLen b) = .ok b := by
  rw [slice, if_neg (by omega), sliceFrom_append, Nat.add_sub_cancel_left]
  exact sliceTo_append b c

theorem sliceFrom_inside (a b : Chars) {c : Char} {i : ℕ} (hpos : 0 < i) (hi : i < c.utf8Size) :
    sliceFrom (a ++ c :: b) (byteLen a + i) = .error .notBoundary := by
  rw [sliceFrom, cut_inside a b hpos hi]
  rfl

theorem findGreatest_isCharBoundary {a b : Chars} {c : Char} {n : ℕ} (ha : byteLen a ≤ n)
    (hn : n < byteLen a + c.utf8Size) :
    n.findGreatest (fun i ↦ isCharBoundary (a ++ c :: b) i) = byteLen a := by
  rw [Nat.findGreatest_eq_iff]
  refine ⟨ha, fun _ ↦ ?_, fun k hk hkn ↦ ?_⟩
  · rw [isCharBoundary, cut_append]
    rfl
  · obtain ⟨i, rfl⟩ := Nat.exists_eq_add_of_lt hk
    rw [isCharBoundary, Nat.add_assoc, cut_inside a b (by omega) (by omega)]
    exact Bool.false_ne_true

theorem isCharBoundary_iff {s : Chars} {i : ℕ} :
    isCharBoundary s i = true ↔ ∃ a b, s = a ++ b ∧ byteLen a = i := by
  constructor
  · intro h
    rw [isCharBoundary] at h
    cases hcut : cut s i with
    | error e =>
      rw [hcut] at h
      cases h
    | ok t => exact ⟨t.1, t.2, eq_of_cut_eq_ok hcut⟩
  · rintro ⟨a, b, rfl, rfl⟩
    rw [isCharBoundary, cut_append]
    rfl

theorem isCharBoundary_zero (s : Chars) : isCharBoundary s 0 = true :=
  isCharBoundary_iff.mpr ⟨[], s, rfl, rfl⟩

theorem isCharBoundary_byteLen (s : Chars) : isCharBoundary s (byteLen s) = true :=
  isCharBoundary_iff.mpr ⟨s, [], (List.append_nil s).symm, rfl⟩

theorem isCharBoundary_of_stop {s : Chars} {i : ℕ} (h : i ≤ byteLen s)
    (hstop : ¬(i < byteLen s ∧ isCharBoundary s i = false)) : isCharBoundary s i = true := by
  rcases Nat.lt_or_eq_of_le h with hlt | rfl
  · by_contra hnot
    exact hstop ⟨hlt, Bool.not_eq_true _ ▸ hnot⟩
  · exact isCharBoundary_byteLen s

/-- `while i > 0 && !s.is_char_boundary(i) { i -= 1 }` -/
def boundaryDown (s : Chars) : ℕ → ℕ
  | 0 => 0
  | i + 1 => if isCharBoundary s (i + 1) then i + 1 else boundaryDown s i

/-- `while i < s.len() && !s.is_char_boundary(i) { i += 1 }` -/
def boundaryUp (s : Chars) (i : ℕ) : ℕ :=
  if i < byteLen s ∧ isCharBoundary s i = false then boundaryUp s (i + 1) else i
termination_by byteLen s - i

/-- `while !s.is_char_boundary(i) { i -= 1 }` -/
def lastBoundary (s : Chars) : ℕ → Except Fault ℕ
  | 0 => if isCharBoundary s 0 then .ok 0 else .error .outOfBounds
  | i + 1 => if isCharBoundary s (i + 1) then .ok (i + 1) else lastBoundary s i

/-- `while !s.is_char_boundary(i) { i += 1 }`, which does not end behind the text. -/
def nextBoundary (s : Chars) (i : ℕ) : Except Fault ℕ :=
  if isCharBoundary s i then .ok i
  else if i < byteLen s then nextBoundary s (i + 1) else .error .outOfBounds
termination_by byteLen s - i

theorem boundaryDown_eq (s : Chars) (n : ℕ) :
    boundaryDown s n = n.findGreatest fun i ↦ isCharBoundary s i := by
  induction n with
  | zero => rfl
  | succ n ih => rw [boundaryDown, Nat.findGreatest_succ, ih]

theorem lastBoundary_eq (s : Chars) (n : ℕ) : lastBoundary s n = .ok (boundaryDown s n) := by
  induction n with
  | zero => rw [lastBoundary, if_pos (isCharBoundary_zero s), boundaryDown]
  | succ n ih => rw [lastBoundary, boundaryDown, ih, apply_ite Except.ok]

theorem nextBoundary_eq {s : Chars} {i : ℕ} (h : i ≤ byteLen s) :
    nextBoundary s i = .ok (boundaryUp s i) := by
  fun_induction boundaryUp s i with
  | case1 i hi ih =>
    rw [nextBoundary, if_neg (by simp [hi.2]), if_pos hi.1]
    exact ih hi.1
  | case2 i hi =>
    rw [nextBoundary, if_pos (isCharBoundary_of_stop h hi)]

theorem exists_boundaryDown (s : Chars) (n : ℕ) :
    ∃ a b, s = a ++ b ∧ boundaryDown s n = byteLen a ∧ byteLen a ≤ n := by
  induction n with
  | zero => exact ⟨[], s, rfl, rfl, Nat.le_refl 0⟩
  | succ n ih =>
    rw [boundaryDown]
    split_ifs with h
    · obtain ⟨a, b, hs, ha⟩ := isCharBoundary_iff.mp h
      exact ⟨a, b, hs, ha.symm, ha.le⟩
    · obtain ⟨a, b, hs, heq, hle⟩ := ih
      exact ⟨a, b, hs, heq, Nat.le_succ_of_le hle⟩

theorem exists_boundaryUp {s : Chars} {i : ℕ} (h : i ≤ byteLen s) :
    ∃ a b, s = a ++ b ∧ boundaryUp s i = byteLen a ∧ i ≤ byteLen a := by
  fun_induction boundaryUp s i with
  | case1 i hi ih =>
    obtain ⟨a, b, hs, heq, hle⟩ := ih hi.1
    exact ⟨a, b, hs, heq, Nat.le_of_succ_le hle⟩
  | case2 i hi =>
    obtain ⟨a, b, hs, ha⟩ := isCharBoundary_iff.mp (isCharBoundary_of_stop h hi)
    exact ⟨a, b, hs, ha.symm, ha.ge⟩

/-- The characters that fit into `n` bytes. -/
def takeFit : ℕ → Chars → Chars
  | _, [] => []
  | n, c :: s => if c.utf8Size ≤ n then c :: takeFit (n - c.utf8Size) s else []

theorem takeFit_split {n : ℕ} {s : Chars} (h : n < byteLen s) :
    ∃ c rest, s = takeFit n s ++ c :: rest ∧ byteLen (takeFit n s) ≤ n ∧
      n < byteLen (takeFit n s) + c.utf8Size := by
  induction s generalizing n with
  | nil => exact absurd h (Nat.not_lt_zero n)
  | cons c s ih =>
    rw [byteLen_cons] at h
    rw [takeFit]
    by_cases hc : c.utf8Size ≤ n
    · obtain ⟨d, rest, hs, hle, hlt⟩ := ih (n := n - c.utf8Size) (by omega)
      rw [if_pos hc]
      refine ⟨d, rest, congrArg (c :: ·) hs, ?_, ?_⟩
      · rw [byteLen_cons]
        omega
      · rw [byteLen_cons]
        omega
    · rw [if_neg hc]
      exact ⟨c, s, rfl, Nat.zero_le n, by rw [byteLen_nil]; omega⟩

theorem sliceTo_takeFit {n : ℕ} {s : Chars} (h : n < byteLen s) :
    sliceTo s (boundaryDown s n) = .ok (takeFit n s) := by
  obtain ⟨c, rest, hs, hle, hlt⟩ := takeFit_split h
  have hstop := findGreatest_isCharBoundary (b := rest) hle hlt
  have hto := sliceTo_append (takeFit n s) (c :: rest)
  rw [← hs] at hstop hto
  rw [boundaryDown_eq, hstop, hto]

/-- A computation that faults when `p` holds, and has the value `a` otherwise. -/
structure FaultsWhen {ε α : Type} (fault : ε) (p : Prop) (x : Except ε α) (a : α) : Prop where
  error : p → x = .error fault
  ok : ¬p → x = .ok a

namespace FaultsWhen

variable {ε α β : Type} {fault : ε} {p q : Prop} {x : Except ε α} {a : α}

theorem pure (a : α) : FaultsWhen fault False (.ok a) a := ⟨False.elim, fun _ ↦ rfl⟩

theorem of_eq (h : x = .ok a) : FaultsWhen fault False x a := ⟨False.elim, fun _ ↦ h⟩

theorem congr (h : FaultsWhen fault p x a) (hpq : q ↔ p) : FaultsWhen fault q x a :=
  ⟨fun hq ↦ h.error (hpq.mp hq), fun hq ↦ h.ok (mt hpq.mpr hq)⟩

theorem bind {f : α → Except ε β} {b : β} (hx : FaultsWhen fault p x a)
    (hf : FaultsWhen fault q (f a) b) : FaultsWhen fault (p ∨ q) (x.bind f) b := by
  by_cases hp : p
  · rw [hx.error hp]
    exact ⟨fun _ ↦ rfl, fun h ↦ absurd (.inl hp) h⟩
  · rw [hx.ok hp]
    exact hf.congr (or_iff_right hp)

theorem map (f : α → β) (hx : FaultsWhen fault p x a) :
    FaultsWhen fault p (x.map f) (f a) := by
  constructor
  · intro hp
    rw [hx.error hp]
    rfl
  · intro hp
    rw [hx.ok hp]
    rfl

theorem bindSome {o : Option α} {x : OptionT (Except ε) α} {f : α → OptionT (Except ε) β}
    {g : α → Option β} {r : α → Prop} (hx : FaultsWhen fault p x.run o)
    (hf : ∀ v, o = some v → FaultsWhen fault (r v) (f v).run (g v)) :
    FaultsWhen fault (p ∨ ∃ v, o = some v ∧ r v) (x >>= f).run (o >>= g) := by
  rw [OptionT.run_bind]
  refine hx.bind ?_
  cases o with
  | none => exact (FaultsWhen.pure none).congr (by simp)
  | some v => exact (hf v rfl).congr (by simp)

theorem bindLift {f : α → OptionT (Except ε) β} {b : Option β} (hx : FaultsWhen fault p x a)
    (hf : FaultsWhen fault q (f a).run b) :
    FaultsWhen fault (p ∨ q) (OptionT.lift x >>= f).run b := by
  by_cases hp : p
  · rw [hx.error hp]
    exact ⟨fun _ ↦ rfl, fun h ↦ absurd (.inl hp) h⟩
  · rw [hx.ok hp]
    exact hf.congr (or_iff_right hp)

theorem isOk_iff (h : FaultsWhen fault p x a) : (∃ b, x = .ok b) ↔ ¬p := by
  constructor
  · rintro ⟨b, hb⟩ hp
    rw [h.error hp] at hb
    cases hb
  · exact fun hp ↦ ⟨a, h.ok hp⟩

end FaultsWhen

/-- The index of the first character that `p` accepts. -/
def findIndex (p : Char → Bool) : Chars → Option ℕ
  | [] => none
  | c :: s => if p c then some 0 else (findIndex p s).map (· + c.utf8Size)

theorem findIndex_eq_none {p : Char → Bool} {s : Chars} :
    findIndex p s = none ↔ ∀ c ∈ s, p c = false := by
  induction s with
  | nil => simp [findIndex]
  | cons c s ih =>
    rw [findIndex, List.forall_mem_cons, ← ih]
    cases p c <;> simp

theorem findIndex_eq (p : Char → Bool) (s : Chars) :
    findIndex p s =
      if s.dropWhile (fun c ↦ !p c) = [] then none
      else some (byteLen (s.takeWhile fun c ↦ !p c)) := by
  induction s with
  | nil => rfl
  | cons c s ih =>
    rw [findIndex, List.dropWhile_cons, List.takeWhile_cons]
    cases hc : p c with
    | true => simp
    | false =>
      simp only [Bool.not_false, if_true, Bool.false_eq_true, if_false, ih]
      split
      · rfl
      · rw [Option.map_some, byteLen_cons, Nat.add_comm]

theorem findIndex_append {p : Char → Bool} {a : Chars} (ha : ∀ x ∈ a, p x = false) {c : Char}
    (hc : p c = true) (b : Chars) : findIndex p (a ++ c :: b) = some (byteLen a) := by
  induction a with
  | nil => rw [List.nil_append, findIndex, if_pos hc, byteLen_nil]
  | cons x a ih =>
    obtain ⟨hx, ha⟩ := List.forall_mem_cons.mp ha
    rw [List.cons_append, findIndex, if_neg (by simp [hx]), ih ha, Option.map_some, byteLen_cons,
      Nat.add_comm]

theorem getD_findIndex (p : Char → Bool) (s : Chars) :
    (findIndex p s).getD (byteLen s) = byteLen (s.takeWhile fun c ↦ !p c) := by
  rw [findIndex_eq]
  split
  · rename_i hdrop
    rw [Option.getD_none]
    conv_lhs => rw [← List.takeWhile_append_dropWhile (p := fun c ↦ !p c) (l := s), hdrop,
      List.append_nil]
  · rfl

end QueQiao.Lib.ByteIndex
