import Mathlib.Data.List.Infix
import Mathlib.Data.Nat.Find

namespace QueQiao.Lib.Delimiters

variable {α φ : Type*} [DecidableEq α] {m s : List α} {c i : ℕ}

/-- The first position at which `m` occurs in a list. -/
def findSub (m : List α) : List α → Option ℕ
  | [] => if m = [] then some 0 else none
  | a :: s => if m <+: a :: s then some 0 else (findSub m s).map (· + 1)

/-- The length of the longest suffix of `s` that is a proper prefix of `m`. -/
def overlap (m s : List α) : ℕ :=
  Nat.findGreatest (fun k ↦ s.drop (s.length - k) = m.take k) (min s.length (m.length - 1))

theorem findSub_eq_some_iff :
    findSub m s = some i ↔ i ≤ s.length ∧ m <+: s.drop i ∧ ∀ j < i, ¬m <+: s.drop j := by
  induction s generalizing i with
  | nil =>
    by_cases hm : m = []
    · simp +contextual [findSub, hm, eq_comm]
    · simp [findSub, hm]
  | cons a s ih =>
    by_cases hp : m <+: a :: s
    · simp only [findSub, hp, ↓reduceIte, Option.some.injEq]
      constructor
      · rintro rfl
        exact ⟨Nat.zero_le _, hp, fun j hj ↦ absurd hj (Nat.not_lt_zero j)⟩
      · rintro ⟨_, _, hfirst⟩
        by_contra hi
        exact hfirst 0 (by omega) hp
    · simp only [findSub, hp, ↓reduceIte, Option.map_eq_some_iff]
      constructor
      · rintro ⟨j, hj, rfl⟩
        obtain ⟨hlen, hpre, hfirst⟩ := ih.mp hj
        refine ⟨Nat.succ_le_succ hlen, hpre, fun k hk ↦ ?_⟩
        cases k with
        | zero => exact hp
        | succ k => exact hfirst k (Nat.lt_of_succ_lt_succ hk)
      · rintro ⟨hlen, hpre, hfirst⟩
        cases i with
        | zero => exact absurd hpre hp
        | succ i =>
          exact ⟨i, ih.mpr ⟨Nat.le_of_succ_le_succ hlen, hpre,
            fun j hj ↦ hfirst (j + 1) (Nat.succ_lt_succ hj)⟩, rfl⟩

theorem findSub_eq_none_iff : findSub m s = none ↔ ∀ j, ¬m <+: s.drop j := by
  induction s with
  | nil => by_cases hm : m = [] <;> simp [findSub, hm]
  | cons a s ih =>
    by_cases hp : m <+: a :: s
    · simp only [findSub, hp, ↓reduceIte, reduceCtorEq, false_iff]
      exact fun h ↦ h 0 hp
    · simp only [findSub, hp, ↓reduceIte, Option.map_eq_none_iff, ih]
      constructor
      · intro h j
        cases j with
        | zero => exact hp
        | succ j => exact h j
      · exact fun h j ↦ h (j + 1)

theorem isSome_findSub_iff : (findSub m s).isSome = true ↔ m <:+: s := by
  rw [← not_iff_not, Bool.not_eq_true, Option.isSome_eq_false_iff, Option.isNone_iff_eq_none,
    findSub_eq_none_iff]
  constructor
  · intro h hinfix
    obtain ⟨u, v, rfl⟩ := hinfix
    refine h u.length ?_
    rw [List.append_assoc, List.drop_left]
    exact List.prefix_append m v
  · intro h j hpre
    exact h (hpre.isInfix.trans (List.drop_suffix j s).isInfix)

theorem findSub_append (h : findSub m s = some i) (b : List α) : findSub m (s ++ b) = some i := by
  obtain ⟨hlen, hpre, hfirst⟩ := findSub_eq_some_iff.mp h
  have hdrop : ∀ j ≤ i, (s ++ b).drop j = s.drop j ++ b := fun j hj ↦
    List.drop_append_of_le_length (hj.trans hlen)
  refine findSub_eq_some_iff.mpr ⟨by rw [List.length_append]; omega, ?_, fun j hj hm ↦ ?_⟩
  · rw [hdrop i le_rfl]
    exact hpre.trans (List.prefix_append _ _)
  · rw [hdrop j hj.le] at hm
    have hmlen : m.length ≤ (s.drop j).length := by
      have := hpre.length_le
      simp only [List.length_drop] at this ⊢
      omega
    exact hfirst j hj (List.prefix_of_prefix_length_le hm (List.prefix_append _ _) hmlen)

theorem findSub_le (m u v : List α) : ∃ i ≤ u.length, findSub m (u ++ (m ++ v)) = some i := by
  have hat : m <+: (u ++ (m ++ v)).drop u.length := by
    rw [List.drop_left]
    exact List.prefix_append m v
  cases hf : findSub m (u ++ (m ++ v)) with
  | none => exact absurd hat (findSub_eq_none_iff.mp hf u.length)
  | some i =>
    refine ⟨i, ?_, rfl⟩
    by_contra hlt
    exact (findSub_eq_some_iff.mp hf).2.2 u.length (not_le.mp hlt) hat

theorem findSub_split (h : findSub m s = some i) :
    s = s.take i ++ (m ++ s.drop (i + m.length)) := by
  obtain ⟨-, hpre, -⟩ := findSub_eq_some_iff.mp h
  have hrest : s.drop i = m ++ s.drop (i + m.length) := by
    rw [← List.drop_drop]
    exact List.prefix_append_drop hpre
  rw [← hrest, List.take_append_drop]

theorem not_infix_take (hm : m ≠ []) (h : findSub m s = some i) : ¬m <:+: s.take i := by
  obtain ⟨-, -, hfirst⟩ := findSub_eq_some_iff.mp h
  rintro ⟨u, v, huv⟩
  have hlength := congrArg List.length huv
  rw [List.length_append, List.length_append, List.length_take] at hlength
  have hpos := List.length_pos_iff.mpr hm
  apply hfirst u.length (by omega)
  have hs : s = u ++ (m ++ (v ++ s.drop i)) := by
    rw [← List.append_assoc m, ← List.append_assoc u, ← List.append_assoc u, huv,
      List.take_append_drop]
  rw [hs, List.drop_left]
  exact List.prefix_append _ _

omit [DecidableEq α] in
theorem border_of_prefix {a b : List α} (h : m <+: a ++ (m ++ b)) (hlen : a.length < m.length) :
    a <+: m ∧ m.drop a.length <+: m := by
  have hstart : a <+: m :=
    List.prefix_of_prefix_length_le (List.prefix_append _ _) h hlen.le
  have hsplit : a ++ m.drop a.length = m := List.prefix_iff_eq_append.mp hstart
  have hend : m.drop a.length <+: m ++ b :=
    (List.prefix_append_right_inj a).mp (by rwa [hsplit])
  refine ⟨hstart, List.prefix_of_prefix_length_le hend (List.prefix_append m b) ?_⟩
  rw [List.length_drop]
  omega

theorem findSub_append_self (hborder : ∀ k < m.length, 0 < k → ¬m.drop k <+: m)
    (h : ¬m <:+: s) (t : List α) : findSub m (s ++ (m ++ t)) = some s.length := by
  refine findSub_eq_some_iff.mpr ⟨by rw [List.length_append]; omega, ?_, fun j hj hpre ↦ ?_⟩
  · rw [List.drop_left]
    exact List.prefix_append m t
  · rw [List.drop_append_of_le_length hj.le] at hpre
    rcases le_or_gt m.length (s.drop j).length with hlen | hlen
    · have hsub : m <+: s.drop j :=
        List.prefix_of_prefix_length_le hpre (List.prefix_append _ _) hlen
      exact h (hsub.isInfix.trans (List.drop_suffix j s).isInfix)
    · obtain ⟨-, hend⟩ := border_of_prefix hpre hlen
      exact hborder _ hlen (by rw [List.length_drop]; omega) hend

theorem overlap_le : overlap m s ≤ s.length :=
  (Nat.findGreatest_le _).trans (Nat.min_le_left _ _)

theorem overlap_lt (hm : m ≠ []) : overlap m s < m.length := by
  have hle : overlap m s ≤ m.length - 1 := (Nat.findGreatest_le _).trans (Nat.min_le_right _ _)
  have hpos := List.length_pos_iff.mpr hm
  omega

theorem drop_overlap_prefix : s.drop (s.length - overlap m s) <+: m := by
  have h : s.drop (s.length - overlap m s) = m.take (overlap m s) :=
    Nat.findGreatest_spec (P := fun k ↦ s.drop (s.length - k) = m.take k) (Nat.zero_le _) (by simp)
  rw [h]
  exact List.take_prefix _ _

theorem le_overlap {k : ℕ} (hs : k ≤ s.length) (hm : k < m.length)
    (h : s.drop (s.length - k) <+: m) : k ≤ overlap m s := by
  refine Nat.le_findGreatest (le_min hs (by omega)) ?_
  have heq := List.prefix_iff_eq_take.mp h
  rwa [List.length_drop, Nat.sub_sub_self hs] at heq

/-- No occurrence of `m`, whole or cut off at the end of `s`, starts before position `c`. -/
def Clear (m s : List α) (c : ℕ) : Prop :=
  c ≤ s.length ∧ ∀ j < c, ¬m <+: s.drop j ∧ ¬s.drop j <+: m

theorem clear_of_findSub_eq_none (h : findSub m s = none) :
    Clear m s (s.length - overlap m s) := by
  have hnone := findSub_eq_none_iff.mp h
  refine ⟨Nat.sub_le _ _, fun j hj ↦ ⟨hnone j, fun hpre ↦ ?_⟩⟩
  have hle := hpre.length_le
  rw [List.length_drop] at hle
  rcases hle.lt_or_eq with hlt | heq
  · have hk : s.length - j ≤ overlap m s :=
      le_overlap (Nat.sub_le _ _) hlt (by rwa [Nat.sub_sub_self (by omega)])
    omega
  · have hm : s.drop j = m := hpre.eq_of_length (by rwa [List.length_drop])
    exact hnone j (hm ▸ List.prefix_refl _)

omit [DecidableEq α] in
theorem Clear.append (h : Clear m s c) (b : List α) : Clear m (s ++ b) c := by
  obtain ⟨hlen, hclear⟩ := h
  refine ⟨by rw [List.length_append]; omega, fun j hj ↦ ?_⟩
  obtain ⟨hocc, hcut⟩ := hclear j hj
  rw [List.drop_append_of_le_length (by omega)]
  constructor
  · intro hm
    rcases List.prefix_or_prefix_of_prefix hm (List.prefix_append _ b) with hm | hm
    · exact hocc hm
    · exact hcut hm
  · exact fun hm ↦ hcut ((List.prefix_append _ _).trans hm)

theorem findSub_eq_drop (hc : c ≤ s.length) (h : ∀ j < c, ¬m <+: s.drop j) :
    findSub m s = (findSub m (s.drop c)).map (· + c) := by
  induction c generalizing s with
  | zero => simp
  | succ c ih =>
    cases s with
    | nil => simp at hc
    | cons a s =>
      have hrest := ih (Nat.le_of_succ_le_succ hc) fun j hj ↦ h (j + 1) (Nat.succ_lt_succ hj)
      have hfirst : ¬m <+: a :: s := h 0 (Nat.succ_pos c)
      simp only [findSub, hfirst, ↓reduceIte, hrest, List.drop_succ_cons, Option.map_map]
      rfl

theorem Clear.findSub_eq (h : Clear m s c) :
    findSub m s = (findSub m (s.drop c)).map (· + c) :=
  findSub_eq_drop h.1 fun j hj ↦ (h.2 j hj).1

theorem Clear.overlap_eq (h : Clear m s c) : overlap m s = overlap m (s.drop c) := by
  obtain ⟨hlen, hclear⟩ := h
  by_cases hm : m = []
  · simp [overlap, hm]
  have hdrop : ∀ k ≤ s.length - c,
      (s.drop c).drop ((s.drop c).length - k) = s.drop (s.length - k) := by
    intro k hk
    rw [List.drop_drop, List.length_drop]
    congr 1
    omega
  apply le_antisymm
  · have hc : c ≤ s.length - overlap m s := by
      by_contra hlt
      exact (hclear _ (not_le.mp hlt)).2 drop_overlap_prefix
    have hle : overlap m s ≤ s.length := overlap_le
    refine le_overlap (by rw [List.length_drop]; omega) (overlap_lt hm) ?_
    rw [hdrop _ (by omega)]
    exact drop_overlap_prefix
  · have hle : overlap m (s.drop c) ≤ (s.drop c).length := overlap_le
    rw [List.length_drop] at hle
    refine le_overlap (by omega) (overlap_lt hm) ?_
    rw [← hdrop _ hle]
    exact drop_overlap_prefix

/-- The phases of a scanner, each with the marker that ends it. -/
structure Delims (φ α : Type*) where
  mark : φ → List α
  next : φ → φ
  mark_ne_nil : ∀ p, mark p ≠ []

/-- What a scanner has put out in each phase, the phase it is in, and what it holds back. -/
@[ext] structure Scan (φ α : Type*) where
  out : φ → List α
  phase : φ
  carry : List α

variable [DecidableEq φ] (D : Delims φ α)

def emit (p : φ) (text : List α) (out : φ → List α) : φ → List α :=
  fun q ↦ if q = p then text ++ out q else out q

/-- Scan a text from phase `p`: a suffix that may be the start of the phase's marker is held
back. -/
def scan (p : φ) (s : List α) : Scan φ α :=
  match _h : findSub (D.mark p) s with
  | some i =>
    let r := scan (D.next p) (s.drop (i + (D.mark p).length))
    { r with out := emit p (s.take i) r.out }
  | none =>
    let cut := s.length - overlap (D.mark p) s
    { out := emit p (s.take cut) fun _ ↦ [], phase := p, carry := s.drop cut }
termination_by s.length
decreasing_by
  have hpre := (findSub_eq_some_iff.mp _h).2.1.length_le
  have hpos := List.length_pos_iff.mpr (D.mark_ne_nil p)
  simp only [List.length_drop] at hpre ⊢
  omega

def Scan.feed (r : Scan φ α) (b : List α) : Scan φ α :=
  let r' := scan D r.phase (r.carry ++ b)
  { r' with out := fun q ↦ r.out q ++ r'.out q }

theorem scan_of_some {p : φ} (h : findSub (D.mark p) s = some i) :
    scan D p s = { scan D (D.next p) (s.drop (i + (D.mark p).length)) with
      out := emit p (s.take i) (scan D (D.next p) (s.drop (i + (D.mark p).length))).out } := by
  rw [scan]
  split <;> simp_all

theorem scan_of_none {p : φ} (h : findSub (D.mark p) s = none) :
    scan D p s =
      { out := emit p (s.take (s.length - overlap (D.mark p) s)) fun _ ↦ []
        phase := p
        carry := s.drop (s.length - overlap (D.mark p) s) } := by
  rw [scan]
  split <;> simp_all

omit [DecidableEq α] in
theorem emit_append (p : φ) (t : List α) (f g : φ → List α) :
    (fun q ↦ emit p t f q ++ g q) = emit p t fun q ↦ f q ++ g q := by
  funext q
  by_cases hq : q = p <;> simp [emit, hq]

theorem scan_clear {p : φ} (h : Clear (D.mark p) s c) :
    scan D p s = { scan D p (s.drop c) with
      out := emit p (s.take c) (scan D p (s.drop c)).out } := by
  have hemit : ∀ k (out : φ → List α), emit p (s.take (k + c)) out =
      emit p (s.take c) (emit p ((s.drop c).take k) out) := by
    intro k out
    funext q
    by_cases hq : q = p
    · simp [emit, hq, Nat.add_comm k c, List.take_add]
    · simp [emit, hq]
  cases hf : findSub (D.mark p) (s.drop c) with
  | some i =>
    have hs : findSub (D.mark p) s = some (i + c) := by rw [h.findSub_eq, hf]; rfl
    have hdrop : (s.drop c).drop (i + (D.mark p).length) = s.drop (i + c + (D.mark p).length) := by
      rw [List.drop_drop]
      congr 1
      omega
    rw [scan_of_some D hs, scan_of_some D hf, hdrop, hemit]
  | none =>
    have hs : findSub (D.mark p) s = none := by rw [h.findSub_eq, hf]; rfl
    have hle : overlap (D.mark p) (s.drop c) ≤ (s.drop c).length := overlap_le
    have hcut : s.length - overlap (D.mark p) s =
        (s.drop c).length - overlap (D.mark p) (s.drop c) + c := by
      have hc := h.1
      rw [h.overlap_eq]
      rw [List.length_drop] at hle ⊢
      omega
    rw [scan_of_none D hs, scan_of_none D hf, hcut, hemit, List.drop_drop, Nat.add_comm c]

theorem scan_append (p : φ) (a b : List α) : scan D p (a ++ b) = (scan D p a).feed D b := by
  induction hn : a.length using Nat.strong_induction_on generalizing a p with
  | _ n ih =>
    subst hn
    cases hf : findSub (D.mark p) a with
    | some i =>
      obtain ⟨hlen, hpre, _⟩ := findSub_eq_some_iff.mp hf
      have hpos := List.length_pos_iff.mpr (D.mark_ne_nil p)
      have hle := hpre.length_le
      rw [List.length_drop] at hle
      have hrec := ih (a.drop (i + (D.mark p).length)).length
        (by rw [List.length_drop]; omega) (D.next p) _ rfl
      rw [scan_of_some D (findSub_append hf b), scan_of_some D hf,
        List.drop_append_of_le_length (by omega), List.take_append_of_le_length hlen, hrec]
      simp only [Scan.feed, emit_append]
    | none =>
      have hclear := clear_of_findSub_eq_none hf
      rw [scan_clear D (hclear.append b), scan_of_none D hf,
        List.drop_append_of_le_length hclear.1, List.take_append_of_le_length hclear.1]
      simp only [Scan.feed, emit_append, List.nil_append]

theorem scan_nil (p : φ) : scan D p [] = { out := fun _ ↦ [], phase := p, carry := [] } := by
  have hf : findSub (D.mark p) [] = none := by simp [findSub, D.mark_ne_nil p]
  rw [scan_of_none D hf]
  congr 1
  funext q
  simp [emit]

theorem foldl_feed (p : φ) (a : List α) (fragments : List (List α)) :
    fragments.foldl (Scan.feed D) (scan D p a) = scan D p (a ++ fragments.flatten) := by
  induction fragments generalizing a with
  | nil => simp
  | cons b fragments ih =>
    rw [List.foldl_cons, ← scan_append, ih, List.flatten_cons, List.append_assoc]

theorem scan_carry (p : φ) (s : List α) :
    scan D (scan D p s).phase (scan D p s).carry =
      { out := fun _ ↦ [], phase := (scan D p s).phase, carry := (scan D p s).carry } := by
  have h := scan_append D p s []
  rw [List.append_nil] at h
  have hphase := congrArg Scan.phase h
  have hcarry := congrArg Scan.carry h
  simp only [Scan.feed, List.append_nil] at hphase hcarry
  ext1
  · funext q
    have hout := congrFun (congrArg Scan.out h) q
    simp only [Scan.feed, List.append_nil] at hout
    exact List.append_right_eq_self.mp hout.symm
  · exact hphase.symm
  · exact hcarry.symm

end QueQiao.Lib.Delimiters
