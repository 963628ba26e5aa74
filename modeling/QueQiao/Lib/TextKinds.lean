import QueQiao.Lib.Delimiters

namespace QueQiao.Lib.Delimiters

variable {α φ : Type*} [DecidableEq α] (D : Delims φ α) {s t : List α} {p q : φ} {i c : ℕ}

/-- What each symbol of a text is when the text is read from phase `p`: part of a marker, or
text of a phase. -/
def kinds (p : φ) (s : List α) : List (Option φ) :=
  match _h : findSub (D.mark p) s with
  | some i =>
    List.replicate i (some p) ++ (List.replicate (D.mark p).length none ++
      kinds (D.next p) (s.drop (i + (D.mark p).length)))
  | none => List.replicate s.length (some p)
termination_by s.length
decreasing_by
  have hpre := (findSub_eq_some_iff.mp _h).2.1.length_le
  have hpos := List.length_pos_iff.mpr (D.mark_ne_nil p)
  simp only [List.length_drop] at hpre ⊢
  omega

theorem kinds_of_some (h : findSub (D.mark p) s = some i) :
    kinds D p s = List.replicate i (some p) ++ (List.replicate (D.mark p).length none ++
      kinds D (D.next p) (s.drop (i + (D.mark p).length))) := by
  rw [kinds]
  split <;> simp_all

theorem kinds_of_none (h : findSub (D.mark p) s = none) :
    kinds D p s = List.replicate s.length (some p) := by
  rw [kinds]
  split <;> simp_all

theorem length_kinds (p : φ) (s : List α) : (kinds D p s).length = s.length := by
  fun_induction kinds with
  | case1 p s i hf ih =>
    obtain ⟨hlen, hpre, _⟩ := findSub_eq_some_iff.mp hf
    have hle := hpre.length_le
    simp only [List.length_append, List.length_replicate, ih, List.length_drop] at hle ⊢
    omega
  | case2 p s hf => exact List.length_replicate

theorem kinds_eq_drop (hc : c ≤ s.length) (h : ∀ j < c, ¬D.mark p <+: s.drop j) :
    kinds D p s = List.replicate c (some p) ++ kinds D p (s.drop c) := by
  have hfind := findSub_eq_drop hc h
  cases hrest : findSub (D.mark p) (s.drop c) with
  | none =>
    rw [hrest] at hfind
    rw [kinds_of_none D hfind, kinds_of_none D hrest, List.length_drop,
      ← List.replicate_add, Nat.add_sub_of_le hc]
  | some i =>
    rw [hrest, Option.map_some] at hfind
    rw [kinds_of_some D hfind, kinds_of_some D hrest, List.drop_drop, ← List.append_assoc,
      ← List.append_assoc, ← List.append_assoc, ← List.replicate_add, Nat.add_comm i c,
      Nat.add_assoc]

theorem findSub_eq_none_of_short (h : s.length < (D.mark p).length) :
    findSub (D.mark p) s = none := by
  refine findSub_eq_none_iff.mpr fun j hpre ↦ ?_
  have hle := hpre.length_le
  rw [List.length_drop] at hle
  omega

variable [DecidableEq φ]

/-- The symbols of a text that are text of phase `q`. -/
def pick (q : φ) : List α → List (Option φ) → List α
  | a :: s, k :: ks => if k = some q then a :: pick q s ks else pick q s ks
  | _, _ => []

omit [DecidableEq α] in
theorem pick_append {ks ls : List (Option φ)} (h : s.length = ks.length) :
    pick q (s ++ t) (ks ++ ls) = pick q s ks ++ pick q t ls := by
  induction s generalizing ks with
  | nil =>
    obtain rfl := List.eq_nil_of_length_eq_zero h.symm
    rfl
  | cons a s ih =>
    cases ks with
    | nil => cases h
    | cons k ks =>
      simp only [List.cons_append, pick, ih (Nat.succ.inj h)]
      split <;> rfl

omit [DecidableEq α] in
theorem pick_take_append {ks : List (Option φ)} (h : s.length ≤ ks.length) :
    pick q (s ++ t) (ks.take (s ++ t).length) =
      pick q s (ks.take s.length) ++ pick q t ((ks.drop s.length).take t.length) := by
  rw [List.length_append, List.take_add]
  exact pick_append (by rw [List.length_take]; omega)

omit [DecidableEq α] in
theorem pick_replicate (k : Option φ) (s : List α) :
    pick q s (List.replicate s.length k) = if k = some q then s else [] := by
  induction s with
  | nil => simp [pick]
  | cons a s ih =>
    rw [List.length_cons, List.replicate_succ, pick, ih]
    split <;> rfl

omit [DecidableEq α] in
theorem pick_eq_nil {ks : List (Option φ)} (h : ∀ k ∈ ks, k ≠ some q) (s : List α) :
    pick q s ks = [] := by
  induction s generalizing ks with
  | nil => rfl
  | cons a s ih =>
    cases ks with
    | nil => rfl
    | cons k ks =>
      rw [pick, if_neg (h k List.mem_cons_self), ih fun k hk ↦ h k (List.mem_cons_of_mem _ hk)]

theorem kinds_scan (p : φ) (s : List α) :
    ∃ (done : List α) (ks : List (Option φ)), s = done ++ (scan D p s).carry ∧
      done.length = ks.length ∧ (∀ q, pick q done ks = (scan D p s).out q) ∧
      ∀ t, kinds D p (s ++ t) =
        ks ++ kinds D (scan D p s).phase ((scan D p s).carry ++ t) := by
  induction hn : s.length using Nat.strong_induction_on generalizing s p with
  | _ n ih =>
    subst hn
    cases hf : findSub (D.mark p) s with
    | some i =>
      obtain ⟨hlen, hpre, _⟩ := findSub_eq_some_iff.mp hf
      have hpos := List.length_pos_iff.mpr (D.mark_ne_nil p)
      have hle := hpre.length_le
      rw [List.length_drop] at hle
      obtain ⟨done, ks, hs, hlength, hpick, hkinds⟩ :=
        ih (s.drop (i + (D.mark p).length)).length (by rw [List.length_drop]; omega)
          (D.next p) _ rfl
      have hscan := scan_of_some D hf
      have hsplit : s = s.take i ++ (D.mark p ++ s.drop (i + (D.mark p).length)) := by
        rw [← List.drop_drop, List.prefix_iff_eq_append.mp hpre, List.take_append_drop]
      refine ⟨s.take i ++ (D.mark p ++ done),
        List.replicate i (some p) ++ (List.replicate (D.mark p).length none ++ ks), ?_, ?_, ?_, ?_⟩
      · rw [hscan, List.append_assoc, List.append_assoc, ← hs]
        exact hsplit
      · simp only [List.length_append, List.length_take, List.length_replicate, hlength]
        omega
      · intro q
        have htake : (s.take i).length = i := by rw [List.length_take]; omega
        have htext := pick_replicate (q := q) (some p) (s.take i)
        rw [htake] at htext
        rw [pick_append (by rw [htake, List.length_replicate]), htext,
          pick_append (by rw [List.length_replicate]), pick_replicate, hpick, hscan]
        by_cases hq : q = p
        · simp [emit, hq]
        · simp [emit, hq, Ne.symm hq]
      · intro t
        rw [kinds_of_some D (findSub_append hf t), List.drop_append_of_le_length (by omega),
          hkinds, hscan, List.append_assoc, List.append_assoc]
    | none =>
      have hclear := clear_of_findSub_eq_none hf
      have hscan := scan_of_none D hf
      have hle : s.length - overlap (D.mark p) s ≤ s.length := Nat.sub_le _ _
      have htake : (s.take (s.length - overlap (D.mark p) s)).length =
          s.length - overlap (D.mark p) s := by rw [List.length_take]; omega
      refine ⟨s.take (s.length - overlap (D.mark p) s),
        List.replicate (s.length - overlap (D.mark p) s) (some p), ?_, ?_, ?_, ?_⟩
      · rw [hscan, List.take_append_drop]
      · rw [htake, List.length_replicate]
      · intro q
        have htext := pick_replicate (q := q) (some p)
          (s.take (s.length - overlap (D.mark p) s))
        rw [htake] at htext
        rw [htext, hscan]
        by_cases hq : q = p
        · simp [emit, hq]
        · simp [emit, hq, Ne.symm hq]
      · intro t
        have hclear' := hclear.append t
        rw [kinds_eq_drop D hclear'.1 fun j hj ↦ (hclear'.2 j hj).1, hscan,
          List.drop_append_of_le_length hle]

theorem scan_carry_partial (p : φ) (s : List α) :
    (scan D p s).carry <+: D.mark (scan D p s).phase ∧
      (scan D p s).carry.length < (D.mark (scan D p s).phase).length := by
  induction hn : s.length using Nat.strong_induction_on generalizing s p with
  | _ n ih =>
    subst hn
    cases hf : findSub (D.mark p) s with
    | some i =>
      have hpos := List.length_pos_iff.mpr (D.mark_ne_nil p)
      have hle := (findSub_eq_some_iff.mp hf).2.1.length_le
      rw [List.length_drop] at hle
      rw [scan_of_some D hf]
      exact ih _ (by rw [List.length_drop]; omega) (D.next p) _ rfl
    | none =>
      have hle : overlap (D.mark p) s ≤ s.length := overlap_le
      have hlt : overlap (D.mark p) s < (D.mark p).length := overlap_lt (D.mark_ne_nil p)
      rw [scan_of_none D hf]
      refine ⟨ drop_overlap_prefix, ?_⟩
      simp only [List.length_drop]
      omega

theorem scan_partial (hpre : s <+: D.mark p) (hlt : s.length < (D.mark p).length) :
    scan D p s = { out := fun _ ↦ [], phase := p, carry := s } := by
  have hoverlap : overlap (D.mark p) s = s.length :=
    le_antisymm overlap_le (le_overlap le_rfl hlt (by simpa using hpre))
  rw [scan_of_none D (findSub_eq_none_of_short D hlt), hoverlap]
  ext1
  · funext q
    simp [emit]
  · rfl
  · simp

theorem pick_held_ne (hlt : s.length < (D.mark p).length) (hq : q ≠ p) (t : List α) :
    pick q s ((kinds D p (s ++ t)).take s.length) = [] := by
  refine pick_eq_nil (fun k hk ↦ ?_) s
  have hne : ∀ n, ∀ k ∈ List.replicate n (some p), k ≠ some q := fun n k hk heq ↦
    hq (Option.some.inj (heq.symm.trans (List.eq_of_mem_replicate hk)))
  cases hf : findSub (D.mark p) (s ++ t) with
  | none =>
    rw [kinds_of_none D hf] at hk
    exact hne _ k (List.mem_of_mem_take hk)
  | some i =>
    rw [kinds_of_some D hf, ← List.append_assoc, List.take_append_of_le_length
      (by simp only [List.length_append, List.length_replicate]; omega)] at hk
    rcases List.mem_append.mp (List.mem_of_mem_take hk) with hk | hk
    · exact hne _ k hk
    · rw [List.eq_of_mem_replicate hk]
      exact Option.some_ne_none q |>.symm

theorem pick_held_marker (hlt : s.length < (D.mark p).length) (h : D.mark p <+: s ++ t) :
    pick q s ((kinds D p (s ++ t)).take s.length) = [] := by
  have hfind : findSub (D.mark p) (s ++ t) = some 0 :=
    findSub_eq_some_iff.mpr ⟨Nat.zero_le _, h, fun j hj ↦ absurd hj (Nat.not_lt_zero j)⟩
  refine pick_eq_nil (fun k hk ↦ ?_) s
  rw [kinds_of_some D hfind, List.replicate_zero, List.nil_append,
    List.take_append_of_le_length (by rw [List.length_replicate]; omega)] at hk
  rw [List.eq_of_mem_replicate (List.mem_of_mem_take hk)]
  exact Option.some_ne_none q |>.symm

end QueQiao.Lib.Delimiters
