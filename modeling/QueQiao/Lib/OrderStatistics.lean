import QueQiao.Lib.Aggregation
import Mathlib.Data.Multiset.Sort

namespace QueQiao.Lib.OrderStatistics

open Aggregation

variable {α κ : Type*} [LinearOrder α]

theorem isTrans_le (α : Type*) [LinearOrder α] : IsTrans α (· ≤ ·) := inferInstance

theorem antisymm_le (α : Type*) [LinearOrder α] : Std.Antisymm (α := α) (· ≤ ·) := inferInstance

attribute [local instance] isTrans_le antisymm_le in
def orderStatistic (values : Multiset α) (i : ℕ) : Option α := values.sort[i]?

theorem orderStatistic_eq_some_of_lt {values : Multiset α} {i : ℕ} (h : i < values.card) :
    ∃ x ∈ values, orderStatistic values i = some x := by
  have hi : i < values.sort.length := by rwa [Multiset.length_sort]
  have hx : orderStatistic values i = some values.sort[i] := List.getElem?_eq_getElem hi
  exact ⟨_, (Multiset.mem_sort _).mp (List.getElem_mem hi), hx⟩

theorem orderStatistic_mono {values : Multiset α} {i j : ℕ} {x y : α} (hij : i ≤ j)
    (hx : orderStatistic values i = some x) (hy : orderStatistic values j = some y) : x ≤ y := by
  obtain ⟨hi, rfl⟩ := List.getElem?_eq_some_iff.mp hx
  obtain ⟨hj, rfl⟩ := List.getElem?_eq_some_iff.mp hy
  exact (values.pairwise_sort (· ≤ ·)).rel_get_of_le (a := ⟨i, hi⟩) (b := ⟨j, hj⟩) hij

omit [LinearOrder α] in
/-- In a list that begins with what meets a condition, a place meets it exactly if it is below the
count of what does. -/
theorem iff_lt_countP {l : List α} {P : α → Prop} [DecidablePred P]
    (h : l.Pairwise fun x y ↦ P y → P x) {i : ℕ} {x : α} (hx : l[i]? = some x) :
    P x ↔ i < l.countP P := by
  induction l generalizing i with
  | nil => cases hx
  | cons a l ih =>
    obtain ⟨hhead, htail⟩ := List.pairwise_cons.mp h
    by_cases ha : P a
    · rw [List.countP_cons_of_pos (by simpa using ha)]
      cases i with
      | zero =>
        obtain rfl := Option.some.inj hx
        exact iff_of_true ha (Nat.succ_pos _)
      | succ i =>
        rw [ih htail hx]
        omega
    · have hnone : ∀ y ∈ l, ¬ P y := fun y hy hPy ↦ ha (hhead y hy hPy)
      rw [List.countP_cons_of_neg (by simpa using ha),
        List.countP_eq_zero.mpr fun y hy ↦ by simpa using hnone y hy]
      refine iff_of_false (fun hPx ↦ ?_) (Nat.not_lt_zero i)
      rcases List.mem_cons.mp (List.mem_of_getElem? hx) with rfl | hmem
      · exact ha hPx
      · exact hnone x hmem hPx

theorem orderStatistic_iff {values : Multiset α} {P : α → Prop} [DecidablePred P]
    (hP : ∀ x y, x ≤ y → P y → P x) {i : ℕ} {x : α} (hx : orderStatistic values i = some x) :
    P x ↔ i < values.countP P := by
  have hsort : values.sort.Pairwise fun x y ↦ P y → P x :=
    (values.pairwise_sort (· ≤ ·)).imp fun hle ↦ hP _ _ hle
  rw [iff_lt_countP hsort hx, ← Multiset.coe_countP, Multiset.sort_eq]

theorem mem_take_iff {l : List α} (h : l.Pairwise (· ≤ ·)) {n : ℕ} {x : α} :
    x ∈ l.take n ↔ x ∈ l ∧ l.countP (· < x) < n := by
  induction l generalizing n with
  | nil => simp
  | cons a l ih =>
    obtain ⟨hhead, htail⟩ := List.pairwise_cons.mp h
    cases n with
    | zero => simp
    | succ n =>
      rw [List.take_succ_cons, List.mem_cons, List.mem_cons, ih htail]
      by_cases hx : x = a
      · subst hx
        have hnone : (x :: l).countP (· < x) = 0 := by
          apply List.countP_eq_zero.mpr
          intro y hy
          rw [decide_eq_true_eq, not_lt]
          rcases List.mem_cons.mp hy with rfl | hy
          · exact le_refl y
          · exact hhead y hy
        rw [hnone]
        exact iff_of_true (.inl rfl) ⟨.inl rfl, Nat.succ_pos n⟩
      · constructor
        · rintro (heq | ⟨hmem, hlt⟩)
          · exact absurd heq hx
          · refine ⟨.inr hmem, ?_⟩
            have hle := List.countP_cons (p := fun y ↦ decide (y < x)) (a := a) (l := l)
            split at hle <;> omega
        · rintro ⟨heq | hmem, hlt⟩
          · exact absurd heq hx
          · refine .inr ⟨hmem, ?_⟩
            have hax : a < x := lt_of_le_of_ne (hhead x hmem) (Ne.symm hx)
            rw [List.countP_cons_of_pos (by simpa using hax)] at hlt
            omega

theorem countP_lt_add_countP_le (l : List α) (x : α) :
    l.countP (· < x) + l.countP (x ≤ ·) = l.length := by
  rw [List.length_eq_countP_add_countP fun y ↦ decide (y < x)]
  congr 1
  apply List.countP_congr
  intro y _
  simp

theorem countP_le_eq_countP_lt_add_count (l : List α) (x : α) :
    l.countP (x ≤ ·) = l.countP (x < ·) + l.count x := by
  induction l with
  | nil => rfl
  | cons a l ih =>
    rw [List.countP_cons, List.countP_cons, List.count_cons, ih]
    rcases lt_trichotomy x a with hlt | rfl | hlt
    · simp [hlt, hlt.le, hlt.ne']
      omega
    · simp
      omega
    · simp [hlt.not_ge, hlt.not_gt, hlt.ne]

theorem mem_take_mergeSort_iff {l : List α} {kept : ℕ} {x : α} :
    x ∈ (l.mergeSort (· ≤ ·)).take (l.length - kept) ↔ x ∈ l ∧ kept < l.countP (x ≤ ·) := by
  have hsorted : (l.mergeSort (· ≤ ·)).Pairwise (· ≤ ·) := by
    have hpairwise := @List.pairwise_mergeSort α (fun a b ↦ decide (a ≤ b))
      (fun a b c hab hbc ↦ by simpa using (of_decide_eq_true hab).trans (of_decide_eq_true hbc))
      (fun a b ↦ by simpa using le_total a b) l
    exact hpairwise.imp of_decide_eq_true
  have hperm := List.mergeSort_perm l fun a b ↦ decide (a ≤ b)
  rw [mem_take_iff hsorted, hperm.mem_iff, hperm.countP_eq]
  have hsum := countP_lt_add_countP_le l x
  constructor
  · rintro ⟨hmem, hlt⟩
    exact ⟨hmem, by omega⟩
  · rintro ⟨hmem, hlt⟩
    exact ⟨hmem, by omega⟩

section Histogram

variable [LinearOrder κ]

def histogram (key : α → κ) (values : Multiset α) : GroupMap κ ℕ :=
  (values.map fun v ↦ GroupMap.single (key v) 1).sum

variable {key : α → κ}

omit [LinearOrder α] in
theorem histogram_add (values other : Multiset α) :
    histogram key (values + other) = histogram key values + histogram key other := by
  rw [histogram, Multiset.map_add, Multiset.sum_add]
  rfl

omit [LinearOrder α] in
theorem histogram_cons (v : α) (values : Multiset α) :
    histogram key (v ::ₘ values) = .single (key v) 1 + histogram key values := by
  rw [histogram, Multiset.map_cons, Multiset.sum_cons]
  rfl

omit [LinearOrder α] in
theorem total_histogram (P : κ → Prop) [DecidablePred P] (values : Multiset α) :
    total (fun row ↦ if P row.1 then row.2 else 0) (histogram key values).entries =
      values.countP fun v ↦ P (key v) := by
  have hadd (k : κ) (m m' : ℕ) :
      (if P k then m + m' else 0) = (if P k then m else 0) + if P k then m' else 0 := by
    split <;> rfl
  rw [GroupMap.total_entries fun k m ↦ if P k then m else 0]
  induction values using Multiset.induction with
  | empty => rfl
  | cons v values ih =>
    rw [histogram_cons, GroupMap.sumOver_add hadd, GroupMap.sumOver_single, ih, Multiset.countP_cons,
      Nat.add_comm]

omit [LinearOrder α] in
theorem entries_sorted (values : Multiset α) :
    (histogram key values).entries.Pairwise fun a b ↦ a.1 < b.1 := by
  rw [GroupMap.entries, List.pairwise_map]
  exact (histogram key values).keys.sortedLT_sort.pairwise

omit [LinearOrder α] in
theorem mem_histogram_keys {v : α} {values : Multiset α} (h : v ∈ values) :
    key v ∈ (histogram key values).keys := by
  induction values using Multiset.induction with
  | empty => cases Multiset.notMem_zero v h
  | cons w values ih =>
    rw [histogram_cons, GroupMap.keys_add, Finset.mem_union]
    rcases Multiset.mem_cons.mp h with rfl | h
    · exact .inl (Finset.mem_singleton_self _)
    · exact .inr (ih h)

omit [LinearOrder α] in
theorem exists_of_mem_histogram_keys {k : κ} {values : Multiset α}
    (h : k ∈ (histogram key values).keys) : ∃ v ∈ values, key v = k := by
  induction values using Multiset.induction with
  | empty => cases Finset.notMem_empty k h
  | cons w values ih =>
    rw [histogram_cons, GroupMap.keys_add, Finset.mem_union] at h
    rcases h with h | h
    · exact ⟨w, Multiset.mem_cons_self w values, (Finset.mem_singleton.mp h).symm⟩
    · obtain ⟨v, hv, hkey⟩ := ih h
      exact ⟨v, Multiset.mem_cons_of_mem hv, hkey⟩

theorem histogram_split (hkey : Monotone key) {values : Multiset α} {i : ℕ} {x : α}
    (hx : orderStatistic values i = some x) : ∃ before n after,
      (histogram key values).entries = before ++ (key x, n) :: after ∧
        total (·.2) before ≤ i ∧ i < total (·.2) before + n := by
  have hmem : x ∈ values := (Multiset.mem_sort _).mp (List.mem_of_getElem? hx)
  have hentry : (key x, (histogram key values).value (key x)) ∈ (histogram key values).entries :=
    List.mem_map.mpr ⟨key x, (Finset.mem_sort _).mpr (mem_histogram_keys hmem), rfl⟩
  obtain ⟨before, after, hsplit⟩ := List.append_of_mem hentry
  have hsorted : (histogram key values).entries.Pairwise fun a b ↦ a.1 < b.1 := entries_sorted values
  rw [hsplit, List.pairwise_append] at hsorted
  obtain ⟨-, hafter, hbefore⟩ := hsorted
  have hafter := (List.pairwise_cons.mp hafter).1
  have hlt : total (·.2) before = values.countP fun v ↦ key v < key x := by
    have hcount : total (fun row ↦ if row.1 < key x then row.2 else 0)
        (histogram key values).entries = values.countP fun v ↦ key v < key x :=
      total_histogram (· < key x) values
    rw [← hcount, hsplit, total_append, total_cons, if_neg (lt_irrefl _), zero_add,
      total_eq_zero fun row hrow ↦ if_neg (hafter row hrow).not_gt, add_zero]
    exact total_congr fun row hrow ↦ (if_pos (hbefore row hrow _ List.mem_cons_self)).symm
  have hle : total (·.2) before + (histogram key values).value (key x) =
      values.countP fun v ↦ key v ≤ key x := by
    have hcount : total (fun row ↦ if row.1 ≤ key x then row.2 else 0)
        (histogram key values).entries = values.countP fun v ↦ key v ≤ key x :=
      total_histogram (· ≤ key x) values
    rw [← hcount, hsplit, total_append, total_cons, if_pos le_rfl,
      total_eq_zero fun row hrow ↦ if_neg (hafter row hrow).not_ge, add_zero]
    refine congrArg (· + _) (total_congr fun row hrow ↦ (if_pos ?_).symm)
    exact (hbefore row hrow _ List.mem_cons_self).le
  refine ⟨before, _, after, hsplit, ?_, ?_⟩
  · rw [hlt, ← not_lt, ← orderStatistic_iff (fun x y hxy hy ↦ (hkey hxy).trans_lt hy) hx]
    exact lt_irrefl _
  · rw [hle, ← orderStatistic_iff (fun x y hxy hy ↦ (hkey hxy).trans hy) hx]

theorem histogram_last (hkey : Monotone key) {values : Multiset α} {x : α}
    (hx : orderStatistic values (values.card - 1) = some x) : ∃ before n,
      (histogram key values).entries = before ++ [(key x, n)] := by
  obtain ⟨before, n, after, hsplit, -, -⟩ := histogram_split hkey hx
  cases after with
  | nil => exact ⟨before, n, hsplit⟩
  | cons row after =>
    exfalso
    have hmem : row ∈ (histogram key values).entries :=
      hsplit ▸ List.mem_append_right _ (List.mem_cons_of_mem _ List.mem_cons_self)
    obtain ⟨k, hk, rfl⟩ := List.mem_map.mp hmem
    obtain ⟨v, hv, rfl⟩ := exists_of_mem_histogram_keys ((Finset.mem_sort _).mp hk)
    obtain ⟨i, hi⟩ := List.mem_iff_getElem?.mp ((Multiset.mem_sort (· ≤ ·)).mpr hv)
    have hlt : i < values.card := by
      rw [← Multiset.length_sort (· ≤ ·)]
      exact (List.getElem?_eq_some_iff.mp hi).1
    have hle : key v ≤ key x := hkey (orderStatistic_mono (by omega) hi hx)
    have hsorted : (histogram key values).entries.Pairwise fun a b ↦ a.1 < b.1 :=
      entries_sorted values
    rw [hsplit, List.pairwise_append] at hsorted
    exact hle.not_gt ((List.pairwise_cons.mp hsorted.2.1).1 _ List.mem_cons_self)

end Histogram

end QueQiao.Lib.OrderStatistics
