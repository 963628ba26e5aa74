import Mathlib.Algebra.BigOperators.Group.Finset.Basic
import Mathlib.Algebra.Order.Ring.Int
import Mathlib.Data.Finset.Sort
import Mathlib.Data.List.Dedup
import Mathlib.Data.List.Forall2

namespace QueQiao.Lib.Aggregation

variable {α κ ι M : Type*}

section Total

variable [AddCommMonoid M] {f : α → M} {rows : List α}

def total (f : α → M) (rows : List α) : M := (rows.map f).sum

theorem total_append (a b : List α) : total f (a ++ b) = total f a + total f b := by
  rw [total, List.map_append, List.sum_append]
  rfl

theorem total_cons (x : α) : total f (x :: rows) = f x + total f rows := List.sum_cons

theorem length_eq_total (rows : List α) : rows.length = total (fun _ ↦ 1) rows := by
  induction rows with
  | nil => rfl
  | cons x rows ih =>
    rw [total_cons, ← ih]
    exact Nat.add_comm _ _

theorem total_map {β : Type*} (g : β → α) (rows : List β) :
    total f (rows.map g) = total (fun x ↦ f (g x)) rows := by
  rw [total, List.map_map]
  rfl

theorem total_filterMap {β : Type*} (g : β → Option α) (rows : List β) :
    total f (rows.filterMap g) = total (fun x ↦ (g x).elim 0 f) rows := by
  induction rows with
  | nil => rfl
  | cons x rows ih =>
    rw [total_cons, ← ih]
    cases h : g x with
    | none => rw [List.filterMap_cons_none h, Option.elim_none, zero_add]
    | some y => rw [List.filterMap_cons_some h, total_cons, Option.elim_some]

theorem total_flatMap {β : Type*} (g : β → List α) (rows : List β) :
    total f (rows.flatMap g) = total (fun x ↦ total f (g x)) rows := by
  induction rows with
  | nil => rfl
  | cons x rows ih => rw [List.flatMap_cons, total_append, ih, total_cons]

theorem total_congr {g : α → M} (h : ∀ x ∈ rows, f x = g x) : total f rows = total g rows :=
  congrArg List.sum (List.map_congr_left h)

theorem total_hom {N : Type*} [AddCommMonoid N] (g : M →+ N) :
    g (total f rows) = total (fun x ↦ g (f x)) rows := by
  induction rows with
  | nil => exact map_zero g
  | cons x rows ih => rw [total_cons, total_cons, map_add, ih]

theorem total_add (f g : α → M) (rows : List α) :
    total (fun x ↦ f x + g x) rows = total f rows + total g rows := by
  induction rows with
  | nil => exact (add_zero _).symm
  | cons x rows ih =>
    rw [total_cons, total_cons, total_cons, ih]
    exact add_add_add_comm _ _ _ _

theorem total_le_total {f g : α → ℕ} {rows : List α} (hle : ∀ x ∈ rows, f x ≤ g x) :
    total f rows ≤ total g rows := by
  induction rows with
  | nil => exact le_rfl
  | cons x rows ih =>
    rw [total_cons, total_cons]
    exact Nat.add_le_add (hle x List.mem_cons_self) (ih fun y hy ↦ hle y (List.mem_cons_of_mem _ hy))

theorem eq_of_total_eq {f g : α → ℕ} {rows : List α} (hle : ∀ x ∈ rows, f x ≤ g x)
    (heq : total f rows = total g rows) : ∀ x ∈ rows, f x = g x := by
  induction rows with
  | nil => exact fun x hx ↦ absurd hx List.not_mem_nil
  | cons y rows ih =>
    rw [total_cons, total_cons] at heq
    have hhead := hle y List.mem_cons_self
    have htail := total_le_total fun x hx ↦ hle x (List.mem_cons_of_mem y hx)
    intro x hx
    rcases List.mem_cons.mp hx with rfl | hx
    · omega
    · exact ih (fun x hx ↦ hle x (List.mem_cons_of_mem y hx)) (by omega) x hx

theorem total_filter {p : α → Bool} :
    total f (rows.filter p) = total (fun x ↦ if p x then f x else 0) rows := by
  induction rows with
  | nil => rfl
  | cons x rows ih =>
    rw [total_cons, ← ih]
    cases h : p x with
    | true => rw [List.filter_cons_of_pos h, total_cons, if_pos rfl]
    | false => rw [List.filter_cons_of_neg (by simp [h]), if_neg Bool.false_ne_true, zero_add]

theorem total_perm {rows' : List α} (h : rows.Perm rows') : total f rows = total f rows' :=
  (h.map f).sum_eq

theorem total_eq_zero (h : ∀ x ∈ rows, f x = 0) : total f rows = 0 := by
  apply List.sum_eq_zero
  intro m hm
  obtain ⟨x, hx, rfl⟩ := List.mem_map.mp hm
  exact h x hx

theorem total_nonneg {f : α → ℤ} {rows : List α} (hnonneg : ∀ x ∈ rows, 0 ≤ f x) :
    0 ≤ total f rows := by
  induction rows with
  | nil => exact le_rfl
  | cons x rows ih =>
    rw [total_cons]
    exact add_nonneg (hnonneg x List.mem_cons_self)
      (ih fun y hy ↦ hnonneg y (List.mem_cons_of_mem _ hy))

theorem total_eq_zero_iff {f : α → ℤ} {rows : List α} (hnonneg : ∀ x ∈ rows, 0 ≤ f x) :
    total f rows = 0 ↔ ∀ x ∈ rows, f x = 0 := by
  refine ⟨fun h ↦ ?_, total_eq_zero⟩
  induction rows with
  | nil => exact fun x hx ↦ absurd hx List.not_mem_nil
  | cons y rows ih =>
    rw [total_cons] at h
    have hhead := hnonneg y List.mem_cons_self
    have hrest := fun x hx ↦ hnonneg x (List.mem_cons_of_mem y hx)
    have htail := total_nonneg hrest
    intro x hx
    rcases List.mem_cons.mp hx with rfl | hx
    · omega
    · exact ih hrest (by omega) x hx

theorem total_filter_add {p q r : α → Bool} (hor : ∀ x ∈ rows, r x = (p x || q x))
    (hand : ∀ x ∈ rows, (p x && q x) = false) :
    total f (rows.filter p) + total f (rows.filter q) = total f (rows.filter r) := by
  induction rows with
  | nil => exact add_zero _
  | cons x rows ih =>
    have ih := ih (fun y hy ↦ hor y (List.mem_cons_of_mem _ hy))
      fun y hy ↦ hand y (List.mem_cons_of_mem _ hy)
    have hx := hor x List.mem_cons_self
    have hxand := hand x List.mem_cons_self
    cases hp : p x <;> cases hq : q x <;> rw [hp, hq] at hx hxand
    · rw [List.filter_cons_of_neg (by simp [hp]), List.filter_cons_of_neg (by simp [hq]),
        List.filter_cons_of_neg (by simp [hx]), ih]
    · rw [List.filter_cons_of_neg (by simp [hp]), List.filter_cons_of_pos hq,
        List.filter_cons_of_pos hx, total_cons, total_cons, ← ih, add_left_comm]
    · rw [List.filter_cons_of_pos hp, List.filter_cons_of_neg (by simp [hq]),
        List.filter_cons_of_pos hx, total_cons, total_cons, ← ih, add_assoc]
    · cases hxand

variable [DecidableEq κ] {key : α → κ}

theorem total_filter_mem {ks : List κ} (hnodup : ks.Nodup) :
    (ks.map fun k ↦ total f (rows.filter fun x ↦ key x = k)).sum =
      total f (rows.filter fun x ↦ key x ∈ ks) := by
  induction ks with
  | nil => simp [total]
  | cons k ks ih =>
    rw [List.map_cons, List.sum_cons, ih hnodup.of_cons]
    refine total_filter_add (fun x _ ↦ ?_) fun x _ ↦ ?_
    · simp only [List.mem_cons, Bool.decide_or]
    · by_contra h
      simp only [Bool.not_eq_false, Bool.and_eq_true, decide_eq_true_eq] at h
      exact (List.nodup_cons.mp hnodup).1 (h.1 ▸ h.2)

variable (key) in
theorem total_groups :
    ((rows.map key).dedup.map fun k ↦ total f (rows.filter fun x ↦ key x = k)).sum =
      total f rows := by
  rw [total_filter_mem (List.nodup_dedup _), List.filter_eq_self.mpr]
  intro x hx
  exact decide_eq_true (List.mem_dedup.mpr (List.mem_map_of_mem hx))

end Total

section Tiles

/-- Consecutive closed intervals of integers that cover `lo` up to but without `hi`. -/
inductive Tiles : ℤ → ℤ → List (ℤ × ℤ) → Prop
  | nil (lo : ℤ) : Tiles lo lo []
  | cons {lo mid hi : ℤ} {tiles : List (ℤ × ℤ)} (le : lo ≤ mid) :
      Tiles mid hi tiles → Tiles lo hi ((lo, mid - 1) :: tiles)

theorem Tiles.le {lo hi : ℤ} {tiles : List (ℤ × ℤ)} (h : Tiles lo hi tiles) : lo ≤ hi := by
  induction h with
  | nil lo => exact le_rfl
  | cons hle _ ih => exact hle.trans ih

theorem Tiles.single {lo hi : ℤ} (h : lo ≤ hi) : Tiles lo (hi + 1) [(lo, hi)] := by
  have htile := Tiles.cons (le_trans h (by omega : hi ≤ hi + 1)) (.nil (hi + 1))
  rwa [Int.add_sub_cancel] at htile

theorem Tiles.append {lo mid hi : ℤ} {tiles tiles' : List (ℤ × ℤ)} (h : Tiles lo mid tiles)
    (h' : Tiles mid hi tiles') : Tiles lo hi (tiles ++ tiles') := by
  induction h with
  | nil lo => exact h'
  | cons hle _ ih => exact .cons hle (ih h')

theorem Tiles.range {bound : ℕ → ℤ} {n : ℕ} (h : ∀ i < n, bound i ≤ bound (i + 1)) :
    Tiles (bound 0) (bound n) ((List.range n).map fun i ↦ (bound i, bound (i + 1) - 1)) := by
  induction n with
  | zero => exact .nil _
  | succ n ih =>
    rw [List.range_succ, List.map_append]
    exact (ih fun i hi ↦ h i (by omega)).append (.cons (h n (by omega)) (.nil _))

def inside (tile : ℤ × ℤ) (time : Option ℤ) : Bool := time.any fun t ↦ tile.1 ≤ t && t ≤ tile.2

variable [AddCommMonoid M] {f : α → M}

theorem Tiles.total_eq {lo hi : ℤ} {tiles : List (ℤ × ℤ)} (h : Tiles lo hi tiles) (rows : List α)
    (time : α → Option ℤ) :
    (tiles.map fun tile ↦ total f (rows.filter fun x ↦ inside tile (time x))).sum =
      total f (rows.filter fun x ↦ inside (lo, hi - 1) (time x)) := by
  induction h with
  | nil lo =>
    refine (total_eq_zero fun x hx ↦ absurd (List.of_mem_filter hx) ?_).symm
    cases time x with
    | none => exact Bool.false_ne_true
    | some t =>
      simp only [inside, Option.any_some, Bool.and_eq_true, decide_eq_true_eq]
      omega
  | @cons lo mid hi tiles hle htiles ih =>
    have hmid := htiles.le
    rw [List.map_cons, List.sum_cons, ih]
    refine total_filter_add (fun x _ ↦ ?_) fun x _ ↦ ?_ <;> cases time x with
    | none => rfl
    | some t =>
      simp only [inside, Option.any_some, ← Bool.decide_and, ← Bool.decide_or, decide_eq_decide,
        decide_eq_false_iff_not]
      omega

end Tiles

/-- A map with finitely many keys. A key that is absent reads as zero; a key with the value
zero is not absent. -/
@[ext] structure GroupMap (κ M : Type*) [Zero M] where
  keys : Finset κ
  value : κ → M
  value_eq_zero : ∀ k, k ∉ keys → value k = 0

namespace GroupMap

variable [AddCommMonoid M]

instance : Zero (GroupMap κ M) := ⟨⟨∅, fun _ ↦ 0, fun _ _ ↦ rfl⟩⟩

variable [DecidableEq κ]

instance : Add (GroupMap κ M) where
  add g h :=
    { keys := g.keys ∪ h.keys
      value := fun k ↦ g.value k + h.value k
      value_eq_zero := fun k hk ↦ by
        rw [Finset.mem_union, not_or] at hk
        rw [g.value_eq_zero k hk.1, h.value_eq_zero k hk.2, add_zero] }

@[simp] theorem keys_add (g h : GroupMap κ M) : (g + h).keys = g.keys ∪ h.keys := rfl
@[simp] theorem value_add (g h : GroupMap κ M) (k : κ) :
    (g + h).value k = g.value k + h.value k := rfl

instance : AddCommMonoid (GroupMap κ M) where
  add_assoc a b c := GroupMap.ext (Finset.union_assoc _ _ _) (funext fun _ ↦ add_assoc _ _ _)
  zero_add a := GroupMap.ext (Finset.empty_union _) (funext fun _ ↦ zero_add _)
  add_zero a := GroupMap.ext (Finset.union_empty _) (funext fun _ ↦ add_zero _)
  add_comm a b := GroupMap.ext (Finset.union_comm _ _) (funext fun _ ↦ add_comm _ _)
  nsmul := nsmulRec

def single (k : κ) (m : M) : GroupMap κ M where
  keys := {k}
  value := fun k' ↦ if k' = k then m else 0
  value_eq_zero := fun _ hk ↦ if_neg fun h ↦ hk (Finset.mem_singleton.mpr h)

theorem single_add (k : κ) (m m' : M) : single k (m + m') = single k m + single k m' := by
  refine GroupMap.ext (Finset.union_self _).symm (funext fun k' ↦ ?_)
  change (if k' = k then m + m' else 0) = (if k' = k then m else 0) + if k' = k then m' else 0
  split
  · rfl
  · exact (add_zero 0).symm

def entry (g : GroupMap κ M) (k : κ) (m : M) : GroupMap κ M := g + single k m

def ofRows (rows : List (κ × M)) : GroupMap κ M :=
  rows.foldl (fun g row ↦ g.entry row.1 row.2) 0

theorem foldl_entry (rows : List (κ × M)) (g : GroupMap κ M) :
    rows.foldl (fun g row ↦ g.entry row.1 row.2) g =
      g + total (fun row ↦ single row.1 row.2) rows := by
  induction rows generalizing g with
  | nil => exact (add_zero g).symm
  | cons row rows ih => rw [List.foldl_cons, ih, total_cons, entry, add_assoc]

theorem ofRows_eq_total (rows : List (κ × M)) :
    ofRows rows = total (fun row ↦ single row.1 row.2) rows := by
  rw [ofRows, foldl_entry, zero_add]

theorem ofRows_append (rows rows' : List (κ × M)) :
    ofRows (rows ++ rows') = ofRows rows + ofRows rows' := by
  rw [ofRows_eq_total, ofRows_eq_total, ofRows_eq_total, total_append]

theorem ofRows_flatten (parts : List (List (κ × M))) :
    ofRows parts.flatten = (parts.map ofRows).sum := by
  induction parts with
  | nil => rfl
  | cons part parts ih => rw [List.flatten_cons, ofRows_append, ih, List.map_cons, List.sum_cons]

theorem keys_ofRows (rows : List (κ × M)) : (ofRows rows).keys = (rows.map (·.1)).toFinset := by
  rw [ofRows_eq_total]
  induction rows with
  | nil => rfl
  | cons row rows ih => rw [total_cons, keys_add, ih, List.map_cons, List.toFinset_cons]; rfl

theorem keys_subset_total {g : α → GroupMap κ M} {rows : List α} {x : α} (hx : x ∈ rows) :
    (g x).keys ⊆ (total g rows).keys := by
  induction rows with
  | nil => cases hx
  | cons y rows ih =>
    rw [total_cons, keys_add]
    rcases List.mem_cons.mp hx with rfl | hx
    · exact Finset.subset_union_left
    · exact (ih hx).trans Finset.subset_union_right

theorem keys_total_subset {g : α → GroupMap κ M} {rows : List α} {s : Finset κ}
    (h : ∀ x ∈ rows, (g x).keys ⊆ s) : (total g rows).keys ⊆ s := by
  induction rows with
  | nil => exact Finset.empty_subset s
  | cons y rows ih =>
    rw [total_cons, keys_add]
    exact Finset.union_subset (h y List.mem_cons_self)
      (ih fun x hx ↦ h x (List.mem_cons_of_mem _ hx))

theorem total_single {f : α → κ} {val : α → M} {k : κ} {rows : List α} (hne : rows ≠ [])
    (hkey : ∀ x ∈ rows, f x = k) :
    total (fun x ↦ single (f x) (val x)) rows = single k (total val rows) := by
  induction rows with
  | nil => exact absurd rfl hne
  | cons x rows ih =>
    rw [total_cons, total_cons, single_add, hkey x List.mem_cons_self]
    cases rows with
    | nil =>
      refine GroupMap.ext ?_ (funext fun k' ↦ ?_)
      · exact (Finset.union_empty _).trans (Finset.union_self _).symm
      · exact congrArg (_ + ·) (ite_self (c := k' = k) (0 : M)).symm
    | cons y rows =>
      rw [ih (List.cons_ne_nil _ _) fun z hz ↦ hkey z (List.mem_cons_of_mem _ hz)]

theorem total_single_groups (key : α → κ) (val : α → M) (rows : List α) :
    (total (fun x ↦ single (key x) (val x)) rows).keys = (rows.map key).toFinset ∧
      ∀ k, (total (fun x ↦ single (key x) (val x)) rows).value k =
        total val (rows.filter fun x ↦ key x = k) := by
  induction rows with
  | nil => exact ⟨rfl, fun _ ↦ rfl⟩
  | cons x rows ih =>
    obtain ⟨hkeys, hvalue⟩ := ih
    rw [total_cons]
    refine ⟨?_, fun k ↦ ?_⟩
    · rw [keys_add, hkeys, List.map_cons, List.toFinset_cons]
      rfl
    · rw [value_add, hvalue]
      change (if k = key x then val x else 0) + _ = _
      by_cases hk : key x = k
      · rw [if_pos hk.symm, List.filter_cons_of_pos (by simp [hk]), total_cons]
      · rw [if_neg (Ne.symm hk), zero_add, List.filter_cons_of_neg (by simp [hk])]

theorem total_single_nodup {ks : List κ} (hnodup : ks.Nodup) (v : κ → M) :
    (total (fun k ↦ single k (v k)) ks).keys = ks.toFinset ∧
      ∀ k, (total (fun k ↦ single k (v k)) ks).value k = if k ∈ ks then v k else 0 := by
  induction ks with
  | nil => exact ⟨rfl, fun k ↦ (if_neg List.not_mem_nil).symm⟩
  | cons k ks ih =>
    obtain ⟨hkeys, hvalue⟩ := ih hnodup.of_cons
    rw [total_cons]
    refine ⟨?_, fun k' ↦ ?_⟩
    · rw [keys_add, hkeys, List.toFinset_cons]
      rfl
    · rw [value_add, hvalue]
      change (if k' = k then v k else 0) + _ = _
      by_cases hk : k' = k
      · rw [if_pos hk, if_neg (hk ▸ (List.nodup_cons.mp hnodup).1), if_pos (hk ▸ List.mem_cons_self),
          add_zero, hk]
      · rw [if_neg hk, zero_add]
        exact if_congr ⟨List.mem_cons_of_mem _, List.mem_of_ne_of_mem hk⟩ rfl rfl

end GroupMap

/-- `SELECT key, agg .. GROUP BY key`: a row for each key, in an order of no meaning. -/
def groupBy [DecidableEq κ] (key : α → κ) (agg : List α → ι) (rows : List α) : List (κ × ι) :=
  (rows.map key).dedup.map fun k ↦ (k, agg (rows.filter fun x ↦ key x = k))

theorem find?_groupBy [DecidableEq κ] (key : α → κ) (agg : List α → ι) (rows : List α) (k : κ) :
    (groupBy key agg rows).find? (·.1 = k) =
      if k ∈ rows.map key then some (k, agg (rows.filter fun x ↦ key x = k)) else none := by
  rw [groupBy]
  split
  · rename_i hk
    obtain ⟨before, after, hsplit⟩ := List.append_of_mem (List.mem_dedup.mpr hk)
    have hnodup := List.nodup_dedup (rows.map key)
    rw [hsplit] at hnodup ⊢
    refine List.find?_eq_some_iff_append.mpr ⟨decide_eq_true rfl, before.map _, after.map _,
      by rw [List.map_append, List.map_cons], fun row hrow ↦ ?_⟩
    obtain ⟨k', hk', rfl⟩ := List.mem_map.mp hrow
    have hne := (List.nodup_append.mp hnodup).2.2 k' hk' k List.mem_cons_self
    simp [hne]
  · rename_i hk
    refine List.find?_eq_none.mpr fun row hrow ↦ ?_
    obtain ⟨k', hk', rfl⟩ := List.mem_map.mp hrow
    rw [decide_eq_true_eq]
    rintro rfl
    exact hk (List.mem_dedup.mp hk')

namespace GroupMap

variable [DecidableEq κ] [AddCommMonoid M] {κ' : Type*} [DecidableEq κ']

/-- Merging the rows of a `GROUP BY` query, their keys renamed, adds each row of the table to
the entry of its key. -/
theorem ofRows_groupBy {key : α → κ} (rename : κ → κ') {agg : List α → ι} {read : ι → M}
    {val : α → M} (hagg : ∀ rows, read (agg rows) = total val rows) (rows : List α) :
    ofRows ((groupBy key agg rows).map fun row ↦ (rename row.1, read row.2)) =
      total (fun x ↦ single (rename (key x)) (val x)) rows := by
  rw [ofRows_eq_total, ← total_groups key]
  simp only [total, groupBy, List.map_map]
  congr 1
  apply List.map_congr_left
  intro k hk
  obtain ⟨x, hx, rfl⟩ := List.mem_map.mp (List.mem_dedup.mp hk)
  have hne : rows.filter (fun y ↦ key y = key x) ≠ [] :=
    List.ne_nil_of_mem (List.mem_filter.mpr ⟨hx, decide_eq_true rfl⟩)
  have hkey : ∀ y ∈ rows.filter (fun y ↦ key y = key x), rename (key y) = rename (key x) := by
    intro y hy
    have hy : key y = key x := of_decide_eq_true (List.mem_filter.mp hy).2
    rw [hy]
  exact (congrArg (single _) (hagg _)).trans (total_single hne hkey).symm

section Select

variable {N : Type*} [AddCommMonoid N]

def sumOver (f : κ → M → N) (g : GroupMap κ M) : N := ∑ k ∈ g.keys, f k (g.value k)

variable {f : κ → M → N} (hf : ∀ k m m', f k (m + m') = f k m + f k m')

include hf

theorem sumOver_add (g h : GroupMap κ M) : sumOver f (g + h) = sumOver f g + sumOver f h := by
  have habsorb (k : κ) (m : M) : f k m + f k 0 = f k m := by rw [← hf, add_zero]
  have hover (g h : GroupMap κ M) : ∑ k ∈ g.keys ∪ h.keys, f k (g.value k) =
      sumOver f g + ∑ k ∈ h.keys \ g.keys, f k 0 := by
    rw [sumOver, ← Finset.union_sdiff_self_eq_union, Finset.sum_union Finset.disjoint_sdiff]
    congr 1
    apply Finset.sum_congr rfl
    intro k hk
    rw [g.value_eq_zero k (Finset.mem_sdiff.mp hk).2]
  have hself (g h : GroupMap κ M) : sumOver f h + ∑ k ∈ h.keys \ g.keys, f k 0 = sumOver f h := by
    rw [sumOver, ← Finset.sum_sdiff (Finset.sdiff_subset (s := h.keys) (t := g.keys)), add_assoc,
      ← Finset.sum_add_distrib]
    simp only [habsorb]
  calc sumOver f (g + h)
      = ∑ k ∈ g.keys ∪ h.keys, (f k (g.value k) + f k (h.value k)) :=
        Finset.sum_congr rfl fun k _ ↦ hf k _ _
    _ = (sumOver f g + ∑ k ∈ h.keys \ g.keys, f k 0) +
          (sumOver f h + ∑ k ∈ g.keys \ h.keys, f k 0) := by
        rw [Finset.sum_add_distrib, hover, Finset.union_comm, hover]
    _ = (sumOver f g + ∑ k ∈ g.keys \ h.keys, f k 0) +
          (sumOver f h + ∑ k ∈ h.keys \ g.keys, f k 0) := by
        rw [add_add_add_comm, add_comm (∑ k ∈ h.keys \ g.keys, f k 0), ← add_add_add_comm]
    _ = sumOver f g + sumOver f h := by rw [hself, hself]

theorem sumOver_total {rows : List α} {v : α → GroupMap κ M} :
    sumOver f (total v rows) = total (fun x ↦ sumOver f (v x)) rows := by
  induction rows with
  | nil => exact Finset.sum_empty
  | cons x rows ih => rw [total_cons, total_cons, sumOver_add hf, ih]

omit hf in
theorem sumOver_single (k : κ) (m : M) : sumOver f (single k m) = f k m := by
  rw [sumOver]
  exact (Finset.sum_singleton _ k).trans (congrArg (f k) (if_pos rfl))

theorem sumOver_ofRows (rows : List (κ × M)) :
    sumOver f (ofRows rows) = total (fun row ↦ f row.1 row.2) rows := by
  rw [ofRows_eq_total, sumOver_total hf]
  simp only [sumOver_single]

omit hf

/-- What is added for the entry of a key, where it has a new key. -/
def optional (k : Option κ') (m : M) : GroupMap κ' M := k.elim 0 fun k ↦ single k m

theorem optional_add (k : Option κ') (m m' : M) :
    optional k (m + m') = optional k m + optional k m' := by
  cases k with
  | none => exact (add_zero 0).symm
  | some k => exact single_add k m m'

/-- `SELECT .. GROUP BY` over the entries: each goes to its new key, those without one are left
out. -/
def select (rename : κ → Option κ') : GroupMap κ M → GroupMap κ' M :=
  sumOver fun k m ↦ optional (rename k) m

theorem select_ofRows (rename : κ → Option κ') (rows : List (κ × M)) :
    select rename (ofRows rows) = total (fun row ↦ optional (rename row.1) row.2) rows :=
  sumOver_ofRows (fun _ ↦ optional_add _) rows

end Select

section Entries

variable [LinearOrder κ]

def entries (g : GroupMap κ M) : List (κ × M) :=
  (g.keys.sort (· ≤ ·)).map fun k ↦ (k, g.value k)

omit [DecidableEq κ] in
theorem total_entries {N : Type*} [AddCommMonoid N] (f : κ → M → N) (g : GroupMap κ M) :
    total (fun row ↦ f row.1 row.2) g.entries = sumOver f g := by
  rw [total, entries, List.map_map, ← Multiset.sum_coe, ← Multiset.map_coe, Finset.sort_eq]
  rfl

theorem ofRows_entries (g : GroupMap κ M) : ofRows g.entries = g := by
  have hnodup : (g.keys.sort (· ≤ ·)).Nodup := g.keys.sort_nodup _
  obtain ⟨hkeys, hvalue⟩ := total_single_nodup hnodup g.value
  have hmap : ofRows g.entries = total (fun k ↦ single k (g.value k)) (g.keys.sort (· ≤ ·)) := by
    rw [ofRows_eq_total, entries, total, List.map_map]
    rfl
  rw [hmap]
  refine GroupMap.ext ?_ (funext fun k ↦ ?_)
  · rw [hkeys, Finset.sort_toFinset]
  · rw [hvalue]
    by_cases hk : k ∈ g.keys
    · exact if_pos ((Finset.mem_sort _).mpr hk)
    · rw [if_neg fun h ↦ hk ((Finset.mem_sort _).mp h), g.value_eq_zero k hk]

end Entries

end GroupMap

section Capped

variable {all all' kept kept' : Finset κ} {cap : ℕ}

/-- What is kept of a set: all of it, unless it has been cut, and then not below the limit. -/
structure Capped (cap : ℕ) (all kept : Finset κ) : Prop where
  subset : kept ⊆ all
  cut : kept = all ∨ cap ≤ kept.card

theorem Capped.refl (cap : ℕ) (all : Finset κ) : Capped cap all all := ⟨Finset.Subset.refl _, .inl rfl⟩

theorem Capped.eq_of_le (h : Capped cap all kept) (hle : all.card ≤ cap) : kept = all := by
  rcases h.cut with heq | hcut
  · exact heq
  · exact Finset.eq_of_subset_of_card_le h.subset (hle.trans hcut)

theorem Capped.card_lt_iff (h : Capped cap all kept) : kept.card < cap ↔ all.card < cap := by
  constructor
  · intro hlt
    rcases h.cut with rfl | hle
    · exact hlt
    · omega
  · intro hlt
    rwa [h.eq_of_le hlt.le]

variable [DecidableEq κ]

theorem Capped.union (h : Capped cap all kept) (h' : Capped cap all' kept') :
    Capped cap (all ∪ all') (kept ∪ kept') where
  subset := Finset.union_subset_union h.subset h'.subset
  cut := by
    rcases h.cut with rfl | hle
    · rcases h'.cut with rfl | hle'
      · exact .inl rfl
      · exact .inr (hle'.trans (Finset.card_le_card Finset.subset_union_right))
    · exact .inr (hle.trans (Finset.card_le_card Finset.subset_union_left))

theorem Capped.foldl {xs : List α} {ys : List ι} {f : α → Finset κ} {g : ι → Finset κ}
    (hparts : List.Forall₂ (fun x y ↦ Capped cap (f x) (g y)) xs ys) (h : Capped cap all kept) :
    Capped cap (xs.foldl (fun out x ↦ out ∪ f x) all)
      (ys.foldl (fun out y ↦ out ∪ g y) kept) := by
  induction hparts generalizing all kept with
  | nil => exact h
  | cons hpart _ ih => exact ih (h.union hpart)

/-- Parts that are within the limit are kept whole. -/
theorem Capped.foldl_eq {xs : List α} {ys : List ι} {f : α → Finset κ} {g : ι → Finset κ}
    (hparts : List.Forall₂ (fun x y ↦ Capped cap (f x) (g y)) xs ys)
    (hfits : ∀ x ∈ xs, (f x).card ≤ cap) (all : Finset κ) :
    ys.foldl (fun out y ↦ out ∪ g y) all = xs.foldl (fun out x ↦ out ∪ f x) all := by
  induction hparts generalizing all with
  | nil => rfl
  | cons hpart _ ih =>
    rw [List.foldl_cons, List.foldl_cons, hpart.eq_of_le (hfits _ List.mem_cons_self)]
    exact ih (fun x hx ↦ hfits x (List.mem_cons_of_mem _ hx)) _

theorem mem_foldl_union {xs : List α} {f : α → Finset κ} {k : κ} :
    k ∈ xs.foldl (fun out x ↦ out ∪ f x) all ↔ k ∈ all ∨ ∃ x ∈ xs, k ∈ f x := by
  induction xs generalizing all with
  | nil => simp
  | cons x xs ih =>
    rw [List.foldl_cons, ih, Finset.mem_union, or_assoc]
    simp only [List.mem_cons, exists_eq_or_imp]

theorem capped_take (values : List κ) :
    Capped cap values.toFinset (values.dedup.take cap).toFinset where
  subset := by
    intro k hk
    rw [List.mem_toFinset] at hk ⊢
    exact List.mem_dedup.mp (List.mem_of_mem_take hk)
  cut := by
    rcases le_total values.dedup.length cap with hle | hle
    · left
      exact Finset.ext fun k ↦ by rw [List.take_of_length_le hle, List.mem_toFinset,
        List.mem_dedup, List.mem_toFinset]
    · right
      rw [List.toFinset_card_of_nodup ((List.nodup_dedup _).sublist (List.take_sublist _ _)),
        List.length_take, min_eq_left hle]

end Capped

end QueQiao.Lib.Aggregation
