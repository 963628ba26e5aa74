import Mathlib.Algebra.BigOperators.Group.List.Basic
import Mathlib.Algebra.GroupWithZero.Nat
import Mathlib.Data.List.Flatten
import Mathlib.Data.List.Nodup
import Mathlib.Data.List.Perm.Basic

namespace QueQiao.Lib.Slots

open scoped List

variable {α β : Type*} {l : List α} {i : ℕ} {a : α}

theorem eq_append_of_getElem? (h : l[i]? = some a) (b : α) :
    l = l.take i ++ a :: l.drop (i + 1) ∧ l.set i b = l.take i ++ b :: l.drop (i + 1) := by
  obtain ⟨hi, rfl⟩ := List.getElem?_eq_some_iff.mp h
  refine ⟨?_, List.set_eq_take_append_cons_drop.trans (if_pos hi)⟩
  rw [List.getElem_cons_drop, List.take_append_drop]

theorem sum_map_set (h : l[i]? = some a) (f : α → ℕ) (b : α) :
    ((l.set i b).map f).sum + f a = (l.map f).sum + f b := by
  obtain ⟨hl, hset⟩ := eq_append_of_getElem? h b
  rw [hset]
  nth_rewrite 3 [hl]
  simp only [List.map_append, List.map_cons, List.sum_append, List.sum_cons]
  omega

theorem eq_of_mem_of_nodup {g : α → List β} (h : (l.flatMap g).Nodup) {j : ℕ} {b : α} {x : β}
    (hi : l[i]? = some a) (hj : l[j]? = some b) (ha : x ∈ g a) (hb : x ∈ g b) : i = j := by
  have hpair := List.pairwise_iff_getElem.mp (List.nodup_flatMap.mp h).2
  obtain ⟨hil, rfl⟩ := List.getElem?_eq_some_iff.mp hi
  obtain ⟨hjl, rfl⟩ := List.getElem?_eq_some_iff.mp hj
  rcases Nat.lt_trichotomy i j with hlt | heq | hgt
  · exact (hpair i j hil hjl hlt ha hb).elim
  · exact heq
  · exact (hpair j i hjl hil hgt hb ha).elim

theorem sum_map_le_sum_map {f g : α → ℕ} (h : ∀ a : α, f a ≤ g a) (l : List α) :
    (l.map f).sum ≤ (l.map g).sum := by
  induction l with
  | nil => exact Nat.le_refl 0
  | cons a l ih =>
    simp only [List.map_cons, List.sum_cons]
    exact Nat.add_le_add (h a) ih

theorem exists_of_sum_map_pos {f : α → ℕ} (h : 0 < (l.map f).sum) :
    ∃ (i : ℕ) (a : α), l[i]? = some a ∧ 0 < f a := by
  induction l with
  | nil => exact absurd h (Nat.lt_irrefl 0)
  | cons a l ih =>
    by_cases ha : 0 < f a
    · exact ⟨0, a, rfl, ha⟩
    · rw [List.map_cons, List.sum_cons] at h
      obtain ⟨i, b, hb, hpos⟩ := ih (by omega)
      exact ⟨i + 1, b, hb, hpos⟩

end QueQiao.Lib.Slots
