import Mathlib.Algebra.BigOperators.Group.List.Basic
import Mathlib.Algebra.GroupWithZero.Nat

namespace QueQiao.Lib.Tally

variable {κ : Type*} [DecidableEq κ]

/-- Adding one to the count of a key, which is entered with one where it is new. -/
def bump (k : κ) : List (κ × ℕ) → List (κ × ℕ)
  | [] => [(k, 1)]
  | row :: counts => if row.1 = k then (row.1, row.2 + 1) :: counts else row :: bump k counts

def countOf (k : κ) (counts : List (κ × ℕ)) : ℕ :=
  ((counts.find? fun row ↦ row.1 = k).map (·.2)).getD 0

def sum (counts : List (κ × ℕ)) : ℕ := (counts.map (·.2)).sum

omit [DecidableEq κ] in
theorem sum_cons (row : κ × ℕ) (counts : List (κ × ℕ)) : sum (row :: counts) = row.2 + sum counts := by
  rw [sum, List.map_cons, List.sum_cons, sum]

theorem countOf_cons (k : κ) (row : κ × ℕ) (counts : List (κ × ℕ)) :
    countOf k (row :: counts) = if row.1 = k then row.2 else countOf k counts := by
  rw [countOf]
  split
  · rename_i h
    rw [List.find?_cons_of_pos (by simpa using h)]
    rfl
  · rename_i h
    rw [List.find?_cons_of_neg (by simpa using h), countOf]

theorem countOf_bump (k key : κ) (counts : List (κ × ℕ)) :
    countOf key (bump k counts) = countOf key counts + if k = key then 1 else 0 := by
  induction counts with
  | nil =>
    rw [bump, countOf_cons]
    exact (Nat.zero_add _).symm
  | cons row counts ih =>
    rw [bump]
    split
    · rename_i h
      rw [countOf_cons, countOf_cons, h]
      split
      · rfl
      · rfl
    · rename_i h
      rw [countOf_cons, countOf_cons, ih]
      split
      · rename_i hkey
        rw [if_neg fun hk ↦ h (hkey.trans hk.symm), Nat.add_zero]
      · rfl

theorem sum_bump (k : κ) (counts : List (κ × ℕ)) : sum (bump k counts) = sum counts + 1 := by
  induction counts with
  | nil => rfl
  | cons row counts ih =>
    rw [bump]
    split
    · rw [sum_cons, sum_cons]
      omega
    · rw [sum_cons, sum_cons, ih]
      omega

theorem sum_foldl_bump {α : Type*} (key : α → Option κ) (xs : List α) (counts : List (κ × ℕ)) :
    sum (xs.foldl (fun counts x ↦ (key x).elim counts fun k ↦ bump k counts) counts) =
      sum counts + xs.countP fun x ↦ (key x).isSome := by
  induction xs generalizing counts with
  | nil => rfl
  | cons x xs ih =>
    rw [List.foldl_cons, ih]
    cases h : key x with
    | none =>
      rw [List.countP_cons_of_neg (by simp [h])]
      rfl
    | some k =>
      rw [List.countP_cons_of_pos (by simp [h]), Option.elim_some, sum_bump]
      omega

end QueQiao.Lib.Tally
