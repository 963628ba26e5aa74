import Mathlib.Algebra.BigOperators.Group.List.Basic
import Mathlib.Algebra.GroupWithZero.Nat
import Mathlib.Data.List.Nodup

namespace QueQiao.Lib.Buckets

variable {κ α : Type*} [DecidableEq κ] {k k' : κ} {a : α} {b : List (κ × List α)}

def put (k : κ) (a : α) : List (κ × List α) → List (κ × List α)
  | [] => [(k, [a])]
  | (k', as) :: rest => if k' = k then (k', as ++ [a]) :: rest else (k', as) :: put k a rest

def bucket (b : List (κ × List α)) (k : κ) : List α := ((b.find? (·.1 = k)).map Prod.snd).getD []

def size (b : List (κ × List α)) : ℕ := (b.map (·.2.length)).sum

theorem mem_keys_put : k' ∈ (put k a b).map Prod.fst ↔ k' = k ∨ k' ∈ b.map Prod.fst := by
  induction b with
  | nil => simp [put]
  | cons e b ih =>
    obtain ⟨k₁, as⟩ := e
    rw [put]
    split
    · rename_i hk
      subst hk
      simp only [List.map_cons, List.mem_cons]
      tauto
    · simp only [List.map_cons, List.mem_cons, ih]
      tauto

theorem bucket_put : bucket (put k a b) k' = if k = k' then bucket b k ++ [a] else bucket b k' := by
  induction b with
  | nil =>
    rw [put, bucket]
    by_cases hk : k = k'
    · rw [if_pos hk, List.find?_cons_of_pos (by simpa using hk)]
      rfl
    · rw [if_neg hk, List.find?_cons_of_neg (by simpa using hk)]
      rfl
  | cons e b ih =>
    obtain ⟨k₁, as⟩ := e
    rw [put]
    by_cases hput : k₁ = k
    · rw [if_pos hput]
      subst hput
      by_cases hk : k₁ = k'
      · subst hk
        rw [if_pos rfl, bucket, bucket, List.find?_cons_of_pos (by simp),
          List.find?_cons_of_pos (by simp)]
        rfl
      · rw [if_neg hk, bucket, bucket, List.find?_cons_of_neg (by simpa using hk),
          List.find?_cons_of_neg (by simpa using hk)]
    · have hrest : bucket ((k₁, as) :: b) k = bucket b k := by
        rw [bucket, bucket, List.find?_cons_of_neg (by simpa using hput)]
      rw [if_neg hput]
      by_cases hk : k₁ = k'
      · subst hk
        rw [if_neg (Ne.symm hput), bucket, bucket, List.find?_cons_of_pos (by simp),
          List.find?_cons_of_pos (by simp)]
      · rw [bucket, List.find?_cons_of_neg (by simpa using hk), ← bucket, ih, hrest]
        congr 1
        rw [bucket, bucket, List.find?_cons_of_neg (by simpa using hk)]

theorem size_put : size (put k a b) = size b + 1 := by
  induction b with
  | nil => rfl
  | cons e b ih =>
    obtain ⟨k₁, as⟩ := e
    rw [put]
    split
    · simp only [size, List.map_cons, List.sum_cons, List.length_append, List.length_singleton]
      omega
    · simp only [size, List.map_cons, List.sum_cons] at ih ⊢
      omega

structure Wf (b : List (κ × List α)) : Prop where
  nodup : (b.map Prod.fst).Nodup
  nonempty : ∀ e ∈ b, e.2 ≠ []

omit [DecidableEq κ] in
theorem Wf.nil : Wf ([] : List (κ × List α)) :=
    ⟨List.nodup_nil, fun _ h ↦ absurd h List.not_mem_nil⟩

theorem Wf.put (h : Wf b) (k : κ) (a : α) : Wf (put k a b) := by
  induction b with
  | nil =>
    refine ⟨List.nodup_singleton k, fun e he ↦ ?_⟩
    rw [List.mem_singleton.mp he]
    exact List.cons_ne_nil a []
  | cons e b ih =>
    obtain ⟨k₁, as⟩ := e
    obtain ⟨hfresh, hnodup⟩ := List.nodup_cons.mp h.nodup
    obtain ⟨hne, hrest⟩ := List.forall_mem_cons.mp h.nonempty
    rw [Buckets.put]
    split
    · exact ⟨h.nodup, List.forall_mem_cons.mpr
        ⟨List.append_ne_nil_of_right_ne_nil _ (List.cons_ne_nil a []), hrest⟩⟩
    · rename_i hk
      have hput := ih ⟨hnodup, hrest⟩
      refine ⟨List.nodup_cons.mpr ⟨fun hmem ↦ ?_, hput.nodup⟩,
        List.forall_mem_cons.mpr ⟨hne, hput.nonempty⟩⟩
      exact (mem_keys_put.mp hmem).elim hk hfresh

theorem Wf.mem_iff (h : Wf b) {as : List α} : (k, as) ∈ b ↔ as = bucket b k ∧ as ≠ [] := by
  induction b with
  | nil => simp [bucket]
  | cons e b ih =>
    obtain ⟨k₁, as₁⟩ := e
    obtain ⟨hfresh, hnodup⟩ := List.nodup_cons.mp h.nodup
    obtain ⟨hne, hrest⟩ := List.forall_mem_cons.mp h.nonempty
    have hmem := ih ⟨hnodup, hrest⟩
    rw [List.mem_cons, Prod.mk.injEq]
    by_cases hk : k = k₁
    · subst hk
      have hself : bucket ((k, as₁) :: b) k = as₁ := by
        rw [bucket, List.find?_cons_of_pos (by simp)]
        rfl
      rw [hself]
      constructor
      · rintro (⟨-, rfl⟩ | hb)
        · exact ⟨rfl, hne⟩
        · exact absurd (List.mem_map_of_mem (f := Prod.fst) hb) hfresh
      · rintro ⟨rfl, -⟩
        exact .inl ⟨rfl, rfl⟩
    · have hskip : bucket ((k₁, as₁) :: b) k = bucket b k := by
        rw [bucket, bucket, List.find?_cons_of_neg (by simpa using Ne.symm hk)]
      rw [hskip, or_iff_right fun h : k = k₁ ∧ as = as₁ ↦ hk h.1]
      exact hmem

end QueQiao.Lib.Buckets
