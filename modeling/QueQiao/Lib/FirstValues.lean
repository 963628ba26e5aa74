import Mathlib

namespace QueQiao.Lib.FirstValues

variable {α : Type*} [LinearOrder α] {n : ℕ} {S T : Set α} {l l' : List α}

/-- The first `n` values of a set, in order. -/
structure IsFirst (n : ℕ) (S : Set α) (l : List α) : Prop where
  sorted : l.SortedLT
  length_le : l.length ≤ n
  mem : ∀ a ∈ l, a ∈ S
  rest : ∀ a ∈ S, a ∉ l → l.length = n ∧ ∀ b ∈ l, b < a

theorem IsFirst.subset (h : IsFirst n S l) (h' : IsFirst n S l') : l ⊆ l' := by
  intro a ha
  by_contra hnot
  obtain ⟨hfull, habove⟩ := h'.rest a (h.mem a ha) hnot
  by_cases hsub : l' ⊆ l
  · have hlength : (a :: l').length ≤ l.length :=
      (List.nodup_cons.mpr ⟨hnot, h'.sorted.nodup⟩).length_le_of_subset
        (List.cons_subset.mpr ⟨ha, hsub⟩)
    have hle := h.length_le
    rw [List.length_cons] at hlength
    omega
  · rw [List.subset_def] at hsub
    push Not at hsub
    obtain ⟨b, hb, hnot'⟩ := hsub
    exact absurd ((h.rest b (h'.mem b hb) hnot').2 a ha) (habove b hb).asymm

theorem IsFirst.unique (h : IsFirst n S l) (h' : IsFirst n S l') : l = l' :=
  h.sorted.eq_of_mem_iff h'.sorted fun _ ↦ ⟨fun ha ↦ h.subset h' ha, fun ha ↦ h'.subset h ha⟩

end QueQiao.Lib.FirstValues
