import Mathlib.Data.List.Basic

namespace QueQiao.Lib.Interleave

variable {σ α β : Type*}

/-- What a machine puts out for a list of inputs, and the state after the last of them. -/
def run (step : σ → α → List β × σ) : σ → List α → List β × σ
  | s, [] => ([], s)
  | s, a :: as =>
    let r := step s a
    let r' := run step r.2 as
    (r.1 ++ r'.1, r'.2)

/-- Beside a machine that takes every input runs one that takes only those of `keep`. At each of
these the two states are the `same` for the input. -/
def aligned (step : σ → α → List β × σ) (keep : α → Bool) (same : α → σ → σ → Bool) :
    σ → σ → List α → Bool
  | _, _, [] => true
  | s, t, a :: as =>
    if keep a then same a s t && aligned step keep same (step s a).2 (step t a).2 as
    else aligned step keep same (step s a).2 t as

/-- What the two machines need of one input: the outputs that a `view` sees agree where the states
are the same for it, an input that is not kept is not seen, and `J` relates the two states. -/
structure Separates (step : σ → α → List β × σ) (keep : α → Bool) (view : β → Bool)
    (same : α → σ → σ → Bool) (J : σ → σ → Prop) : Prop where
  kept : ∀ {a s t}, keep a = true → J s t → same a s t = true →
    (step s a).1.filter view = (step t a).1.filter view
  keptNext : ∀ {a s t}, keep a = true → J s t → J (step s a).2 (step t a).2
  dropped : ∀ {a} s, keep a = false → (step s a).1.filter view = []
  droppedNext : ∀ {a s t}, keep a = false → J s t → J (step s a).2 t

variable {step : σ → α → List β × σ} {keep : α → Bool} {view : β → Bool}
  {same : α → σ → σ → Bool} {J : σ → σ → Prop}

theorem Separates.run_filter (h : Separates step keep view same J) {s t : σ} (hJ : J s t)
    {as : List α} (hsame : aligned step keep same s t as = true) :
    let whole := run step s as
    let alone := run step t (as.filter keep)
    whole.1.filter view = alone.1.filter view ∧ J whole.2 alone.2 := by
  induction as generalizing s t with
  | nil => exact ⟨rfl, hJ⟩
  | cons a as ih =>
    rw [aligned] at hsame
    cases hkeep : keep a with
    | true =>
      rw [hkeep, if_pos rfl, Bool.and_eq_true] at hsame
      obtain ⟨hview, hend⟩ := ih (h.keptNext hkeep hJ) hsame.2
      rw [List.filter_cons_of_pos hkeep]
      simp only [run, List.filter_append]
      exact ⟨by rw [h.kept hkeep hJ hsame.1, hview], hend⟩
    | false =>
      rw [hkeep, if_neg Bool.false_ne_true] at hsame
      obtain ⟨hview, hend⟩ := ih (h.droppedNext hkeep hJ) hsame
      rw [List.filter_cons_of_neg (by rw [hkeep]; exact Bool.false_ne_true)]
      simp only [run, List.filter_append]
      exact ⟨by rw [h.dropped s hkeep, hview]; rfl, hend⟩

end QueQiao.Lib.Interleave
